import SheetCut.Proofs.Json.RoundTrip
import SheetCut.Proofs.Snapshot.Record
import SheetCut.Snapshot.Geometry

/-!
# Reading snapshots back

A value is read back from its tree if its floats are finite and its counts fit 64 bits. The brackets
of the tree stand in each other as deep as the type says, whatever the value is.
-/

namespace SheetCut

open Json Snapshot

/-- What the numbers in a value are asked for. -/
class Numbers (T : Type) where
  /-- Every float of the value satisfies `P`, and every count fits 64 bits. -/
  Satisfy (P : Float → Prop) : T → Prop

open Numbers

def IsWritten (x : Float) : Prop := x.isFinite = true ∧ ReadsBack x

/-- Values that are read back from their trees, whose trees are at most `height` brackets deep. -/
class RoundTrip (T : Type) [Snapshot T] [Numbers T] (height : outParam Nat) : Prop where
  ofJson?_toJson {P : Float → Prop} (hP : ∀ x, P x → x.isFinite = true) (v : T)
    (hv : Satisfy P v) : ofJson? (toJson v) = some v
  fits_toJson (v : T) (hv : Satisfy IsWritten v) (n : Nat) (hn : height ≤ n) : (toJson v).Fits n

open RoundTrip

section Numbers

variable (P : Float → Prop)

instance : Numbers Float := ⟨fun P x => P x⟩

instance : Numbers Nat := ⟨fun _ n => n < UInt64.size⟩

instance : Numbers Bool := ⟨fun _ _ => True⟩

instance : Numbers String := ⟨fun _ _ => True⟩

instance : Numbers UInt32 := ⟨fun _ _ => True⟩

instance : Numbers Int32 := ⟨fun _ _ => True⟩

@[simp] theorem satisfy_bool (b : Bool) : Satisfy P b := trivial

@[simp] theorem satisfy_string (s : String) : Satisfy P s := trivial

@[simp] theorem satisfy_uint32 (n : UInt32) : Satisfy P n := trivial

@[simp] theorem satisfy_int32 (n : Int32) : Satisfy P n := trivial

end Numbers

instance : RoundTrip Float 0 where
  ofJson?_toJson hP x hx := by
    show float? (ofFloat x) = some x
    rw [ofFloat, if_pos (hP x hx), float?]
  fits_toJson x hx n hn := by
    show (ofFloat x).Fits n
    rw [ofFloat, if_pos hx.1]
    exact hx

instance : RoundTrip Nat 0 where
  ofJson?_toJson _ k hk := by
    have hcast : (k : Int) < UInt64.size := by exact_mod_cast hk
    show count? (Json.ofNat k) = some k
    rw [Json.ofNat, count?, if_pos ⟨Int.natCast_nonneg k, hcast⟩, Int.toNat_natCast]
  fits_toJson k hk n hn := by
    have hmin : Int64.minValue.toInt ≤ 0 := by decide
    exact ⟨by omega, by exact_mod_cast hk⟩

instance : RoundTrip Bool 0 where
  ofJson?_toJson _ _ _ := rfl
  fits_toJson _ _ _ _ := trivial

instance : RoundTrip String 0 where
  ofJson?_toJson _ _ _ := rfl
  fits_toJson _ _ _ _ := trivial

instance : RoundTrip UInt32 0 where
  ofJson?_toJson _ k _ := by
    have hcast : (k.toNat : Int) < UInt32.size := by exact_mod_cast k.toNat_lt
    show uint32? (ofUInt32 k) = some k
    rw [ofUInt32, uint32?, if_pos ⟨Int.natCast_nonneg _, hcast⟩, Int.toNat_natCast,
      UInt32.ofNat_toNat]
  fits_toJson k _ n hn := by
    have hmin : Int64.minValue.toInt ≤ 0 := by decide
    have hlt : k.toNat < UInt64.size := k.toNat_lt.trans (by decide)
    exact ⟨by omega, by exact_mod_cast hlt⟩

instance : RoundTrip Int32 0 where
  ofJson?_toJson _ k _ := by
    show int32? (ofInt32 k) = some k
    rw [ofInt32, int32?, if_pos ⟨k.minValue_le_toInt, k.toInt_le⟩, Int32.ofInt_toInt]
  fits_toJson k _ n hn := by
    have hmin : Int64.minValue.toInt ≤ Int32.minValue.toInt := by decide
    have hmax : Int32.maxValue.toInt < UInt64.size := by decide
    exact ⟨Int.le_trans hmin k.minValue_le_toInt, Int.lt_of_le_of_lt k.toInt_le hmax⟩

@[simp] theorem ofJson?_bool (b : Bool) : (ofJson? (Json.bool b) : Option Bool) = some b := rfl

@[simp] theorem ofJson?_string (s : String) : (ofJson? (Json.string s) : Option String) = some s :=
  rfl

theorem fits_atom {T : Type} [Snapshot T] [Numbers T] [RoundTrip T 0] (v : T)
    (hv : Satisfy IsWritten v) (n : Nat) : (toJson v).Fits n :=
  fits_toJson v hv n (Nat.zero_le n)

section Containers

variable {T : Type} {height : Nat} [Snapshot T] [Numbers T] [RoundTrip T height]

instance : Numbers (List T) := ⟨fun P items => ∀ v ∈ items, Satisfy P v⟩

instance : Numbers (Option T) := ⟨fun P v? => ∀ v ∈ v?, Satisfy P v⟩

instance : RoundTrip (List T) (height + 1) where
  ofJson?_toJson hP items hitems := by
    show (items.map toJson).mapM ofJson? = some items
    induction items with
    | nil => rfl
    | cons item items ih =>
      obtain ⟨hitem, hitems⟩ := List.forall_mem_cons.1 hitems
      rw [List.map_cons, List.mapM_cons, ofJson?_toJson hP item hitem, ih hitems]
      rfl
  fits_toJson items hitems n hn := by
    refine ⟨by omega, ?_⟩
    induction items with
    | nil => trivial
    | cons item items ih =>
      obtain ⟨hitem, hitems⟩ := List.forall_mem_cons.1 hitems
      exact ⟨fits_toJson item hitem _ (by omega), ih hitems⟩

include height in
/-- An optional member is read back, missing or not, if null is no value of it. -/
theorem optional?_map_toJson {P : Float → Prop} (hP : ∀ x, P x → x.isFinite = true)
    (hnull : (ofJson? null : Option T) = none) (v? : Option T) (hv : Satisfy P v?) :
    optional? ofJson? (v?.map toJson) = some v? := by
  cases v? with
  | none => rfl
  | some v =>
    have hread := ofJson?_toJson hP v (hv v rfl)
    have hne : toJson v ≠ null := fun heq => by
      rw [heq, hnull] at hread
      cases hread
    rw [Option.map_some, optional?, hread, Option.map_some]
    exact hne

theorem fits_map_toJson (v? : Option T) (hv : Satisfy IsWritten v?) (n : Nat) (hn : height ≤ n) :
    ∀ j ∈ v?.map toJson, j.Fits n := by
  intro j hj
  obtain ⟨v, hmem, rfl⟩ := Option.map_eq_some_iff.1 hj
  exact fits_toJson v (hv v hmem) n hn

end Containers

theorem fits_of_mem_some {j : Json} {n : Nat} (h : j.Fits n) : ∀ k ∈ some j, k.Fits n :=
  fun _ hk => Option.some.inj hk ▸ h

theorem fitMembers_present {names : List String} {values : List (Option Json)} {n : Nat}
    (h : ∀ v ∈ values, ∀ j ∈ v, j.Fits n) : FitMembers (present names values) n := by
  induction names, values using present.induct with
  | case1 name names j values ih =>
    obtain ⟨hj, hvalues⟩ := List.forall_mem_cons.1 h
    rw [present]
    exact ⟨hj j rfl, ih hvalues⟩
  | case2 name names values ih =>
    rw [present]
    exact ih (List.forall_mem_cons.1 h).2
  | case3 | case4 =>
    rw [present]
    trivial

@[simp] theorem isReadable_float (x : Float) : (toJson x).isReadable = true := by
  show (ofFloat x).isReadable = true
  rw [ofFloat]
  split <;> rfl

@[simp] theorem isReadable_bool (b : Bool) : (toJson b).isReadable = true := rfl

@[simp] theorem isReadable_string (s : String) : (toJson s).isReadable = true := rfl

@[simp] theorem isReadable_uint32 (n : UInt32) : (toJson n).isReadable = true := rfl

@[simp] theorem isReadable_int32 (n : Int32) : (toJson n).isReadable = true := rfl

@[simp] theorem isReadable_point (p : Point Float) : (toJson p).isReadable = true := by
  show haveReadable [("x", toJson p.x), ("y", toJson p.y)] = true
  simp [haveReadable]

instance : Numbers (Point Float) := ⟨fun P p => Satisfy P p.x ∧ Satisfy P p.y⟩

instance : Numbers (Extent Float) := ⟨fun P e => Satisfy P e.width ∧ Satisfy P e.height⟩

instance : Numbers (Bounds Float) := ⟨fun P b => Satisfy P b.min ∧ Satisfy P b.max⟩

instance : RoundTrip (Point Float) 1 where
  ofJson?_toJson hP p hp := by
    refine Option.bind_eq_some_iff.2 ⟨_, fields?_object (by simp) 2, ?_⟩
    simp [ofJson?_toJson hP, hp.1, hp.2]
  fits_toJson p hp n hn :=
    ⟨hn, fits_toJson p.x hp.1 _ (by omega), fits_toJson p.y hp.2 _ (by omega), trivial⟩

instance : RoundTrip (Extent Float) 1 where
  ofJson?_toJson hP e he := by
    refine Option.bind_eq_some_iff.2 ⟨_, fields?_object (by simp) 2, ?_⟩
    simp [ofJson?_toJson hP, he.1, he.2]
  fits_toJson e he n hn :=
    ⟨hn, fits_toJson e.width he.1 _ (by omega), fits_toJson e.height he.2 _ (by omega), trivial⟩

instance : RoundTrip (Bounds Float) 2 where
  ofJson?_toJson hP b hb := by
    refine Option.bind_eq_some_iff.2 ⟨_, fields?_object (by simp) 2, ?_⟩
    simp [ofJson?_toJson hP, hb.1, hb.2]
  fits_toJson b hb n hn :=
    ⟨by omega, fits_toJson b.min hb.1 _ (by omega), fits_toJson b.max hb.2 _ (by omega), trivial⟩

instance : Numbers (Segment Float) where
  Satisfy P
    | .line p q => Satisfy P p ∧ Satisfy P q
    | .arc a => Satisfy P a.start ∧ Satisfy P a.stop ∧ Satisfy P a.center ∧ Satisfy P a.radius ∧
        Satisfy P a.startAngle ∧ Satisfy P a.endAngle

instance : RoundTrip (Segment Float) 2 where
  ofJson?_toJson hP s hs := by
    cases s with
    | line p q =>
      obtain ⟨hp, hq⟩ := hs
      refine Option.bind_eq_some_iff.2
        ⟨_, tagged?_object (by simp) (by simp [haveReadable]) _ _ "line",
          Option.bind_eq_some_iff.2 ⟨_, fields?_object (by simp) 2, ?_⟩⟩
      simp [ofJson?_toJson hP, hp, hq]
    | arc a =>
      obtain ⟨hstart, hstop, hcenter, hradius, hstartAngle, hendAngle⟩ := hs
      refine Option.bind_eq_some_iff.2
        ⟨_, tagged?_object (by simp) (by simp [haveReadable]) _ _ "arc",
          Option.bind_eq_some_iff.2 ⟨_, fields?_object (by simp) 7, ?_⟩⟩
      simp [ofJson?_toJson hP, hstart, hstop, hcenter, hradius, hstartAngle, hendAngle]
  fits_toJson s hs n hn := by
    cases s with
    | line p q =>
      obtain ⟨hp, hq⟩ := hs
      exact ⟨by omega, trivial, fits_toJson p hp _ (by omega), fits_toJson q hq _ (by omega),
        trivial⟩
    | arc a =>
      obtain ⟨hstart, hstop, hcenter, hradius, hstartAngle, hendAngle⟩ := hs
      exact ⟨by omega, trivial, fits_toJson a.start hstart _ (by omega),
        fits_toJson a.stop hstop _ (by omega), fits_toJson a.center hcenter _ (by omega),
        fits_toJson a.radius hradius _ (by omega), trivial,
        fits_toJson a.startAngle hstartAngle _ (by omega),
        fits_toJson a.endAngle hendAngle _ (by omega), trivial⟩

end SheetCut
