import Mathlib.Data.List.Basic
import SheetCut.Proofs.Program.PartCode

/-!
# Inert commands

Some commands say nothing where they stand: comments without a version, motions that build no
segment, and repeated header sections among them. A program without them is the same program, however
many of them are left out, since every scan of the commands passes over them.
-/

namespace SheetCut

variable {α : Type}

namespace Command

def isVersion : Command α → Bool
  | comment text => "!V".toList.isPrefixOf text.toList
  | _ => false

def isDatabase : Command α → Bool
  | call (.loadDatabase ..) => true
  | _ => false

def isSetup : Command α → Bool
  | call (.init ..) => true
  | _ => false

/-- The command says nothing where it stands, right after the commands `before`. -/
def isInertAfter (before : List (Command α)) : Command α → Bool
  | comment text => !(comment text : Command α).isVersion || before.any isVersion
  | blockMarker _ => false
  | motion m =>
    m.x.isNone || m.y.isNone ||
      !m.geometryCode?.any fun code => 0 ≤ code.toInt && code.toInt ≤ 3
  | call c =>
    match c with
    | .loadDatabase .. => before.any isDatabase
    | .init .. => before.any isSetup
    | .partOrigin .. => before.any isProgramEnd
    | .programEnd => before.any isProgramEnd
    | .partProgram => true
    | .pierce => true
    | .leadIn code .. => !(1 ≤ code.toInt && code.toInt ≤ 3)
    | .remnantPhase phase => phase != 1 && phase != 2
    | .contourStart .. => false
    | .startCut => false
    | .contourEnd .. => false
    | .partEnd => false
    | .remnantStart .. => false

/-- The commands whose places are not dropped, in order. -/
def without (dropped : Nat → Bool) (cs : List (Command α)) : List (Command α) :=
  (cs.zipIdx.filter fun c => !dropped c.2).map Prod.fst

/-- The second list is the first one with inert commands left out; the commands `before` stand in
front of both. -/
inductive Thinned : List (Command α) → List (Command α) → List (Command α) → Prop
  | nil {before : List (Command α)} : Thinned before [] []
  | keep {before : List (Command α)} {c : Command α} {cs ds : List (Command α)} :
      Thinned (before ++ [c]) cs ds → Thinned before (c :: cs) (c :: ds)
  | drop {before : List (Command α)} {c : Command α} {cs ds : List (Command α)} :
      c.isInertAfter before → Thinned (before ++ [c]) cs ds → Thinned before (c :: cs) ds

theorem without_cons (dropped : Nat → Bool) (c : Command α) (cs : List (Command α)) :
    without dropped (c :: cs) =
      (if dropped 0 then [] else [c]) ++ without (fun i => dropped (i + 1)) cs := by
  rw [without, List.zipIdx_cons, List.zipIdx_succ, List.filter_cons, List.filter_map]
  cases dropped 0 <;> simp [without, Function.comp_def]

/-- Whether a command is inert depends on all commands before it, also on those that are left out. -/
theorem thinned_without {before : List (Command α)} {dropped : Nat → Bool}
    {cs : List (Command α)}
    (h : ∀ i (hi : i < cs.length), dropped i → cs[i].isInertAfter (before ++ cs.take i)) :
    Thinned before cs (without dropped cs) := by
  induction cs generalizing before dropped with
  | nil => exact .nil
  | cons c cs ih =>
    have htail : Thinned (before ++ [c]) cs (without (fun i => dropped (i + 1)) cs) := by
      refine ih fun i hi hd => ?_
      have hc := h (i + 1) (Nat.succ_lt_succ hi) hd
      rwa [List.getElem_cons_succ, List.take_succ_cons, List.append_cons] at hc
    rw [without_cons]
    cases hd : dropped 0 with
    | true =>
      have hc := h 0 (Nat.succ_pos _) hd
      rw [List.getElem_cons_zero, List.take_zero, List.append_nil] at hc
      exact .drop hc htail
    | false => exact .keep htail

theorem isSome_versionOf? (c : Command α) : (Program.versionOf? c).isSome = c.isVersion := by
  cases c with
  | comment text =>
    rw [Program.versionOf?, isVersion]
    cases "!V".toList.isPrefixOf text.toList <;> rfl
  | _ => rfl

theorem isSome_materialOf? (c : Command α) : (Program.materialOf? c).isSome = c.isDatabase := by
  cases c with
  | call c => cases c <;> rfl
  | _ => rfl

theorem isSome_setupOf? (c : Command α) : (Program.setupOf? c).isSome = c.isSetup := by
  cases c with
  | call c => cases c <;> rfl
  | _ => rfl

section
variable {before : List (Command α)} {c : Command α} (h : c.isInertAfter before)
include h

theorem isVersion_of_isInertAfter (hc : c.isVersion) : before.any isVersion := by
  cases c with
  | comment text => simpa [isInertAfter, hc] using h
  | _ => cases hc

theorem isDatabase_of_isInertAfter (hc : c.isDatabase) : before.any isDatabase := by
  unfold isDatabase at hc
  split at hc
  · exact h
  · cases hc

theorem isSetup_of_isInertAfter (hc : c.isSetup) : before.any isSetup := by
  unfold isSetup at hc
  split at hc
  · exact h
  · cases hc

theorem blockNumber?_of_isInertAfter : c.blockNumber? = none := by
  cases c with
  | blockMarker n => cases h
  | _ => rfl

/-- Before the program end an inert command is no program end and declares no placement. -/
theorem placement?_of_isInertAfter (hb : before.any isProgramEnd = false) :
    c.isProgramEnd = false ∧ ∀ block, c.placement? block = none := by
  cases c with
  | call c =>
    cases c with
    | programEnd => rw [isInertAfter, hb] at h; cases h
    | partOrigin => rw [isInertAfter, hb] at h; cases h
    | _ => exact ⟨rfl, fun _ => rfl⟩
  | _ => exact ⟨rfl, fun _ => rfl⟩

theorem startsCutting_of_isInertAfter : c.startsCutting = false := by
  cases c with
  | call c =>
    cases c with
    | startCut => cases h
    | remnantPhase phase =>
      simp only [isInertAfter, Bool.and_eq_true, bne_iff_ne] at h
      exact decide_eq_false h.1
    | _ => rfl
  | _ => rfl

end

variable [Scalar α] {before : List (Command α)} {c : Command α} (h : c.isInertAfter before)
include h

/-- An inert motion has no target, or no code that builds a segment. -/
theorem move?_of_isInertAfter : c.move? = none := by
  cases c with
  | motion m =>
    rw [move?]
    split
    · next code x y hcode htarget =>
      refine dif_neg fun hr => ?_
      cases hx : m.x <;> cases hy : m.y <;> simp [Motion.target?, hx, hy] at htarget
      simp [isInertAfter, hx, hy, hcode, hr] at h
    · rfl
  | call c =>
    cases c with
    | leadIn code x y i j =>
      refine dif_neg fun hr => ?_
      simp [isInertAfter, hr] at h
    | _ => rfl
  | _ => rfl

theorem isInner_of_isInertAfter : c.isInner := by
  cases c with
  | call c =>
    cases c with
    | remnantPhase phase =>
      simp only [isInertAfter, Bool.and_eq_true, bne_iff_ne] at h
      simp [isInner, opening?, closing?, isPartEnd, h.2]
    | contourStart => cases h
    | contourEnd => cases h
    | partEnd => cases h
    | remnantStart => cases h
    | _ => rfl
  | _ => rfl

end Command

namespace ScanState

open Command

variable [Scalar α]

/-- An inert command leaves a scan as it is, idle or with a contour open. -/
theorem step_of_isInertAfter {before : List (Command α)} {c : Command α}
    (h : c.isInertAfter before) (s : ScanState α) : s.step c = .scanning s := by
  obtain ⟨block, pen, k⟩ := s
  have hi := isInner_of_isInertAfter h
  cases k with
  | none =>
    rw [step_idle_of_isInner hi, blockNumber?_of_isInertAfter h]
    rfl
  | some k =>
    rw [step_open_of_isInner hi, blockNumber?_of_isInertAfter h, OpenContour.record,
      move?_of_isInertAfter h, startsCutting_of_isInertAfter h]
    rfl

theorem contours_of_thinned {before cs ds : List (Command α)} (h : Thinned before cs ds)
    (s : ScanState α) : s.contours cs = s.contours ds := by
  induction h generalizing s with
  | nil => rfl
  | @keep _ c _ _ _ ih =>
    rw [contours, contours]
    cases s.step c with
    | scanning t => exact ih t
    | closed t k => exact congrArg (List.cons k) (ih t)
    | partEnd => rfl
  | drop hc _ ih =>
    rw [contours, step_of_isInertAfter hc]
    exact ih s

end ScanState

open Command in
/-- The code of a part begins at the same marker in both lists, or in neither. -/
theorem Part.ofPlacement?_of_thinned [Scalar α] {before cs ds : List (Command α)}
    (h : Thinned before cs ds) (p : Placement α) : ofPlacement? cs p = ofPlacement? ds p := by
  induction h with
  | nil => rfl
  | @keep before c cs ds h ih =>
    by_cases hc : c.blockNumber? = some p.partCodeBlock
    · rw [ofPlacement?_cons_of_eq hc, ofPlacement?_cons_of_eq hc,
        ScanState.contours_of_thinned (.keep h)]
    · rw [ofPlacement?_cons_of_ne hc, ofPlacement?_cons_of_ne hc, ih]
  | drop hc _ ih =>
    rw [ofPlacement?_cons_of_ne (by simp [blockNumber?_of_isInertAfter hc]), ih]

namespace Program

open Command

/-- What is found first is never inert, so it is found in both lists. -/
theorem findSome?_of_thinned {β : Type} {read? : Command α → Option β}
    (hread : ∀ {before c}, isInertAfter before c → (read? c).isSome →
      before.any fun d => (read? d).isSome)
    {before cs ds : List (Command α)} (h : Thinned before cs ds)
    (hb : (before.any fun d => (read? d).isSome) = false) :
    cs.findSome? read? = ds.findSome? read? := by
  -- Up to the first hit `hb` goes on to hold; until then nothing that is read can be inert.
  induction h with
  | nil => rfl
  | @keep before c cs ds _ ih =>
    rw [List.findSome?_cons, List.findSome?_cons]
    cases hc : read? c with
    | some b => rfl
    | none => exact ih (by simp [List.any_append, hb, hc])
  | @drop before c cs ds hi _ ih =>
    have hc : read? c = none := by
      by_contra hc
      have hany := hread hi (Option.isSome_iff_ne_none.2 hc)
      rw [hb] at hany
      cases hany
    rw [List.findSome?_cons, hc]
    exact ih (by simp [List.any_append, hb, hc])

theorem sectionIn?_of_thinned {β : Type} (s : Section) {read? : Command α → Option β}
    (hread : ∀ {before c}, isInertAfter before c → (read? c).isSome →
      before.any fun d => (read? d).isSome)
    {cs ds : List (Command α)} (h : Thinned [] cs ds) :
    sectionIn? s read? cs = sectionIn? s read? ds := by
  rw [sectionIn?, sectionIn?, findSome?_of_thinned hread h rfl]

theorem placementsFrom_of_thinned {before cs ds : List (Command α)} (h : Thinned before cs ds)
    (hb : before.any isProgramEnd = false) (block : UInt32) :
    placementsFrom block cs = placementsFrom block ds := by
  -- `hb` goes on to hold up to the program end, where both lists stop to be read.
  induction h generalizing block with
  | nil => rfl
  | @keep before c cs ds _ ih =>
    cases hc : c.isProgramEnd with
    | true => rw [placementsFrom_of_isProgramEnd hc, placementsFrom_of_isProgramEnd hc]
    | false =>
      rw [placementsFrom_cons hc, placementsFrom_cons hc, ih (by simp [List.any_append, hb, hc])]
  | @drop before c cs ds hi _ ih =>
    obtain ⟨hc, hp⟩ := placement?_of_isInertAfter hi hb
    rw [placementsFrom_cons hc, hp, blockNumber?_of_isInertAfter hi]
    exact ih (by simp [List.any_append, hb, hc]) block

variable [Scalar α]

theorem place?_of_thinned {before cs ds : List (Command α)} (h : Thinned before cs ds) :
    place? cs = place? ds := by
  funext built p
  rw [place?, place?, Part.ofPlacement?_of_thinned h]

def dropRawCommands (p : Program α) : Program α := { p with rawCommands := [] }

theorem ofCommands?_of_thinned {cs ds : List (Command α)} (h : Thinned [] cs ds) (keep : Bool) :
    (ofCommands? ds keep).map dropRawCommands = (ofCommands? cs keep).map dropRawCommands := by
  have hm : materialIn? cs = materialIn? ds := sectionIn?_of_thinned _ (by
    simp only [isSome_materialOf?]
    exact isDatabase_of_isInertAfter) h
  have hs : setupIn? cs = setupIn? ds := sectionIn?_of_thinned _ (by
    simp only [isSome_setupOf?]
    exact isSetup_of_isInertAfter) h
  have hv : versionIn cs = versionIn ds := by
    rw [versionIn, versionIn, findSome?_of_thinned _ h rfl]
    simp only [isSome_versionOf?]
    exact isVersion_of_isInertAfter
  have hp : placementsIn cs = placementsIn ds := placementsFrom_of_thinned h rfl 0
  rw [ofCommands?, ofCommands?, hm, hs, hv, hp, place?_of_thinned h]
  cases materialIn? ds with
  | error e => rfl
  | ok material =>
    cases setupIn? ds with
    | error e => rfl
    | ok setup =>
      simp only [foldlM_place?]
      rfl

/-- Inert commands may be left out at any places: the same section is missing, or the program is the
same. -/
theorem ofCommands?_without (cs : List (Command α)) (dropped : Nat → Bool)
    (h : ∀ i (hi : i < cs.length), dropped i → cs[i].isInertAfter (cs.take i)) (keep : Bool) :
    (ofCommands? (without dropped cs) keep).map dropRawCommands =
      (ofCommands? cs keep).map dropRawCommands :=
  ofCommands?_of_thinned (thinned_without h) keep

/-- A program with an inert command of every kind. -/
def cluttered : List (Command Float) :=
  [.comment "no version", .comment "!V1", .call (.loadDatabase ⟨1⟩ "DB" ⟨1⟩), .comment "!V2",
    .call (.init 1 100 50), .call .partProgram, .blockMarker 10, .call (.partOrigin 5 0 0 100 1),
    .call (.loadDatabase ⟨2⟩ "OTHER" ⟨2⟩), .call (.init 9 1 1), .call .programEnd,
    .blockMarker 11, .call (.partOrigin 9 9 0 100 1), .call .programEnd, .blockMarker 100,
    .call (.contourStart ⟨1⟩ ⟨1⟩ 0 0 0 4 3), .call .pierce, .call (.leadIn 0 1 1 0 0),
    .call (.leadIn 4 1 1 0 0), .call .startCut, .motion ⟨"G1", some 4, none, none, none, none, none⟩,
    .motion ⟨"M8", some 4, some 1, none, none, none, none⟩, .call (.remnantPhase 3),
    .motion ⟨"G1", some 4, some 0, none, none, none, none⟩, .call (.contourEnd 0 4 0 0 0 0),
    .call .partEnd]

def clutter : List Nat := [0, 3, 5, 8, 9, 12, 13, 16, 17, 18, 20, 21, 22]

/-- Half of its commands are left out, and the part is still there with its contour. -/
theorem ofCommands?_without_clutter :
    (∀ i (hi : i < cluttered.length), clutter.contains i →
        cluttered[i].isInertAfter (cluttered.take i)) ∧
      (without clutter.contains cluttered).length = 13 ∧
      (ofCommands? (without clutter.contains cluttered) true).map dropRawCommands =
        (ofCommands? cluttered true).map dropRawCommands ∧
      (ofCommands? cluttered true).toOption.map (fun p => p.parts.map fun a => a.contours.length) =
        some [1] := by
  have h : ∀ i (hi : i < cluttered.length), clutter.contains i →
      cluttered[i].isInertAfter (cluttered.take i) := by decide
  exact ⟨h, rfl, ofCommands?_without cluttered clutter.contains h true, rfl⟩

end Program

end SheetCut
