import SheetCut.Proofs.Snapshot.Geometry
import SheetCut.Snapshot.Command

/-!
# Reading commands back

A macro call is found again by the name that stands in front of its fields, inside a command that is
found by its kind. The words that a motion does not have are missing from its object.
-/

namespace SheetCut

open Json Snapshot Numbers RoundTrip

instance {t : CodeTable} : Numbers (Code t) := ⟨fun _ _ => True⟩

@[simp] theorem satisfy_code {t : CodeTable} (P : Float → Prop) (c : Code t) : Satisfy P c :=
  trivial

@[simp] theorem isReadable_code {t : CodeTable} (c : Code t) : (toJson c).isReadable = true := rfl

instance {t : CodeTable} : RoundTrip (Code t) 0 where
  ofJson?_toJson hP c _ := by
    show (ofJson? (toJson c.value)).map Code.mk = some c
    rw [ofJson?_toJson hP c.value trivial, Option.map_some]
  fits_toJson c _ n hn := fits_toJson c.value trivial n hn

namespace MacroCall

instance : Numbers (MacroCall Float) where
  Satisfy P
    | init _ width height => Satisfy P width ∧ Satisfy P height
    | partOrigin x y rotation _ _ => Satisfy P x ∧ Satisfy P y ∧ Satisfy P rotation
    | contourStart _ _ x y _ width height =>
      Satisfy P x ∧ Satisfy P y ∧ Satisfy P width ∧ Satisfy P height
    | leadIn _ x y i j => Satisfy P x ∧ Satisfy P y ∧ Satisfy P i ∧ Satisfy P j
    | contourEnd _ x y i j _ => Satisfy P x ∧ Satisfy P y ∧ Satisfy P i ∧ Satisfy P j
    | remnantStart _ _ x y => Satisfy P x ∧ Satisfy P y
    | _ => True

/-- The name in front of the fields says how they are read. -/
theorem ofJson?_named {fields : List (String × Json)} (hname : "name" ∉ fields.map Prod.fst)
    (hreadable : haveReadable fields = true) (held : Bool) (kind : String) :
    ofJson? held (named kind fields) = ofFields? kind (object fields) := by
  rw [ofJson?, named, tagged?_object hname hreadable]
  rfl

theorem ofJson?_fields (kind : String) (names : List String)
    {read : List (Option Json) → Option (MacroCall Float)}
    (hread : ∀ rest, ofFields? kind rest = (rest.fields? names names.length).bind read)
    (hnodup : ("name" :: names).Nodup) {fields : List (String × Json)}
    (hnames : fields.map Prod.fst = names) (hreadable : haveReadable fields = true) (held : Bool) :
    ofJson? held (named kind fields) = read (fields.map fun m => some m.2) := by
  subst hnames
  obtain ⟨hname, hnodup⟩ := List.nodup_cons.1 hnodup
  rw [ofJson?_named hname hreadable, hread, fields?_object hnodup, Option.bind_some]

/-- A call is read back as a content that was held back, and as one that was not. -/
theorem ofJson?_toJson_held {P : Float → Prop} (hP : ∀ x, P x → x.isFinite = true) (held : Bool)
    (c : MacroCall Float) (hc : Satisfy P c) : ofJson? held (toJson c) = some c := by
  cases c with
  | loadDatabase material dbName assistGas =>
    refine (ofJson?_fields "loadDatabase" ["material", "dbName", "assistGas"] (fun _ => rfl)
      (by decide) rfl (by simp [haveReadable]) held).trans ?_
    simp [ofJson?_toJson hP]
  | init totalParts width height =>
    obtain ⟨hwidth, hheight⟩ := hc
    refine (ofJson?_fields "init" ["totalParts", "width", "height"] (fun _ => rfl) (by decide) rfl
      (by simp [haveReadable]) held).trans ?_
    simp [ofJson?_toJson hP, hwidth, hheight]
  | partOrigin x y rotation partCodeBlock contourCount =>
    obtain ⟨hx, hy, hrotation⟩ := hc
    refine (ofJson?_fields "partOrigin" ["x", "y", "rotation", "partCodeBlock", "contourCount"]
      (fun _ => rfl) (by decide) rfl (by simp [haveReadable]) held).trans ?_
    simp [ofJson?_toJson hP, hx, hy, hrotation]
  | partProgram => exact ofJson?_named List.not_mem_nil rfl held "partProgram"
  | contourStart piercingType cuttingType x y toolCompensation width height =>
    obtain ⟨hx, hy, hwidth, hheight⟩ := hc
    refine (ofJson?_fields "contourStart" ["piercingType", "cuttingType", "x", "y",
      "toolCompensation", "width", "height"] (fun _ => rfl) (by decide) rfl
      (by simp [haveReadable]) held).trans ?_
    simp [ofJson?_toJson hP, hx, hy, hwidth, hheight]
  | pierce => exact ofJson?_named List.not_mem_nil rfl held "pierce"
  | leadIn code x y i j =>
    obtain ⟨hx, hy, hi, hj⟩ := hc
    refine (ofJson?_fields "leadIn" ["code", "x", "y", "i", "j"] (fun _ => rfl) (by decide) rfl
      (by simp [haveReadable]) held).trans ?_
    simp [ofJson?_toJson hP, hx, hy, hi, hj]
  | startCut => exact ofJson?_named List.not_mem_nil rfl held "startCut"
  | contourEnd code x y i j web =>
    obtain ⟨hx, hy, hi, hj⟩ := hc
    refine (ofJson?_fields "contourEnd" ["code", "x", "y", "i", "j", "web"] (fun _ => rfl)
      (by decide) rfl (by simp [haveReadable]) held).trans ?_
    simp [ofJson?_toJson hP, hx, hy, hi, hj]
  | partEnd => exact ofJson?_named List.not_mem_nil rfl held "partEnd"
  | programEnd => exact ofJson?_named List.not_mem_nil rfl held "programEnd"
  | remnantStart cuttingType cuttingKind x y =>
    obtain ⟨hx, hy⟩ := hc
    refine (ofJson?_fields "remnantStart" ["cuttingType", "cuttingKind", "x", "y"] (fun _ => rfl)
      (by decide) rfl (by simp [haveReadable]) held).trans ?_
    simp [ofJson?_toJson hP, hx, hy]
  | remnantPhase phase =>
    refine (ofJson?_fields "remnantPhase" ["phase"] (fun _ => rfl) (by decide) rfl
      (by simp [haveReadable]) held).trans ?_
    simp [ofJson?_toJson hP]

theorem fits_toJson_call (c : MacroCall Float) (hc : Satisfy IsWritten c) (n : Nat) (hn : 1 ≤ n) :
    (toJson c).Fits n := by
  cases c with
  | loadDatabase material dbName assistGas =>
    exact ⟨hn, by simp [FitMembers, Fits, fits_atom]⟩
  | init totalParts width height =>
    obtain ⟨hwidth, hheight⟩ := hc
    exact ⟨hn, by simp [FitMembers, Fits, fits_atom, hwidth, hheight]⟩
  | partOrigin x y rotation partCodeBlock contourCount =>
    obtain ⟨hx, hy, hrotation⟩ := hc
    exact ⟨hn, by simp [FitMembers, Fits, fits_atom, hx, hy, hrotation]⟩
  | contourStart piercingType cuttingType x y toolCompensation width height =>
    obtain ⟨hx, hy, hwidth, hheight⟩ := hc
    exact ⟨hn, by simp [FitMembers, Fits, fits_atom, hx, hy, hwidth, hheight]⟩
  | leadIn code x y i j =>
    obtain ⟨hx, hy, hi, hj⟩ := hc
    exact ⟨hn, by simp [FitMembers, Fits, fits_atom, hx, hy, hi, hj]⟩
  | contourEnd code x y i j web =>
    obtain ⟨hx, hy, hi, hj⟩ := hc
    exact ⟨hn, by simp [FitMembers, Fits, fits_atom, hx, hy, hi, hj]⟩
  | remnantStart cuttingType cuttingKind x y =>
    obtain ⟨hx, hy⟩ := hc
    exact ⟨hn, by simp [FitMembers, Fits, fits_atom, hx, hy]⟩
  | remnantPhase phase =>
    exact ⟨hn, by simp [FitMembers, Fits, fits_atom]⟩
  | partProgram | pierce | startCut | partEnd | programEnd => exact ⟨hn, trivial, trivial⟩

end MacroCall

instance : RoundTrip (MacroCall Float) 1 where
  ofJson?_toJson hP c hc := MacroCall.ofJson?_toJson_held hP false c hc
  fits_toJson := MacroCall.fits_toJson_call

namespace Motion

instance : Numbers (Motion Float) where
  Satisfy P m := Satisfy P m.x ∧ Satisfy P m.y ∧ Satisfy P m.z ∧ Satisfy P m.i ∧ Satisfy P m.j ∧
    Satisfy P m.f

theorem present_word (name : String) (value : Option Float) (names : List String)
    (values : List (Option Json)) :
    present (name :: names) (value.map Snapshot.toJson :: values) =
      wordMember name value ++ present names values := by
  cases value <;> rfl

def fieldNames : List String := ["mnemonic", "x", "y", "z", "i", "j", "f"]

/-- The values of the fields; those of absent words are missing. -/
def values (m : Motion Float) : List (Option Json) :=
  [some (Snapshot.toJson m.mnemonic), m.x.map Snapshot.toJson, m.y.map Snapshot.toJson,
    m.z.map Snapshot.toJson, m.i.map Snapshot.toJson, m.j.map Snapshot.toJson,
    m.f.map Snapshot.toJson]

theorem toJson_eq_present (m : Motion Float) :
    toJson m = object (present fieldNames m.values) := by
  rw [values, fieldNames, present]
  simp only [present_word, present, List.append_nil]
  simp only [toJson, List.append_assoc]
  rfl

end Motion

instance : RoundTrip (Motion Float) 1 where
  ofJson?_toJson hP m hm := by
    obtain ⟨hx, hy, hz, hi, hj, hf⟩ := hm
    have hword {w? : Option Float} (hw : Satisfy _ w?) := optional?_map_toJson hP rfl w? hw
    have hfields := fields?_present (show Motion.fieldNames.Nodup by decide) 7 m.values rfl
    rw [← Motion.toJson_eq_present] at hfields
    refine Option.bind_eq_some_iff.2 ⟨_, hfields, ?_⟩
    simp [Motion.values, ofJson?_toJson hP, hword hx, hword hy, hword hz, hword hi, hword hj,
      hword hf]
  fits_toJson m hm n hn := by
    obtain ⟨hx, hy, hz, hi, hj, hf⟩ := hm
    have hword {w? : Option Float} (hw : Satisfy IsWritten w?) :=
      fits_map_toJson w? hw (n - 1) (Nat.zero_le _)
    show (Motion.toJson m).Fits n
    rw [Motion.toJson_eq_present]
    refine ⟨hn, fitMembers_present ?_⟩
    simp only [Motion.values, List.forall_mem_cons]
    exact ⟨fits_of_mem_some trivial, hword hx, hword hy, hword hz, hword hi, hword hj, hword hf,
      List.forall_mem_nil _⟩

instance : Numbers (Command Float) where
  Satisfy P
    | .call c => Satisfy P c
    | .motion m => Satisfy P m
    | _ => True

instance : RoundTrip (Command Float) 2 where
  ofJson?_toJson hP c hc := by
    have hkind (kind : String) (value : Json) :=
      tagAndContent?_object (show "type" ≠ "value" by decide) kind value
    show Command.ofJson? (Command.toJson c) = some c
    rw [Command.ofJson?]
    cases c with
    | comment text =>
      exact Option.bind_eq_some_iff.2 ⟨_, hkind "comment" _, rfl⟩
    | blockMarker k =>
      refine Option.bind_eq_some_iff.2 ⟨_, hkind "blockMarker" _, ?_⟩
      simp only [ofJson?_toJson hP k trivial]
      rfl
    | call c =>
      refine Option.bind_eq_some_iff.2 ⟨_, hkind "macro" _, ?_⟩
      simp only [Snapshot.toJson, MacroCall.ofJson?_toJson_held hP false c hc]
      rfl
    | motion m =>
      refine Option.bind_eq_some_iff.2 ⟨_, hkind "motion" _, ?_⟩
      simp only [ofJson?_toJson hP m hc]
      rfl
  fits_toJson c hc n hn := by
    cases c with
    | comment text => exact ⟨by omega, trivial, trivial, trivial⟩
    | blockMarker k => exact ⟨by omega, trivial, fits_toJson k trivial _ (by omega), trivial⟩
    | call c => exact ⟨by omega, trivial, fits_toJson c hc _ (by omega), trivial⟩
    | motion m => exact ⟨by omega, trivial, fits_toJson m hc _ (by omega), trivial⟩

end SheetCut
