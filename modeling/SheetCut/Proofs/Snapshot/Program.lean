import SheetCut.Proofs.Snapshot.Command
import SheetCut.Snapshot.Program

/-!
# Reading programs back

Contours, parts, programs and statistics. A contour without a lead-in has null in its place, and a
program without kept commands has no member for them.
-/

namespace SheetCut

open Json Snapshot Numbers RoundTrip

instance : Numbers (LeadIn Float) := ⟨fun P l => Satisfy P l.segment⟩

instance : RoundTrip (LeadIn Float) 3 where
  ofJson?_toJson hP l hl := by
    refine Option.bind_eq_some_iff.2 ⟨_, fields?_object (by simp) 2, ?_⟩
    simp [ofJson?_toJson hP l.segment hl, ofJson?_toJson hP]
  fits_toJson l hl n hn :=
    ⟨by omega, fits_atom l.code trivial _, fits_toJson l.segment hl _ (by omega), trivial⟩

/-- The member of a lead-in is there also where the contour has none. -/
theorem optional?_leadIn {P : Float → Prop} (hP : ∀ x, P x → x.isFinite = true)
    (l? : Option (LeadIn Float)) : Satisfy P l? → optional? ofJson? (some (match l? with
      | some l => toJson l
      | none => null)) = some l? := by
  intro hl
  cases l? with
  | none => rfl
  | some l => exact optional?_map_toJson hP rfl (some l) hl

instance : Numbers (Contour Float) where
  Satisfy P c := Satisfy P c.piercingPosition ∧ Satisfy P c.declaredSize ∧ Satisfy P c.leadIn ∧
    Satisfy P c.approachPath ∧ Satisfy P c.cuttingPath ∧ Satisfy P c.endPosition ∧
    Satisfy P c.allSegments

instance : RoundTrip (Contour Float) 4 where
  ofJson?_toJson hP c hc := by
    obtain ⟨hposition, hsize, hleadIn, happroach, hcutting, hend, hall⟩ := hc
    have hfields : (Contour.toJson c).fields? Contour.fieldNames 15 = some _ :=
      fields?_object (by simp) 15
    show Contour.ofJson? (Contour.toJson c) = some c
    rw [Contour.ofJson?]
    refine Option.bind_eq_some_iff.2 ⟨_, hfields, ?_⟩
    simp only [List.map_cons, List.map_nil, ofJson?_string, satisfy_uint32, ofJson?_toJson hP,
      satisfy_code, hposition, satisfy_int32, hsize, ofJson?_bool, happroach, hcutting, hend, hall,
      Option.pure_def, Option.bind_eq_bind, Option.bind_some]
    exact Option.bind_eq_some_iff.2 ⟨c.leadIn, optional?_leadIn hP c.leadIn hleadIn, rfl⟩
  fits_toJson c hc n hn := by
    obtain ⟨hposition, hsize, hleadIn, happroach, hcutting, hend, hall⟩ := hc
    refine ⟨by omega, trivial, fits_atom c.blockNumber trivial _,
      fits_atom c.piercingType trivial _, fits_atom c.cuttingType trivial _,
      fits_toJson c.piercingPosition hposition _ (by omega),
      fits_atom c.toolCompensation trivial _, fits_toJson c.declaredSize hsize _ (by omega),
      trivial, ?_, fits_toJson c.approachPath happroach _ (by omega),
      fits_toJson c.cuttingPath hcutting _ (by omega), fits_atom c.endCode trivial _,
      fits_toJson c.endPosition hend _ (by omega), fits_atom c.web trivial _,
      fits_toJson c.allSegments hall _ (by omega), trivial⟩
    show Json.Fits (match c.leadIn with
      | some l => toJson l
      | none => null) (n - 1)
    split
    · next l hl => exact fits_toJson l (hleadIn l hl) _ (by omega)
    · trivial

instance : Numbers Material := ⟨fun _ _ => True⟩

@[simp] theorem satisfy_material (P : Float → Prop) (m : Material) : Satisfy P m := trivial

instance : RoundTrip Material 1 where
  ofJson?_toJson hP m _ := by
    refine Option.bind_eq_some_iff.2 ⟨_, fields?_object (by simp) 3, ?_⟩
    simp [ofJson?_toJson hP]
  fits_toJson m _ n hn :=
    ⟨hn, fits_atom m.material trivial _, trivial, fits_atom m.assistGas trivial _, trivial⟩

instance : Numbers (SheetSetup Float) := ⟨fun P s => Satisfy P s.width ∧ Satisfy P s.height⟩

instance : RoundTrip (SheetSetup Float) 1 where
  ofJson?_toJson hP s hs := by
    refine Option.bind_eq_some_iff.2 ⟨_, fields?_object (by simp) 3, ?_⟩
    simp [ofJson?_toJson hP, hs.1, hs.2]
  fits_toJson s hs n hn :=
    ⟨hn, fits_atom s.totalParts trivial _, fits_atom s.width hs.1 _, fits_atom s.height hs.2 _,
      trivial⟩

instance : Numbers (Placement Float) := ⟨fun P p => Satisfy P p.origin ∧ Satisfy P p.rotation⟩

instance : RoundTrip (Placement Float) 2 where
  ofJson?_toJson hP p hp := by
    refine Option.bind_eq_some_iff.2 ⟨_, fields?_object (by simp) 5, ?_⟩
    simp [ofJson?_toJson hP, hp.1, hp.2]
  fits_toJson p hp n hn :=
    ⟨by omega, fits_atom p.originBlockNumber trivial _, fits_toJson p.origin hp.1 _ (by omega),
      fits_atom p.rotation hp.2 _, fits_atom p.partCodeBlock trivial _,
      fits_atom p.contourCount trivial _, trivial⟩

instance : Numbers (Part Float) where
  Satisfy P p := Satisfy P p.origin ∧ Satisfy P p.rotation ∧ Satisfy P p.contours

instance : RoundTrip (Part Float) 6 where
  ofJson?_toJson hP p hp := by
    refine Option.bind_eq_some_iff.2 ⟨_, fields?_object (by simp) 6, ?_⟩
    simp [ofJson?_toJson hP, hp.1, hp.2.1, hp.2.2]
  fits_toJson p hp n hn :=
    ⟨by omega, trivial, fits_atom p.blockNumber trivial _,
      fits_atom p.originBlockNumber trivial _, fits_toJson p.origin hp.1 _ (by omega),
      fits_atom p.rotation hp.2.1 _, fits_toJson p.contours hp.2.2 _ (by omega), trivial⟩

instance : Numbers SkippedPart := ⟨fun _ _ => True⟩

@[simp] theorem satisfy_skippedParts (P : Float → Prop) (items : List SkippedPart) :
    Satisfy P items := fun _ _ => trivial

instance : RoundTrip SkippedPart 1 where
  ofJson?_toJson hP s _ := by
    refine Option.bind_eq_some_iff.2 ⟨_, fields?_object (by simp) 2, ?_⟩
    simp [ofJson?_toJson hP]
  fits_toJson s _ n hn := ⟨hn, trivial, fits_atom s.partCodeBlock trivial _, trivial⟩

namespace Program

instance : Numbers (Program Float) where
  Satisfy P p := Satisfy P p.setup ∧ Satisfy P p.workpiece ∧ Satisfy P p.placements ∧
    Satisfy P p.parts ∧ Satisfy P p.rawCommands

/-- The values of the fields; commands that are not kept are missing. -/
def values (p : Program Float) : List (Option Json) :=
  [some (string p.version), some (Snapshot.toJson p.material), some (Snapshot.toJson p.setup),
    some (Snapshot.toJson p.workpiece), some (Snapshot.toJson p.placements),
    some (Snapshot.toJson p.parts), some (Snapshot.toJson p.skippedParts),
    if p.rawCommands.isEmpty then none else some (Snapshot.toJson p.rawCommands)]

theorem toJson_eq_present (p : Program Float) :
    toJson p = object (present fieldNames p.values) := by
  rw [toJson, values]
  split <;> rfl

end Program

instance : RoundTrip (Program Float) 8 where
  ofJson?_toJson hP p hp := by
    obtain ⟨hsetup, hworkpiece, hplacements, hparts, hcommands⟩ := hp
    have hfields := fields?_present (show Program.fieldNames.Nodup by decide) 7 p.values rfl
    rw [← Program.toJson_eq_present] at hfields
    refine Option.bind_eq_some_iff.2 ⟨_, hfields, ?_⟩
    cases p with | mk version material setup workpiece placements parts skippedParts commands =>
    cases commands with
    | nil => simp [Program.values, ofJson?_toJson hP, hsetup, hworkpiece, hplacements, hparts]
    | cons c commands =>
      simp [Program.values, ofJson?_toJson hP, hsetup, hworkpiece, hplacements, hparts, hcommands]
  fits_toJson p hp n hn := by
    obtain ⟨hsetup, hworkpiece, hplacements, hparts, hcommands⟩ := hp
    show (Program.toJson p).Fits n
    rw [Program.toJson_eq_present]
    refine ⟨by omega, fitMembers_present ?_⟩
    simp only [Program.values, List.forall_mem_cons]
    refine ⟨fits_of_mem_some trivial,
      fits_of_mem_some (fits_toJson p.material trivial _ (by omega)),
      fits_of_mem_some (fits_toJson p.setup hsetup _ (by omega)),
      fits_of_mem_some (fits_toJson p.workpiece hworkpiece _ (by omega)),
      fits_of_mem_some (fits_toJson p.placements hplacements _ (by omega)),
      fits_of_mem_some (fits_toJson p.parts hparts _ (by omega)),
      fits_of_mem_some (fits_toJson p.skippedParts (satisfy_skippedParts _ _) _ (by omega)), ?_,
      List.forall_mem_nil _⟩
    split
    · simp
    · exact fits_of_mem_some (fits_toJson p.rawCommands hcommands _ (by omega))

instance : Numbers (Statistics Float) where
  Satisfy P s := Satisfy P s.partCount ∧ Satisfy P s.skippedPartCount ∧ Satisfy P s.contourCount ∧
    Satisfy P s.remnantCount ∧ Satisfy P s.pierceCount ∧ Satisfy P s.segmentCount ∧
    Satisfy P s.arcCount ∧ Satisfy P s.leadInLength ∧ Satisfy P s.approachLength ∧
    Satisfy P s.cuttingLength

instance : RoundTrip (Statistics Float) 1 where
  ofJson?_toJson hP s hs := by
    obtain ⟨hparts, hskipped, hcontours, hremnants, hpierces, hsegments, harcs, hleadIn, happroach,
      hcutting⟩ := hs
    have hfields : (Statistics.toJson s).fields? Statistics.fieldNames 10 = some _ :=
      fields?_object (by simp) 10
    show Statistics.ofJson? (Statistics.toJson s) = some s
    rw [Statistics.ofJson?]
    refine Option.bind_eq_some_iff.2 ⟨_, hfields, ?_⟩
    simp [ofJson?_toJson hP, hparts, hskipped, hcontours, hremnants, hpierces, hsegments, harcs,
      hleadIn, happroach, hcutting]
  fits_toJson s hs n hn := by
    obtain ⟨hparts, hskipped, hcontours, hremnants, hpierces, hsegments, harcs, hleadIn, happroach,
      hcutting⟩ := hs
    exact ⟨hn, fits_atom s.partCount hparts _, fits_atom s.skippedPartCount hskipped _,
      fits_atom s.contourCount hcontours _, fits_atom s.remnantCount hremnants _,
      fits_atom s.pierceCount hpierces _, fits_atom s.segmentCount hsegments _,
      fits_atom s.arcCount harcs _, fits_atom s.leadInLength hleadIn _,
      fits_atom s.approachLength happroach _, fits_atom s.cuttingLength hcutting _, trivial⟩

end SheetCut
