import SheetCut.Proofs.Snapshot.Program
import SheetCut.Snapshot.Playback

/-!
# Reading texts of snapshots back

Whatever is written as a compact or as an indented text is read back from it.
-/

namespace SheetCut

open Json Snapshot Numbers RoundTrip

instance : Numbers PathType := ⟨fun _ _ => True⟩

@[simp] theorem satisfy_pathType (P : Float → Prop) (t : PathType) : Satisfy P t := trivial

instance : RoundTrip PathType 0 where
  ofJson?_toJson _ t _ := by cases t <;> rfl
  fits_toJson _ _ _ _ := trivial

namespace PathPoint

instance : Numbers (PathPoint Float) where
  Satisfy P p := Satisfy P p.position ∧ Satisfy P p.worldPosition ∧ Satisfy P p.partIndex ∧
    Satisfy P p.contourIndex ∧ Satisfy P p.segmentIndex ∧ Satisfy P p.stepIndex ∧
    Satisfy P p.progress

def values (p : PathPoint Float) : List (Option Json) :=
  [some (Snapshot.toJson p.position), p.worldPosition.map Snapshot.toJson,
    some (Snapshot.toJson p.partIndex), some (Snapshot.toJson p.contourIndex),
    some (Snapshot.toJson p.segmentIndex), some (Snapshot.toJson p.stepIndex),
    some (Snapshot.toJson p.progress), some (Snapshot.toJson p.laserOn),
    some (Snapshot.toJson p.pathType)]

theorem toJson_eq_present (p : PathPoint Float) :
    toJson p = object (present fieldNames p.values) := by
  rw [toJson, values]
  cases p.worldPosition <;> rfl

end PathPoint

instance : RoundTrip (PathPoint Float) 2 where
  ofJson?_toJson hP p hp := by
    obtain ⟨hposition, hworld, hpart, hcontour, hsegment, hstep, hprogress⟩ := hp
    have hfields := fields?_present (show PathPoint.fieldNames.Nodup by decide) 9 p.values rfl
    rw [← PathPoint.toJson_eq_present] at hfields
    refine Option.bind_eq_some_iff.2 ⟨_, hfields, ?_⟩
    simp [PathPoint.values, ofJson?_toJson hP, optional?_map_toJson hP rfl _ hworld, hposition,
      hpart, hcontour, hsegment, hstep, hprogress]
  fits_toJson p hp n hn := by
    obtain ⟨hposition, hworld, hpart, hcontour, hsegment, hstep, hprogress⟩ := hp
    show (PathPoint.toJson p).Fits n
    rw [PathPoint.toJson_eq_present]
    refine ⟨by omega, fitMembers_present ?_⟩
    simp only [PathPoint.values, List.forall_mem_cons]
    exact ⟨fits_of_mem_some (fits_toJson p.position hposition _ (by omega)),
      fits_map_toJson p.worldPosition hworld _ (by omega),
      fits_of_mem_some (fits_atom p.partIndex hpart _),
      fits_of_mem_some (fits_atom p.contourIndex hcontour _),
      fits_of_mem_some (fits_atom p.segmentIndex hsegment _),
      fits_of_mem_some (fits_atom p.stepIndex hstep _),
      fits_of_mem_some (fits_atom p.progress hprogress _),
      fits_of_mem_some (fits_atom p.laserOn trivial _),
      fits_of_mem_some (fits_atom p.pathType trivial _), List.forall_mem_nil _⟩

def readText? (T : Type) [Snapshot T] (text : String) : Option T := (ofText? text).bind ofJson?

/-- All values with finite floats are read back from their trees; where the texts of the floats are
read back, the values are read back from both texts of the trees. -/
def IsReadBack (T : Type) [Snapshot T] [Numbers T] : Prop :=
  ∀ v : T,
    (Satisfy (fun x => x.isFinite = true) v → ofJson? (toJson v) = some v) ∧
    (Satisfy IsWritten v →
      readText? T (toJson v).compact = some v ∧ readText? T (toJson v).pretty = some v)

section

variable {T : Type} {height : Nat} [Snapshot T] [Numbers T] [RoundTrip T height]

theorem readText?_print (hheight : height ≤ maxDepth) {line : Option String}
    (hline : IsBlank (gap line)) (v : T) (hv : Satisfy IsWritten v) :
    readText? T (print line (toJson v)) = some v := by
  rw [readText?, ofText?_print hline (fits_toJson v hv maxDepth hheight), Option.bind_some]
  exact ofJson?_toJson (fun x hx => hx.1) v hv

theorem isReadBack_of_height (hheight : height ≤ maxDepth) : IsReadBack T := by
  have hcompact : IsBlank (gap none) := fun c hc => absurd hc List.not_mem_nil
  have hpretty : IsBlank (gap (some "\n")) := by
    intro c hc
    rw [List.mem_singleton.1 hc]
    rfl
  exact fun v => ⟨ofJson?_toJson (fun _ hx => hx) v, fun hv =>
    ⟨readText?_print hheight hcompact v hv, readText?_print hheight hpretty v hv⟩⟩

end

/-- The snapshots that leave the program are read back. -/
theorem isReadBack_snapshots :
    IsReadBack (Point Float) ∧ IsReadBack (Segment Float) ∧ IsReadBack (Bounds Float) ∧
      IsReadBack (Command Float) ∧ IsReadBack (Contour Float) ∧ IsReadBack (Program Float) ∧
      IsReadBack (Statistics Float) ∧ IsReadBack (PathPoint Float) := by
  refine ⟨?_, ?_, ?_, ?_, ?_, ?_, ?_, ?_⟩ <;> exact isReadBack_of_height (by decide)

theorem isWritten_oneAndHalf : IsWritten 1.5 := by
  have htext : numberLayout.text 1.5 = "1.5" := by decide +kernel
  have hscaled : scaleDown (Float.ofNat 15) 1 = 1.5 := by
    rw [scaleDown, if_pos (by decide)]
    decide +kernel
  refine ⟨by decide +kernel, ?_⟩
  rw [ReadsBack, htext, ← hscaled]
  rfl

def rightMove : Command Float :=
  .motion { mnemonic := "G1", x := some 1.5, y := none, z := none, i := none, j := none, f := none }

theorem isReadBack_snapshots_rightMove :
    Satisfy IsWritten rightMove ∧
      readText? (Command Float) (toJson rightMove).compact = some rightMove := by
  have hwritten : Satisfy IsWritten rightMove := by
    have hnone : Satisfy IsWritten (none : Option Float) := fun x hx => by cases hx
    have hx : Satisfy IsWritten (some (1.5 : Float)) := fun x hx => by
      cases hx
      exact isWritten_oneAndHalf
    exact ⟨hx, hnone, hnone, hnone, hnone, hnone⟩
  exact ⟨hwritten, ((isReadBack_snapshots.2.2.2.1 rightMove).2 hwritten).1⟩

end SheetCut
