import SheetCut.Playback.Program
import SheetCut.Proofs.Program.Placements

/-!
# The phases of a contour

A contour keeps its segments twice: phase by phase, and all of them in one list. In every contour that
a scan closes the two agree, so each place of the one list belongs to a phase.
-/

namespace SheetCut

variable {α : Type}

namespace Contour

def IsPhased (c : Contour α) : Prop :=
  c.allSegments = c.leadInSegments ++ c.approachPath ++ c.cuttingPath

/-- The phase that the `k`-th of all segments belongs to. -/
def phaseAt (c : Contour α) (k : Nat) : PathType :=
  if k < c.leadInSegments.length then .leadIn
  else if k < c.leadInSegments.length + c.approachPath.length then .approach
  else .cutting

end Contour

theorem OpenContour.isPhased_close (k : OpenContour α) (endCode : Int32) (endPosition : Point α)
    (web : Int32) : (k.close endCode endPosition web).IsPhased := by
  rw [Contour.IsPhased, Contour.leadInSegments, close]
  cases k.leadIn <;> rfl

variable [Scalar α]

namespace ScanState

/-- What a step closes has its segments in order. -/
theorem isPhased_of_step {s t : ScanState α} {c : Command α} {k : Contour α}
    (h : s.step c = .closed t k) : k.IsPhased := by
  obtain ⟨o, q, -, -, rfl⟩ := exists_closeBy_of_step h
  exact OpenContour.isPhased_close _ _ _ _

theorem isPhased_of_mem_contours {s : ScanState α} {cs : List (Command α)} {k : Contour α}
    (h : k ∈ s.contours cs) : k.IsPhased := by
  induction cs generalizing s with
  | nil => cases h
  | cons c cs ih =>
    rw [contours.eq_2] at h
    cases hc : s.step c with
    | scanning t =>
      rw [hc] at h
      exact ih h
    | closed t k' =>
      rw [hc] at h
      rcases List.mem_cons.1 h with rfl | h
      · exact isPhased_of_step hc
      · exact ih h
    | partEnd =>
      rw [hc] at h
      cases h

end ScanState

theorem Program.isPhased_of_ofCommands? {cs : List (Command α)} {keep : Bool} {p : Program α}
    (h : ofCommands? cs keep = .ok p) {a : Part α} (ha : a ∈ p.parts) {c : Contour α}
    (hc : c ∈ a.contours) : c.IsPhased := by
  rw [(lists_of_ofCommands? h).2.1] at ha
  obtain ⟨q, -, rfl⟩ := List.mem_map.1 ha
  exact ScanState.isPhased_of_mem_contours hc

namespace Sampler

omit [Scalar α] in
/-- A row of segments in one phase, numbered from `first` on. -/
private theorem map_ofType_eq {c : Contour α} {t : PathType} (a b first : Nat)
    (l : List (Segment α)) (h : ∀ k, first ≤ k → k < first + l.length → c.phaseAt k = t) :
    l.map (fun s => (PathLabel.ofType a b t, s)) =
      (l.zipIdx first).map fun x => (PathLabel.ofType a b (c.phaseAt x.2), x.1) := by
  rw [← List.zipIdx_map_fst first l, List.map_map, List.zipIdx_map_fst]
  refine List.map_congr_left fun x hx => ?_
  obtain ⟨hle, hlt, -⟩ := List.mem_zipIdx hx
  rw [h x.2 hle (by omega)]
  rfl

omit [Scalar α] in
/-- The phases of a contour are its segments in one list, each with the label of its place. -/
theorem phases_eq {c : Contour α} (hc : c.IsPhased) (a b : Nat) :
    phases a b c =
      c.allSegments.zipIdx.map fun x => (PathLabel.ofType a b (c.phaseAt x.2), x.1) := by
  have hleadIn := map_ofType_eq (c := c) (t := .leadIn) a b 0 c.leadInSegments fun k _ hk =>
    if_pos (by omega)
  have happroach := map_ofType_eq (c := c) (t := .approach) a b c.leadInSegments.length
    c.approachPath fun k hle hlt => by
      rw [Contour.phaseAt, if_neg (by omega), if_pos hlt]
  have hcutting := map_ofType_eq (c := c) (t := .cutting) a b
    (c.leadInSegments.length + c.approachPath.length) c.cuttingPath fun k hle _ => by
      rw [Contour.phaseAt, if_neg (by omega), if_neg (by omega)]
  rw [hc, List.zipIdx_append, List.zipIdx_append, List.map_append, List.map_append, Nat.zero_add,
    List.length_append, Nat.zero_add, ← hleadIn, ← happroach, ← hcutting]
  rfl

end Sampler

end SheetCut
