import SheetCut.Program.Statistics
import SheetCut.Proofs.Playback.Phases

/-!
# Sampling row by row

The playback of a program is written down as nested rows: parts, contours, segments, steps. Each loop
of the sampler gives its row, once the segments in it are checked in order.
-/

namespace SheetCut

variable {α : Type} [Scalar α]

def Part.piercePoint (part : Part α) (a b : Nat) (c : Contour α) : PathPoint α where
  position := c.piercingPosition
  worldPosition := some (part.toWorld c.piercingPosition)
  partIndex := a
  contourIndex := b
  segmentIndex := 0
  stepIndex := 0
  progress := 0
  laserOn := false
  pathType := .piercing

/-- The point at step `i` of `n` on the `k`-th segment of a contour. -/
def Part.stepPoint (part : Part α) (a b : Nat) (c : Contour α) (segment : Segment α) (k n i : Nat) :
    PathPoint α :=
  let progress : α := if n = 0 then 0 else (i : α) / (n : α)
  { position := segment.pointAt progress
    worldPosition := some (part.toWorld (segment.pointAt progress))
    partIndex := a
    contourIndex := b
    segmentIndex := k
    stepIndex := i
    progress
    laserOn := (c.phaseAt k).laserOn
    pathType := c.phaseAt k }

/-- The points of a contour: the pierce, and then every step of every segment. -/
def Part.contourPlayback (steps : Segment α → Nat) (part : Part α) (a b : Nat) (c : Contour α) :
    List (PathPoint α) :=
  (if c.piercingType.pierces then [part.piercePoint a b c] else []) ++
    c.allSegments.zipIdx.flatMap fun (segment, k) =>
      (List.range (steps segment + 1)).map (part.stepPoint a b c segment k (steps segment))

/-- The points of a program where each segment is cut into the given number of steps. -/
def Program.playback (steps : Segment α → Nat) (p : Program α) : List (PathPoint α) :=
  p.parts.zipIdx.flatMap fun (part, a) =>
    part.contours.zipIdx.flatMap fun (c, b) => part.contourPlayback steps a b c

namespace Sampler

variable (s : Sampler α)

/-- The number of steps for a segment that can be sampled. -/
def steps (segment : Segment α) : Nat := (s.stepsFor segment).toOption.getD 0

/-- Fails with the error of the first segment that cannot be sampled. -/
def check : List (Segment α) → Except (SamplingError α) Unit
  | [] => .ok ()
  | segment :: rest => do
    let _ ← s.stepsFor segment
    check rest

theorem check_append (segments others : List (Segment α)) :
    s.check (segments ++ others) = (s.check segments).bind fun _ => s.check others := by
  induction segments with
  | nil => rfl
  | cons segment segments ih =>
    rw [List.cons_append, check, check]
    cases s.stepsFor segment with
    | error e => rfl
    | ok n => exact ih

theorem check_eq_ok {segments : List (Segment α)}
    (h : ∀ t ∈ segments, ∃ n, s.stepsFor t = .ok n) : s.check segments = .ok () := by
  induction segments with
  | nil => rfl
  | cons segment segments ih =>
    obtain ⟨⟨n, hn⟩, h⟩ := List.forall_mem_cons.1 h
    rw [check, hn]
    exact ih h

theorem check_eq_error_iff {segments : List (Segment α)} {e : SamplingError α} :
    s.check segments = .error e ↔ ∃ pre t post, segments = pre ++ t :: post ∧
      (∀ u ∈ pre, ∃ n, s.stepsFor u = .ok n) ∧ s.stepsFor t = .error e := by
  constructor
  · intro h
    induction segments with
    | nil => cases h
    | cons segment segments ih =>
      rw [check] at h
      cases hs : s.stepsFor segment with
      | error e' =>
        rw [hs] at h
        cases h
        exact ⟨[], segment, segments, rfl, List.forall_mem_nil _, hs⟩
      | ok n =>
        rw [hs] at h
        obtain ⟨pre, t, post, rfl, hpre, ht⟩ := ih h
        exact ⟨segment :: pre, t, post, rfl, List.forall_mem_cons.2 ⟨⟨n, hs⟩, hpre⟩, ht⟩
  · rintro ⟨pre, t, post, rfl, hpre, ht⟩
    rw [check_append, check_eq_ok s hpre]
    show s.check (t :: post) = _
    rw [check, ht]
    rfl

/-- Two checked rows of points, one after the other. -/
theorem bind_map_check (segments others : List (Segment α)) (xs ys : List (PathPoint α)) :
    (do
      let points ← (s.check segments).map fun _ => xs
      let more ← (s.check others).map fun _ => ys
      return points ++ more) = (s.check (segments ++ others)).map fun _ => xs ++ ys := by
  rw [check_append]
  cases s.check segments with
  | error e => rfl
  | ok u =>
    cases s.check others with
    | error e => rfl
    | ok u => rfl

theorem sampleLabelled_eq (first : Nat) (l : List (PathLabel × Segment α)) :
    s.sampleLabelled first l = (s.check (l.map Prod.snd)).map fun _ =>
      (l.zipIdx first).flatMap fun x =>
        (List.range (s.steps x.1.2 + 1)).map (pointOf x.1.2 x.2 x.1.1 (s.steps x.1.2)) := by
  induction l generalizing first with
  | nil => rfl
  | cons x l ih =>
    obtain ⟨label, segment⟩ := x
    -- Both sides look at the first segment first, and at the others only if it has its steps.
    rw [sampleLabelled, ih, sampleSegment, List.map_cons, check, List.zipIdx_cons,
      List.flatMap_cons]
    cases hs : s.stepsFor segment with
    | error e => rfl
    | ok n =>
      have hn : s.steps segment = n := by rw [steps, hs]; rfl
      rw [hn]
      cases s.check (l.map Prod.snd) with
      | error e => rfl
      | ok u => rfl

omit [Scalar α] in
/-- Numbering a row again that was made of a numbered one. -/
private theorem zipIdx_map_zipIdx {β γ : Type} (f : β × Nat → γ) (n : Nat) (l : List β) :
    ((l.zipIdx n).map f).zipIdx n = (l.zipIdx n).map fun x => (f x, x.2) := by
  induction l generalizing n with
  | nil => rfl
  | cons x l ih => rw [List.zipIdx_cons, List.map_cons, List.zipIdx_cons, ih, List.map_cons]

/-- A sampled point of a contour, carried to the sheet. -/
private theorem pointOf_eq_stepPoint (part : Part α) (a b : Nat) (c : Contour α)
    (segment : Segment α) (k n i : Nat) :
    { pointOf segment k (.ofType a b (c.phaseAt k)) n i with
      worldPosition := some (part.toWorld
        (pointOf segment k (.ofType a b (c.phaseAt k)) n i).position) } =
      part.stepPoint a b c segment k n i := by
  cases n with
  | zero => rfl
  | succ n => simp [pointOf, Part.stepPoint, progress, PathLabel.ofType]

theorem sampleContour_eq (part : Part α) (a b : Nat) {c : Contour α} (hc : c.IsPhased) :
    s.sampleContour part a b c =
      (s.check c.allSegments).map fun _ => part.contourPlayback s.steps a b c := by
  -- The labelled phases are the one list of segments, so both are numbered alike.
  rw [sampleContour, sampleLabelled_eq, phases_eq hc, zipIdx_map_zipIdx, List.map_map]
  have hsegments : List.map (Prod.snd ∘ fun x : Segment α × Nat =>
      (PathLabel.ofType a b (c.phaseAt x.2), x.1)) c.allSegments.zipIdx = c.allSegments :=
    List.zipIdx_map_fst 0 c.allSegments
  rw [hsegments]
  cases s.check c.allSegments with
  | error e => rfl
  | ok u =>
    refine congrArg Except.ok ?_
    rw [List.map_append, List.flatMap_map, List.map_flatMap, Part.contourPlayback]
    congr 1
    · rw [piercePoints]
      split <;> rfl
    · refine List.flatMap_congr fun x _ => ?_
      rw [List.map_map]
      exact List.map_congr_left fun i _ => pointOf_eq_stepPoint part a b c x.1 x.2 _ i

theorem sampleContours_eq (part : Part α) (a first : Nat) {cs : List (Contour α)}
    (h : ∀ c ∈ cs, c.IsPhased) :
    s.sampleContours part a first cs = (s.check (cs.flatMap Contour.allSegments)).map fun _ =>
      (cs.zipIdx first).flatMap fun (c, b) => part.contourPlayback s.steps a b c := by
  induction cs generalizing first with
  | nil => rfl
  | cons c cs ih =>
    obtain ⟨hc, h⟩ := List.forall_mem_cons.1 h
    rw [sampleContours, sampleContour_eq s part a first hc, ih (first + 1) h, bind_map_check]
    rfl

theorem sampleParts_eq (first : Nat) {ps : List (Part α)}
    (h : ∀ part ∈ ps, ∀ c ∈ part.contours, c.IsPhased) :
    s.sampleParts first ps =
      (s.check (ps.flatMap fun part => part.contours.flatMap Contour.allSegments)).map fun _ =>
        (ps.zipIdx first).flatMap fun (part, a) =>
          part.contours.zipIdx.flatMap fun (c, b) => part.contourPlayback s.steps a b c := by
  induction ps generalizing first with
  | nil => rfl
  | cons part ps ih =>
    obtain ⟨hpart, h⟩ := List.forall_mem_cons.1 h
    rw [sampleParts, sampleContours_eq s part first 0 hpart, ih (first + 1) h, bind_map_check]
    rfl

/-- Sampling gives the playback of a program once all its segments are checked. -/
theorem sampleProgram_eq {p : Program α} (h : ∀ part ∈ p.parts, ∀ c ∈ part.contours, c.IsPhased) :
    s.sampleProgram p = (s.check p.segments).map fun _ => p.playback s.steps := by
  rw [sampleProgram, sampleParts_eq s 0 h, Program.segments, Program.contours, List.flatMap_assoc]
  rfl

def rowPoints (label : PathLabel) (first : Nat) (segments : List (Segment α)) :
    List (PathPoint α) :=
  (segments.zipIdx first).flatMap fun x =>
    (List.range (s.steps x.1 + 1)).map (pointOf x.1 x.2 label (s.steps x.1))

theorem sample_eq (segments : List (Segment α)) (label : PathLabel) :
    s.sample segments label = (s.check segments).map fun _ => s.rowPoints label 0 segments := by
  rw [sample, sampleLabelled_eq, List.map_map, List.zipIdx_map, List.flatMap_map]
  simp only [Function.comp_def, List.map_id']
  rfl

theorem rowPoints_append (label : PathLabel) (first : Nat) (segments others : List (Segment α)) :
    s.rowPoints label first (segments ++ others) =
      s.rowPoints label first segments ++ s.rowPoints label (first + segments.length) others := by
  rw [rowPoints, List.zipIdx_append, List.flatMap_append]
  rfl

end Sampler

namespace PathPoint

omit [Scalar α]

def relabel (label : PathLabel) (x : PathPoint α) : PathPoint α :=
  { x with
    partIndex := label.partIndex
    contourIndex := label.contourIndex
    laserOn := label.laserOn
    pathType := label.pathType }

/-- The same point where `n` segments come first. -/
def renumber (n : Nat) (x : PathPoint α) : PathPoint α :=
  { x with segmentIndex := n + x.segmentIndex }

end PathPoint

namespace Sampler

variable (s : Sampler α)

theorem map_relabel_rowPoints (label other : PathLabel) (first : Nat)
    (segments : List (Segment α)) :
    (s.rowPoints other first segments).map (PathPoint.relabel label) =
      s.rowPoints label first segments := by
  rw [rowPoints, List.map_flatMap]
  refine List.flatMap_congr fun x _ => ?_
  rw [List.map_map]
  rfl

theorem map_renumber_rowPoints (label : PathLabel) (n : Nat) (segments : List (Segment α)) :
    (s.rowPoints label 0 segments).map (PathPoint.renumber n) = s.rowPoints label n segments := by
  rw [rowPoints, rowPoints, List.map_flatMap, List.zipIdx_eq_map_add (i := n), List.flatMap_map]
  refine List.flatMap_congr fun x _ => ?_
  rw [List.map_map]
  rfl

/-- The phases of a contour, each sampled by itself, in one list with the segments numbered through. -/
def samplePhases (c : Contour α) (leadIn approach cutting : PathLabel) :
    Except (SamplingError α) (List (PathPoint α)) := do
  let xs ← s.sample c.leadInSegments leadIn
  let ys ← s.sample c.approachPath approach
  let zs ← s.sample c.cuttingPath cutting
  return xs ++ ys.map (PathPoint.renumber c.leadInSegments.length) ++
    zs.map (PathPoint.renumber (c.leadInSegments.length + c.approachPath.length))

/-- Up to the labels, it makes no difference whether phases are sampled one by one or at once. -/
theorem map_relabel_samplePhases {c : Contour α} (hc : c.IsPhased)
    (leadIn approach cutting label : PathLabel) :
    (s.samplePhases c leadIn approach cutting).map (List.map (PathPoint.relabel label)) =
      s.sample c.allSegments label := by
  rw [samplePhases, sample_eq, sample_eq, sample_eq, sample_eq, hc, check_append, check_append]
  cases s.check c.leadInSegments with
  | error e => rfl
  | ok u =>
    cases s.check c.approachPath with
    | error e => rfl
    | ok u =>
      cases s.check c.cuttingPath with
      | error e => rfl
      | ok u =>
        refine congrArg Except.ok ?_
        rw [List.map_append, List.map_append, map_renumber_rowPoints, map_renumber_rowPoints,
          map_relabel_rowPoints, map_relabel_rowPoints, map_relabel_rowPoints, rowPoints_append,
          rowPoints_append, Nat.zero_add, Nat.zero_add, List.length_append]

end Sampler

end SheetCut
