import SheetCut.Proofs.Binary64.Rounding
import SheetCut.Proofs.Playback.Ends

/-!
# Sampling is bounded

No segment gives more than a fixed number of points, whatever its fields are: the infinite ones and
those that are no number included. A segment that would is reported, and the list of points is as it
was before it.
-/

namespace SheetCut

namespace Sampler

section Append

variable {α : Type} [Scalar α] (s : Sampler α)

omit [Scalar α] in
theorem run_modify_forM (f : Nat → PathPoint α) (ks : List Nat) (out : List (PathPoint α)) :
    ((ks.forM fun k => modify (· ++ [f k])) : Appending α Unit).run.run out =
      (.ok (), out ++ ks.map f) := by
  induction ks generalizing out with
  | nil => exact congrArg _ (List.append_nil out).symm
  | cons k ks ih =>
    rw [List.map_cons, List.append_cons]
    exact ih (out ++ [f k])

omit [Scalar α] in
theorem run_bind {β γ : Type} (x : Appending α β) (f : β → Appending α γ)
    (out : List (PathPoint α)) :
    (x >>= f).run.run out =
      match x.run.run out with
      | (.error e, out') => (.error e, out')
      | (.ok b, out') => (f b).run.run out' := by
  show (match x.run.run out with | (r, out') => (ExceptT.bindCont f r).run out') = _
  rcases x.run.run out with ⟨_ | _, out'⟩ <;> rfl

/-- A segment that cannot be sampled appends nothing. -/
theorem run_appendSegment (segment : Segment α) (k : Nat) (label : PathLabel)
    (out : List (PathPoint α)) :
    (s.appendSegment segment k label).run.run out =
      match s.sampleSegment segment k label with
      | .error e => (.error e, out)
      | .ok points => (.ok (), out ++ points) := by
  rw [appendSegment, sampleSegment]
  cases s.stepsFor segment with
  | error e => rfl
  | ok n => exact run_modify_forM _ _ _

/-- Appending one segment after another. -/
theorem run_appendSegments (label : PathLabel) (first : Nat) (segments : List (Segment α))
    (out : List (PathPoint α)) :
    match s.sampleLabelled first (segments.map fun segment => (label, segment)) with
    | .error e => ((s.appendSegments label first segments).run.run out).1 = .error e
    | .ok points =>
      (s.appendSegments label first segments).run.run out = (.ok (), out ++ points) := by
  induction segments generalizing first out with
  | nil => exact congrArg _ (List.append_nil out).symm
  | cons segment segments ih =>
    rw [appendSegments, run_bind, s.run_appendSegment, List.map_cons, sampleLabelled]
    cases s.sampleSegment segment first label with
    | error e => rfl
    | ok points =>
      have hrest := ih (first + 1) (out ++ points)
      cases hsample : s.sampleLabelled (first + 1)
          (segments.map fun segment => (label, segment)) with
      | error e =>
        rw [hsample] at hrest
        exact hrest
      | ok others =>
        rw [hsample] at hrest
        exact Eq.trans hrest
          (congrArg (Prod.mk (Except.ok ())) (List.append_assoc out points others))

/-- Sampling is appending to an empty list. -/
theorem sample_eq_run_appendSegments (segments : List (Segment α)) (label : PathLabel) :
    match s.sample segments label with
    | .error e => ((s.appendSegments label 0 segments).run.run []).1 = .error e
    | .ok points => (s.appendSegments label 0 segments).run.run [] = (.ok (), points) :=
  s.run_appendSegments label 0 segments []

end Append

/-- The segment has a finite positive length, and the quotient of that and the step is infinite or
rounds up to more than the limit. -/
def TooFine (s : Sampler Float) (segment : Segment Float) : Prop :=
  Scalar.isFinite segment.length = true ∧ 0 < segment.length ∧
    (segment.length / s.step = Scalar.infinity ∨
      ∃ n, Scalar.ceil? (segment.length / s.step) = some n ∧ maxSteps < n)

section TooFine

variable {s : Sampler Float} {segment : Segment Float} {e : SamplingError Float}

theorem forall_of_check_eq_ok {α : Type} [Scalar α] (s : Sampler α) {segments : List (Segment α)}
    {u : Unit} (h : s.check segments = .ok u) : ∀ t ∈ segments, ∃ n, s.stepsFor t = .ok n := by
  induction segments with
  | nil => exact List.forall_mem_nil _
  | cons segment segments ih =>
    rw [check] at h
    cases hs : s.stepsFor segment with
    | error e => rw [hs] at h; cases h
    | ok n =>
      rw [hs] at h
      exact List.forall_mem_cons.2 ⟨⟨n, hs⟩, ih h⟩

theorem stepsFor_eq_error_iff :
    s.stepsFor segment = .error e ↔
      s.TooFine segment ∧ e = .tooManySteps segment.length s.step := by
  have hinfinite : Scalar.ceil? (Scalar.infinity : Float) = none := rfl
  rw [stepsFor, TooFine]
  by_cases hfinite : Scalar.isFinite segment.length = true
  · have hpos : segment.length ≤ 0 ↔ ¬0 < segment.length :=
      (Binary64.not_lt_iff_le (Binary64.isNumber_of_isFinite rfl)
        (Binary64.isNumber_of_isFinite hfinite)).symm
    by_cases hlength : 0 < segment.length
    · rcases Binary64.div_eq_infinity_or_exists_ceil? hfinite hlength s.isFinite_step
        s.zero_lt_step with hquotient | ⟨n, hquotient⟩
      · have hquotient : segment.length / s.step = Scalar.infinity := hquotient
        simp [hfinite, hpos, hlength, hquotient, hinfinite, eq_comm]
      · have hquotient : Scalar.ceil? (segment.length / s.step) = some n := hquotient
        have hne : segment.length / s.step ≠ Scalar.infinity := by
          intro h
          rw [h, hinfinite] at hquotient
          cases hquotient
        by_cases hn : n ≤ maxSteps
        · simp [hfinite, hpos, hlength, hquotient, hne, hn]
        · simp [hfinite, hpos, hlength, hquotient, hne, hn, not_le.1 hn, eq_comm]
    · simp [hfinite, hpos, hlength]
  · simp [hfinite]

theorem exists_stepsFor_iff : (∃ n, s.stepsFor segment = .ok n) ↔ ¬s.TooFine segment := by
  cases h : s.stepsFor segment with
  | error e => simp [(stepsFor_eq_error_iff.1 h).1]
  | ok n =>
    refine iff_of_true ⟨n, rfl⟩ fun hfine => ?_
    rw [stepsFor_eq_error_iff.2 ⟨hfine, rfl⟩] at h
    cases h

/-- The first segment that is too long for the step decides the error. -/
theorem sample_eq_error_iff {segments : List (Segment Float)} {label : PathLabel} :
    s.sample segments label = .error e ↔ ∃ before segment after,
      segments = before ++ segment :: after ∧ (∀ other ∈ before, ¬s.TooFine other) ∧
        s.TooFine segment ∧ e = .tooManySteps segment.length s.step := by
  have hcheck : s.sample segments label = .error e ↔ s.check segments = .error e := by
    rw [sample_eq]
    cases s.check segments with
    | error e' => simp [Except.map]
    | ok u => simp [Except.map]
  simp only [hcheck, check_eq_error_iff, exists_stepsFor_iff, stepsFor_eq_error_iff]

theorem exists_sample_eq_error_iff {segments : List (Segment Float)} {label : PathLabel} :
    (∃ e, s.sample segments label = .error e) ↔ ∃ segment ∈ segments, s.TooFine segment := by
  constructor
  rotate_left
  · intro hfine
    rw [sample_eq]
    cases h : s.check segments with
    | error e => exact ⟨e, rfl⟩
    | ok u =>
      obtain ⟨segment, hmem, hfine⟩ := hfine
      exact absurd hfine (exists_stepsFor_iff.1 (s.forall_of_check_eq_ok h segment hmem))
  · rintro ⟨e, he⟩
    obtain ⟨before, segment, after, rfl, -, hfine, -⟩ := sample_eq_error_iff.1 he
    exact ⟨segment, List.mem_append_right _ List.mem_cons_self, hfine⟩

end TooFine

section Rows

variable {α : Type} [Scalar α] (s : Sampler α) (label : PathLabel)

theorem steps_le (segment : Segment α) : s.steps segment ≤ maxSteps := by
  rw [steps]
  cases h : s.stepsFor segment with
  | error e => exact Nat.zero_le _
  | ok n => exact stepsFor_le h

theorem length_rowPoints (first : Nat) (segments : List (Segment α)) :
    (s.rowPoints label first segments).length =
      (segments.map fun segment => s.steps segment + 1).sum := by
  induction segments generalizing first with
  | nil => rfl
  | cons segment segments ih =>
    rw [List.map_cons, List.sum_cons, ← ih (first + 1), rowPoints, List.zipIdx_cons,
      List.flatMap_cons, List.length_append, List.length_map, List.length_range]
    rfl

theorem le_length_rowPoints (first : Nat) (segments : List (Segment α)) :
    segments.length ≤ (s.rowPoints label first segments).length := by
  rw [length_rowPoints]
  simp

theorem length_rowPoints_le (first : Nat) (segments : List (Segment α)) :
    (s.rowPoints label first segments).length ≤ segments.length * (maxSteps + 1) := by
  have hmax := List.sum_le_card_nsmul (segments.map fun segment => s.steps segment + 1)
    (maxSteps + 1) (by simp [s.steps_le])
  simpa [length_rowPoints] using hmax

variable {label}

theorem segmentIndex_of_mem_rowPoints {first : Nat} {segments : List (Segment α)} {x : PathPoint α}
    (hx : x ∈ s.rowPoints label first segments) :
    first ≤ x.segmentIndex ∧ x.segmentIndex < first + segments.length := by
  obtain ⟨⟨segment, k⟩, hsegment, hx⟩ := List.mem_flatMap.1 hx
  obtain ⟨i, -, rfl⟩ := List.mem_map.1 hx
  exact ⟨List.le_snd_of_mem_zipIdx hsegment, List.snd_lt_add_of_mem_zipIdx hsegment⟩

theorem exists_progress_of_mem_rowPoints {first : Nat} {segments : List (Segment α)}
    {x : PathPoint α} (hx : x ∈ s.rowPoints label first segments) :
    ∃ n k, k ≤ n ∧ n ≤ maxSteps ∧ x.progress = progress n k := by
  obtain ⟨⟨segment, _⟩, -, hx⟩ := List.mem_flatMap.1 hx
  obtain ⟨i, hi, rfl⟩ := List.mem_map.1 hx
  exact ⟨s.steps segment, i, Nat.le_of_lt_succ (List.mem_range.1 hi), s.steps_le segment, rfl⟩

variable (label)

/-- The points with the number of a segment are those of that segment. -/
theorem filter_rowPoints (before : List (Segment α)) (segment : Segment α)
    (after : List (Segment α)) :
    (s.rowPoints label 0 (before ++ segment :: after)).filter (·.segmentIndex == before.length) =
      (List.range (s.steps segment + 1)).map
        (pointOf segment before.length label (s.steps segment)) := by
  have hbefore : (s.rowPoints label 0 before).filter (·.segmentIndex == before.length) = [] := by
    refine List.filter_eq_nil_iff.2 fun x hx => ?_
    have := (s.segmentIndex_of_mem_rowPoints hx).2
    simp only [beq_iff_eq]
    omega
  have hafter : (s.rowPoints label (before.length + 1) after).filter
      (·.segmentIndex == before.length) = [] := by
    refine List.filter_eq_nil_iff.2 fun x hx => ?_
    have := (s.segmentIndex_of_mem_rowPoints hx).1
    simp only [beq_iff_eq]
    omega
  have hsegment : s.rowPoints label before.length (segment :: after) =
      (List.range (s.steps segment + 1)).map
          (pointOf segment before.length label (s.steps segment)) ++
        s.rowPoints label (before.length + 1) after := rfl
  rw [rowPoints_append, Nat.zero_add, hsegment, List.filter_append, List.filter_append, hbefore,
    hafter, List.nil_append, List.append_nil]
  refine List.filter_eq_self.2 fun x hx => ?_
  obtain ⟨i, -, rfl⟩ := List.mem_map.1 hx
  exact beq_self_eq_true _

/-- The points of a segment go through its steps in order. -/
theorem map_stepIndex_filter_rowPoints {segments : List (Segment α)} {k : Nat}
    (hk : k < segments.length) :
    ((s.rowPoints label 0 segments).filter (·.segmentIndex == k)).map PathPoint.stepIndex =
      List.range (s.steps segments[k] + 1) := by
  have hsplit : segments.take k ++ segments[k] :: segments.drop (k + 1) = segments := by
    rw [List.getElem_cons_drop, List.take_append_drop]
  have hfilter := s.filter_rowPoints label (segments.take k) segments[k] (segments.drop (k + 1))
  rw [hsplit, List.length_take_of_le hk.le] at hfilter
  rw [hfilter, List.map_map]
  exact List.map_id _

end Rows

theorem progress_mem_unit {n k : ℕ} (hk : k ≤ n) (hn : n ≤ maxSteps) :
    0 ≤ (progress n k : Float) ∧ (progress n k : Float) ≤ 1 := by
  rw [progress]
  split
  · next hpos => exact Binary64.natCast_div_mem_unit hk hpos (hn.trans_lt (by decide))
  · exact ⟨by decide, by decide⟩

/-- Every list of segments gives a bounded number of points, which go through the steps of every
segment, or fails because of the first segment that is too long for the step. Appending the points
of a segment leaves a list as it was where it fails. -/
theorem sample_bounded (s : Sampler Float) (segments : List (Segment Float)) (label : PathLabel) :
    (∀ e, s.sample segments label = .error e ↔ ∃ before segment after,
      segments = before ++ segment :: after ∧ (∀ other ∈ before, ¬s.TooFine other) ∧
        s.TooFine segment ∧ e = .tooManySteps segment.length s.step) ∧
    ((∃ e, s.sample segments label = .error e) ↔ ∃ segment ∈ segments, s.TooFine segment) ∧
    (∀ points, s.sample segments label = .ok points →
      segments.length ≤ points.length ∧ points.length ≤ segments.length * (maxSteps + 1) ∧
      (∀ x ∈ points, x.segmentIndex < segments.length ∧ 0 ≤ x.progress ∧ x.progress ≤ 1) ∧
      ∀ k < segments.length, ∃ m ≤ maxSteps,
        (points.filter (·.segmentIndex == k)).map PathPoint.stepIndex = List.range (m + 1)) ∧
    ∀ segment k out,
      (∀ e, s.sampleSegment segment k label = .error e →
        (s.appendSegment segment k label).run.run out = (.error e, out)) ∧
      ∀ points, s.sampleSegment segment k label = .ok points →
        (s.appendSegment segment k label).run.run out = (.ok (), out ++ points) := by
  refine ⟨fun e => sample_eq_error_iff, exists_sample_eq_error_iff, ?_, fun segment k out => ?_⟩
  · intro points h
    have hpoints : points = s.rowPoints label 0 segments := by
      rw [sample_eq] at h
      cases hcheck : s.check segments with
      | error e => rw [hcheck] at h; cases h
      | ok u => rw [hcheck] at h; cases h; rfl
    subst hpoints
    refine ⟨s.le_length_rowPoints label 0 segments, s.length_rowPoints_le label 0 segments, ?_, ?_⟩
    · intro x hx
      obtain ⟨n, i, hi, hn, hprogress⟩ := s.exists_progress_of_mem_rowPoints hx
      rw [hprogress]
      exact ⟨Nat.zero_add segments.length ▸ (s.segmentIndex_of_mem_rowPoints hx).2,
        progress_mem_unit hi hn⟩
    · intro k hk
      exact ⟨_, s.steps_le segments[k], s.map_stepIndex_filter_rowPoints label hk⟩
  · have hrun := s.run_appendSegment segment k label out
    exact ⟨fun e h => by rw [hrun, h], fun points h => by rw [hrun, h]⟩

def nowhereLine : Segment Float := .line ⟨0 / 0, 0⟩ ⟨1, 0⟩

/-- A length that is no number gives the start alone, whatever it is. -/
theorem sample_bounded_nowhereLine :
    ∃ s : Sampler Float, s.step = 1 ∧
      s.sample [nowhereLine] (.ofType 0 0 .cutting) =
        .ok [pointOf nowhereLine 0 (.ofType 0 0 .cutting) 0 0] ∧
      ∃ m ≤ maxSteps, ([pointOf nowhereLine 0 (.ofType 0 0 .cutting) 0 0].filter
        (·.segmentIndex == 0)).map PathPoint.stepIndex = List.range (m + 1) := by
  let s : Sampler Float := ⟨1, rfl, by decide⟩
  have hsample : s.sample [nowhereLine] (.ofType 0 0 .cutting) =
      .ok [pointOf nowhereLine 0 (.ofType 0 0 .cutting) 0 0] := rfl
  exact ⟨s, rfl, hsample, ((sample_bounded s [nowhereLine] (.ofType 0 0 .cutting)).2.2.1 _
    hsample).2.2.2 0 (by decide)⟩

end Sampler

end SheetCut
