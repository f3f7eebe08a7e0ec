import SheetCut.Proofs.Playback.Rows

/-!
# The enumeration of playback points

Sampling a program gives exactly its playback, unless a segment needs too many steps; then it gives
the error of the first such segment. The points of a playback are in strictly increasing order, first
by part and contour, then with the pierce in front, then by segment and step.
-/

namespace SheetCut

variable {α : Type} [Scalar α]

omit [Scalar α] in
/-- The place in the order of the playback: part, contour, the pierce before all else, segment,
step. -/
def PathPoint.key (x : PathPoint α) : List Nat :=
  [x.partIndex, x.contourIndex, if x.pathType = .piercing then 0 else 1, x.segmentIndex, x.stepIndex]

omit [Scalar α] in
/-- Numbered rows, one after the other, where the keys of a row go on with its number: they are in
order if each row is. -/
theorem pairwise_key_flatMap_zipIdx {β : Type} (before : List Nat) {l : List β}
    {rows : β × Nat → List (PathPoint α)}
    (hkey : ∀ x, ∀ u ∈ rows x, ∃ t, u.key = before ++ x.2 :: t)
    (hrow : ∀ x, (rows x).Pairwise fun u v => u.key < v.key) :
    (l.zipIdx.flatMap rows).Pairwise fun u v => u.key < v.key := by
  have hnumbers : l.zipIdx.Pairwise fun x y => x.2 < y.2 := by
    rw [← List.pairwise_map (f := Prod.snd) (R := (· < ·)), List.zipIdx_map_snd]
    exact List.pairwise_lt_range'
  rw [List.pairwise_flatMap]
  refine ⟨fun x _ => hrow x, hnumbers.imp fun {x y} hxy u hu v hv => ?_⟩
  obtain ⟨t, ht⟩ := hkey x u hu
  obtain ⟨r, hr⟩ := hkey y v hv
  rw [ht, hr]
  exact List.append_left_lt (List.cons_lt_cons_iff.2 (Or.inl hxy))

namespace Part

variable (part : Part α) (a b : Nat) (c : Contour α)

theorem key_piercePoint : (part.piercePoint a b c).key = [a, b, 0, 0, 0] := rfl

theorem key_stepPoint (segment : Segment α) (k n i : Nat) :
    (part.stepPoint a b c segment k n i).key = [a, b, 1, k, i] := by
  have h : c.phaseAt k ≠ .piercing := by
    rw [Contour.phaseAt]
    split
    · decide
    · split <;> decide
  rw [PathPoint.key, stepPoint, if_neg h]

theorem exists_key_of_mem_contourPlayback {steps : Segment α → Nat} {x : PathPoint α}
    (hx : x ∈ part.contourPlayback steps a b c) : ∃ t, x.key = a :: b :: t := by
  rw [contourPlayback, List.mem_append, List.mem_flatMap] at hx
  rcases hx with hx | ⟨y, -, hx⟩
  · split at hx
    · cases List.mem_singleton.1 hx
      exact ⟨_, part.key_piercePoint a b c⟩
    · cases hx
  · obtain ⟨i, -, rfl⟩ := List.mem_map.1 hx
    exact ⟨_, part.key_stepPoint a b c y.1 y.2 _ i⟩

theorem pairwise_contourPlayback (steps : Segment α → Nat) :
    (part.contourPlayback steps a b c).Pairwise fun x y => x.key < y.key := by
  rw [contourPlayback, List.pairwise_append]
  refine ⟨?_, ?_, ?_⟩
  · split
    · exact List.pairwise_singleton _ _
    · exact List.Pairwise.nil
  · refine pairwise_key_flatMap_zipIdx [a, b, 1] (fun x u hu => ?_) fun x => ?_
    · obtain ⟨i, -, rfl⟩ := List.mem_map.1 hu
      exact ⟨[i], part.key_stepPoint a b c x.1 x.2 _ i⟩
    · refine List.pairwise_map.2 (List.pairwise_lt_range.imp fun {i j} hij => ?_)
      rw [key_stepPoint, key_stepPoint]
      simp [List.cons_lt_cons_iff, hij]
  · intro u hu v hv
    split at hu
    · cases List.mem_singleton.1 hu
      obtain ⟨y, -, hv⟩ := List.mem_flatMap.1 hv
      obtain ⟨j, -, rfl⟩ := List.mem_map.1 hv
      rw [key_piercePoint, key_stepPoint]
      simp [List.cons_lt_cons_iff]
    · cases hu

end Part

theorem Program.pairwise_playback (steps : Segment α → Nat) (p : Program α) :
    (p.playback steps).Pairwise fun x y => x.key < y.key := by
  refine pairwise_key_flatMap_zipIdx [] (fun x u hu => ?_) fun x => ?_
  · obtain ⟨y, -, hu⟩ := List.mem_flatMap.1 hu
    obtain ⟨t, ht⟩ := x.1.exists_key_of_mem_contourPlayback x.2 y.2 y.1 hu
    exact ⟨_, ht⟩
  · refine pairwise_key_flatMap_zipIdx [x.2] (fun y u hu => ?_) fun y => ?_
    · exact x.1.exists_key_of_mem_contourPlayback x.2 y.2 y.1 hu
    · exact x.1.pairwise_contourPlayback x.2 y.2 y.1 steps

/-- Sampling a program fails exactly if a segment cannot be sampled, with the error of the first such
segment. Otherwise it gives the playback of the program, whose points are in strictly increasing
order. Up to the labels, the phases of a contour sampled one by one give the points of all its
segments sampled at once. -/
theorem sampleProgram_enumerates {text : String} {keep : Bool} {p : Program α}
    (h : Program.ofText? text keep = .ok p) (s : Sampler α) :
    (∀ e, s.sampleProgram p = .error e ↔ ∃ pre t post, p.segments = pre ++ t :: post ∧
      (∀ u ∈ pre, ∃ n, s.stepsFor u = .ok n) ∧ s.stepsFor t = .error e) ∧
    ((∀ t ∈ p.segments, ∃ n, s.stepsFor t = .ok n) →
      (∀ t ∈ p.segments, s.stepsFor t = .ok (s.steps t)) ∧
        s.sampleProgram p = .ok (p.playback s.steps) ∧
        (p.playback s.steps).Pairwise fun x y => x.key < y.key) ∧
    ∀ part ∈ p.parts, ∀ c ∈ part.contours, ∀ leadIn approach cutting label,
      (s.samplePhases c leadIn approach cutting).map (List.map (PathPoint.relabel label)) =
        s.sample c.allSegments label := by
  have hphased : ∀ part ∈ p.parts, ∀ c ∈ part.contours, c.IsPhased := fun part hpart c hc =>
    Program.isPhased_of_ofCommands? h hpart hc
  have hrun := s.sampleProgram_eq hphased
  refine ⟨fun e => ?_, fun hok => ⟨fun t ht => ?_, ?_, p.pairwise_playback s.steps⟩, ?_⟩
  · rw [hrun, ← s.check_eq_error_iff]
    cases s.check p.segments with
    | error e' => simp [Except.map]
    | ok u => simp [Except.map]
  · obtain ⟨n, hn⟩ := hok t ht
    rw [Sampler.steps, hn]
    rfl
  · rw [hrun, s.check_eq_ok hok]
    rfl
  · intro part hpart c hc leadIn approach cutting label
    exact s.map_relabel_samplePhases (hphased part hpart c hc) leadIn approach cutting label

def leadInSheet : String :=
  "HKLDB(1,DB,1)\nHKINI(1,9,9)\nN1 HKOST(5,0,0,100,1)\nHKEND\nN100 HKSTR(1,1,0,0,0,2,2)\n" ++
  "HKLEA(1,1,0,0,0)\nG1 X2 Y0\nHKCUT\nG1 X2 Y2\nHKSTO(0,2,2,0,0,0)\nHKPED"

def unitSampler : Sampler Float := ⟨1, by decide, by decide⟩

/-- The pierce, two points on the lead-in and on the approach, and three on the cut. -/
theorem sampleProgram_enumerates_leadInSheet :
    ∃ p : Program Float, Program.ofText? leadInSheet false = .ok p ∧
      (∀ t ∈ p.segments, ∃ n, unitSampler.stepsFor t = .ok n) ∧
      unitSampler.sampleProgram p = .ok (p.playback unitSampler.steps) ∧
      (p.playback unitSampler.steps).map PathPoint.key =
        [[0, 0, 0, 0, 0], [0, 0, 1, 0, 0], [0, 0, 1, 0, 1], [0, 0, 1, 1, 0], [0, 0, 1, 1, 1],
          [0, 0, 1, 2, 0], [0, 0, 1, 2, 1], [0, 0, 1, 2, 2]] := by
  have hrun : (Program.ofText? (α := Float) leadInSheet false).toOption.map (fun p =>
      (p.segments.all fun t => (unitSampler.stepsFor t).toOption.isSome,
        (p.playback unitSampler.steps).map PathPoint.key)) =
      some (true, [[0, 0, 0, 0, 0], [0, 0, 1, 0, 0], [0, 0, 1, 0, 1], [0, 0, 1, 1, 0],
        [0, 0, 1, 1, 1], [0, 0, 1, 2, 0], [0, 0, 1, 2, 1], [0, 0, 1, 2, 2]]) := by
    decide +kernel
  obtain ⟨p, hp, hrun⟩ := exists_eq_ok_of_toOption_map hrun
  obtain ⟨hall, hkeys⟩ := Prod.mk.inj hrun
  have hok : ∀ t ∈ p.segments, ∃ n, unitSampler.stepsFor t = .ok n := by
    intro t ht
    have hsome := List.all_eq_true.1 hall t ht
    cases hn : unitSampler.stepsFor t with
    | error e => rw [hn] at hsome; cases hsome
    | ok n => exact ⟨n, rfl⟩
  exact ⟨p, hp, hok, ((sampleProgram_enumerates hp unitSampler).2.1 hok).2.1, hkeys⟩

end SheetCut
