import SheetCut.Proofs.Geometry.Circle
import SheetCut.Proofs.Playback.Enumeration

/-!
# Statistics and playback

The statistics of a program are computed from its tree, phase by phase, without sampling anything.
They agree with a count of the points of the playback, and the lengths with sums over the segments
that are played back.
-/

namespace SheetCut

/-- The place of a segment: part, contour, segment. -/
abbrev SegmentPlace := ℕ × ℕ × ℕ

structure PlacedSegment (α : Type) where
  place : SegmentPlace
  segment : Segment α
  phase : PathType

section Rows

variable {β γ δ : Type}

/-- Rows that do not depend on their number. -/
theorem flatMap_zipIdx {rows : β × ℕ → List γ} {g : β → List γ} {l : List β}
    (h : ∀ x n, x ∈ l → rows (x, n) = g x) : l.zipIdx.flatMap rows = l.flatMap g := by
  calc l.zipIdx.flatMap rows = l.zipIdx.flatMap fun x => g x.1 :=
        List.flatMap_congr fun x hx => h x.1 x.2 (List.fst_mem_of_mem_zipIdx hx)
    _ = (l.zipIdx.map Prod.fst).flatMap g := by rw [List.flatMap_map]
    _ = l.flatMap g := by rw [List.zipIdx_map_fst]

theorem countP_flatMap_zipIdx {rows : β × ℕ → List γ} {g : β → List δ} {q : γ → Bool}
    {f : δ → Bool} (h : ∀ x n, (rows (x, n)).countP q = (g x).countP f) (l : List β) :
    (l.zipIdx.flatMap rows).countP q = (l.flatMap g).countP f := by
  have hrow : List.countP q ∘ rows = (List.countP f ∘ g) ∘ Prod.fst := funext fun x => h x.1 x.2
  rw [List.countP_flatMap, List.countP_flatMap, hrow, ← List.map_map, List.zipIdx_map_fst]

end Rows

variable {α : Type}

namespace PathPoint

def place (x : PathPoint α) : SegmentPlace := (x.partIndex, x.contourIndex, x.segmentIndex)

def isPierce (x : PathPoint α) : Bool := x.pathType = .piercing

def isSegmentStart (x : PathPoint α) : Bool := !x.isPierce && x.stepIndex == 0

theorem key_of_isSegmentStart {x : PathPoint α} (h : x.isSegmentStart = true) :
    x.key = [x.place.1, x.place.2.1, 1, x.place.2.2, 0] := by
  simp only [isSegmentStart, isPierce, Bool.and_eq_true, Bool.not_eq_true', decide_eq_false_iff_not,
    beq_iff_eq] at h
  rw [key, if_neg h.1, h.2]
  rfl

end PathPoint

/-- The places of the segments that the points belong to. A pierce belongs to none. -/
def sampledPlaces (xs : List (PathPoint α)) : Finset SegmentPlace :=
  ((xs.filter fun x => !x.isPierce).map PathPoint.place).toFinset

namespace Contour

def placedSegments (a b : ℕ) (c : Contour α) : List (PlacedSegment α) :=
  c.allSegments.zipIdx.map fun x => ⟨(a, b, x.2), x.1, c.phaseAt x.2⟩

theorem map_segment_placedSegments (a b : ℕ) (c : Contour α) :
    (c.placedSegments a b).map PlacedSegment.segment = c.allSegments := by
  rw [placedSegments, List.map_map]
  exact List.zipIdx_map_fst 0 c.allSegments

/-- The laser fires on the lead-in and on the cut. -/
theorem map_segment_filter_laserOn (a b : ℕ) {c : Contour α} (hc : c.IsPhased) :
    ((c.placedSegments a b).filter fun q => q.phase.laserOn).map PlacedSegment.segment =
      c.leadInSegments ++ c.cuttingPath := by
  have hphases : (c.placedSegments a b).map (fun q => (q.phase, q.segment)) =
      c.leadInSegments.map (Prod.mk .leadIn) ++ c.approachPath.map (Prod.mk .approach) ++
        c.cuttingPath.map (Prod.mk .cutting) := by
    have h := congrArg (List.map fun x : PathLabel × Segment α => (x.1.pathType, x.2))
      (Sampler.phases_eq hc a b)
    simpa [Sampler.phases, placedSegments, Function.comp_def, PathLabel.ofType] using h.symm
  calc ((c.placedSegments a b).filter fun q => q.phase.laserOn).map PlacedSegment.segment
      = (((c.placedSegments a b).map fun q => (q.phase, q.segment)).filter
          fun x => x.1.laserOn).map Prod.snd := by
        rw [List.filter_map, List.map_map]
        rfl
    _ = c.leadInSegments ++ c.cuttingPath := by
        rw [hphases]
        simp [List.filter_map, Function.comp_def, PathType.laserOn]

end Contour

namespace Program

def placedSegments (p : Program α) : List (PlacedSegment α) :=
  p.parts.zipIdx.flatMap fun x => x.1.contours.zipIdx.flatMap fun y => y.1.placedSegments x.2 y.2

def segmentAt? (p : Program α) (q : SegmentPlace) : Option (Segment α) := do
  let part ← p.parts[q.1]?
  let c ← part.contours[q.2.1]?
  c.allSegments[q.2.2]?

theorem map_segment_placedSegments (p : Program α) :
    p.placedSegments.map PlacedSegment.segment = p.segments := by
  rw [placedSegments, List.map_flatMap, segments, contours, List.flatMap_assoc]
  refine flatMap_zipIdx fun part a _ => ?_
  rw [List.map_flatMap]
  exact flatMap_zipIdx fun c b _ => c.map_segment_placedSegments a b

theorem map_segment_filter_laserOn {p : Program α}
    (h : ∀ part ∈ p.parts, ∀ c ∈ part.contours, c.IsPhased) :
    (p.placedSegments.filter fun q => q.phase.laserOn).map PlacedSegment.segment =
      p.contours.flatMap fun c => c.leadInSegments ++ c.cuttingPath := by
  rw [placedSegments, List.filter_flatMap, List.map_flatMap, contours, List.flatMap_assoc]
  refine flatMap_zipIdx fun part a hpart => ?_
  rw [List.filter_flatMap, List.map_flatMap]
  exact flatMap_zipIdx fun c b hc => Contour.map_segment_filter_laserOn a b (h part hpart c hc)

theorem segmentAt?_of_mem {p : Program α} {q : PlacedSegment α} (hq : q ∈ p.placedSegments) :
    p.segmentAt? q.place = some q.segment := by
  obtain ⟨⟨part, a⟩, hpart, hq⟩ := List.mem_flatMap.1 hq
  obtain ⟨⟨c, b⟩, hc, hq⟩ := List.mem_flatMap.1 hq
  obtain ⟨⟨segment, k⟩, hsegment, rfl⟩ := List.mem_map.1 hq
  rw [List.mem_zipIdx_iff_getElem?] at hpart hc hsegment
  show (p.parts[a]?.bind fun part => part.contours[b]?.bind fun c => c.allSegments[k]?) = _
  rw [hpart, Option.bind_some, hc, Option.bind_some, hsegment]

end Program

section Playback

variable [Scalar α] {steps : Segment α → ℕ}

namespace Part

variable (part : Part α) (a b : ℕ) (c : Contour α)

theorem isPierce_stepPoint (segment : Segment α) (k n i : ℕ) :
    (part.stepPoint a b c segment k n i).isPierce = false := by
  simp only [PathPoint.isPierce, stepPoint, Contour.phaseAt]
  split_ifs <;> rfl

theorem countP_isPierce_contourPlayback :
    (part.contourPlayback steps a b c).countP PathPoint.isPierce =
      [c].countP fun c => c.piercingType.pierces := by
  rw [contourPlayback, List.countP_append, List.countP_singleton]
  refine (congrArg (_ + ·) (List.countP_eq_zero.2 fun x hx => ?_)).trans ?_
  · obtain ⟨y, -, hx⟩ := List.mem_flatMap.1 hx
    obtain ⟨i, -, rfl⟩ := List.mem_map.1 hx
    simp [isPierce_stepPoint]
  · split <;> rfl

theorem isSegmentStart_stepPoint (segment : Segment α) (k n i : ℕ) :
    (part.stepPoint a b c segment k n i).isSegmentStart = (i == 0) := by
  rw [PathPoint.isSegmentStart, isPierce_stepPoint]
  rfl

/-- Every segment has one first point. -/
theorem map_place_filter_isSegmentStart :
    ((part.contourPlayback steps a b c).filter PathPoint.isSegmentStart).map PathPoint.place =
      (c.placedSegments a b).map PlacedSegment.place := by
  have hpierce : (if c.piercingType.pierces then [part.piercePoint a b c] else []).filter
      PathPoint.isSegmentStart = [] := by
    split <;> rfl
  have hrow (segment : Segment α) (k n : ℕ) :
      (((List.range (n + 1)).map (part.stepPoint a b c segment k n)).filter
        PathPoint.isSegmentStart).map PathPoint.place = [(a, b, k)] := by
    have hstarts : PathPoint.isSegmentStart ∘ part.stepPoint a b c segment k n = (· == 0) :=
      funext fun i => part.isSegmentStart_stepPoint a b c segment k n i
    rw [List.filter_map, hstarts, List.range_succ_eq_map, List.filter_cons_of_pos rfl,
      List.filter_eq_nil_iff.2]
    · rfl
    · simp
  rw [contourPlayback, List.filter_append, hpierce, List.nil_append, List.filter_flatMap,
    List.map_flatMap, Contour.placedSegments, List.map_map, List.map_eq_flatMap]
  exact List.flatMap_congr fun x _ => hrow x.1 x.2 (steps x.1)

end Part

namespace Program

variable (steps : Segment α → ℕ) (p : Program α)

theorem countP_isPierce_playback :
    (p.playback steps).countP PathPoint.isPierce =
      p.contours.countP fun c => c.piercingType.pierces := by
  refine countP_flatMap_zipIdx (fun part a => ?_) p.parts
  calc (part.contours.zipIdx.flatMap fun y => part.contourPlayback steps a y.2 y.1).countP
        PathPoint.isPierce
      = (part.contours.flatMap fun c => [c]).countP fun c => c.piercingType.pierces :=
        countP_flatMap_zipIdx (fun c b => part.countP_isPierce_contourPlayback a b c) part.contours
    _ = part.contours.countP fun c => c.piercingType.pierces := by rw [List.flatMap_singleton']

theorem map_place_filter_isSegmentStart :
    ((p.playback steps).filter PathPoint.isSegmentStart).map PathPoint.place =
      p.placedSegments.map PlacedSegment.place := by
  rw [playback, List.filter_flatMap, List.map_flatMap, placedSegments, List.map_flatMap]
  refine List.flatMap_congr fun x _ => ?_
  rw [List.filter_flatMap, List.map_flatMap, List.map_flatMap]
  exact List.flatMap_congr fun y _ => x.1.map_place_filter_isSegmentStart x.2 y.2 y.1

/-- No two segments have the same place. -/
theorem nodup_places : (p.placedSegments.map PlacedSegment.place).Nodup := by
  rw [← p.map_place_filter_isSegmentStart fun _ => 0, List.Nodup, List.pairwise_map]
  refine ((p.pairwise_playback _).filter _).imp_of_mem fun {x y} hx hy hlt heq => ?_
  -- Two first points with one place have one key.
  rw [PathPoint.key_of_isSegmentStart (List.mem_filter.1 hx).2,
    PathPoint.key_of_isSegmentStart (List.mem_filter.1 hy).2, heq] at hlt
  exact lt_irrefl _ hlt

/-- The points besides the pierces are those of the placed segments, in the phase of each. -/
theorem exists_placedSegment_of_mem {x : PathPoint α} (hx : x ∈ p.playback steps)
    (hpierce : x.isPierce = false) :
    ∃ q ∈ p.placedSegments, x.place = q.place ∧ x.laserOn = q.phase.laserOn := by
  obtain ⟨⟨part, a⟩, hpart, hx⟩ := List.mem_flatMap.1 hx
  obtain ⟨⟨c, b⟩, hc, hx⟩ := List.mem_flatMap.1 hx
  change x ∈ part.contourPlayback steps a b c at hx
  rw [Part.contourPlayback, List.mem_append] at hx
  rcases hx with hx | hx
  · split at hx
    · cases List.mem_singleton.1 hx
      cases hpierce
    · cases hx
  · obtain ⟨⟨segment, k⟩, hsegment, hx⟩ := List.mem_flatMap.1 hx
    obtain ⟨i, -, rfl⟩ := List.mem_map.1 hx
    refine ⟨⟨(a, b, k), segment, c.phaseAt k⟩, ?_, rfl, rfl⟩
    refine List.mem_flatMap.2 ⟨_, hpart, List.mem_flatMap.2 ⟨_, hc, ?_⟩⟩
    exact List.mem_map.2 ⟨_, hsegment, rfl⟩

theorem exists_mem_of_placedSegment {q : PlacedSegment α} (hq : q ∈ p.placedSegments) :
    ∃ x ∈ p.playback steps, x.isPierce = false ∧ x.place = q.place ∧
      x.laserOn = q.phase.laserOn := by
  obtain ⟨⟨part, a⟩, hpart, hq⟩ := List.mem_flatMap.1 hq
  obtain ⟨⟨c, b⟩, hc, hq⟩ := List.mem_flatMap.1 hq
  obtain ⟨⟨segment, k⟩, hsegment, rfl⟩ := List.mem_map.1 hq
  refine ⟨part.stepPoint a b c segment k (steps segment) 0, ?_, part.isPierce_stepPoint a b c ..,
    rfl, rfl⟩
  refine List.mem_flatMap.2 ⟨_, hpart, List.mem_flatMap.2 ⟨_, hc, List.mem_append_right _ ?_⟩⟩
  exact List.mem_flatMap.2 ⟨_, hsegment, List.mem_map_of_mem (List.mem_range.2 (Nat.succ_pos _))⟩

/-- The places of the points, all of them or only those where the laser is on. -/
theorem sampledPlaces_filter (on : Bool → Bool) :
    sampledPlaces ((p.playback steps).filter fun x => on x.laserOn) =
      ((p.placedSegments.filter fun q => on q.phase.laserOn).map PlacedSegment.place).toFinset := by
  ext t
  simp only [sampledPlaces, List.mem_toFinset, List.mem_map, List.mem_filter, Bool.not_eq_true']
  constructor
  · rintro ⟨x, ⟨⟨hx, hlaser⟩, hpierce⟩, rfl⟩
    obtain ⟨q, hq, hplace, hphase⟩ := p.exists_placedSegment_of_mem steps hx hpierce
    exact ⟨q, ⟨hq, hphase ▸ hlaser⟩, hplace.symm⟩
  · rintro ⟨q, ⟨hq, hlaser⟩, rfl⟩
    obtain ⟨x, hx, hpierce, hplace, hphase⟩ := p.exists_mem_of_placedSegment steps hq
    exact ⟨x, ⟨⟨hx, hphase ▸ hlaser⟩, hpierce⟩, hplace⟩

theorem sampledPlaces_playback :
    sampledPlaces (p.playback steps) = (p.placedSegments.map PlacedSegment.place).toFinset := by
  have h := p.sampledPlaces_filter steps fun _ => true
  rwa [List.filter_true, List.filter_true] at h

end Program

/-! ### Counts -/

theorem Sampler.sampleProgram_eq_ok {s : Sampler α} {p : Program α} {xs : List (PathPoint α)}
    (h : ∀ part ∈ p.parts, ∀ c ∈ part.contours, c.IsPhased) (hxs : s.sampleProgram p = .ok xs) :
    xs = p.playback s.steps := by
  rw [s.sampleProgram_eq h] at hxs
  cases hcheck : s.check p.segments with
  | error e =>
    rw [hcheck] at hxs
    cases hxs
  | ok u =>
    rw [hcheck] at hxs
    cases hxs
    rfl

namespace Program

omit [Scalar α] in
theorem length_contours (p : Program α) : p.contours.length = p.contourCount := by
  rw [contours, List.length_flatMap, contourCount, List.sum_eq_foldl, List.foldl_map]

theorem card_filter_isArc (p : Program α) :
    (((p.placedSegments.map PlacedSegment.place).toFinset.filter fun t =>
      (p.segmentAt? t).any Segment.isArc = true)).card = p.segments.countP Segment.isArc := by
  rw [← List.toFinset_filter, List.toFinset_card_of_nodup (p.nodup_places.filter _),
    ← List.countP_eq_length_filter, List.countP_map, ← p.map_segment_placedSegments,
    List.countP_map]
  refine List.countP_congr fun q hq => ?_
  simp [segmentAt?_of_mem hq]

structure CountsAgree (p : Program α) (xs : List (PathPoint α)) : Prop where
  contourCount : p.statistics.contourCount = p.contourCount
  pierceCount : p.statistics.pierceCount = xs.countP PathPoint.isPierce
  segmentCount : p.statistics.segmentCount = xs.countP PathPoint.isSegmentStart
  segmentCount_eq_card : p.statistics.segmentCount = (sampledPlaces xs).card
  arcCount : p.statistics.arcCount =
    ((sampledPlaces xs).filter fun t => (p.segmentAt? t).any Segment.isArc = true).card
  partCount_add : p.statistics.partCount + p.statistics.skippedPartCount = p.placements.length

theorem countsAgree {text : String} {keep : Bool} {p : Program α} {s : Sampler α}
    {xs : List (PathPoint α)} (hp : ofText? text keep = .ok p) (hxs : s.sampleProgram p = .ok xs) :
    p.CountsAgree xs := by
  have hphased : ∀ part ∈ p.parts, ∀ c ∈ part.contours, c.IsPhased :=
    fun part hpart c hc => isPhased_of_ofCommands? hp hpart hc
  rw [s.sampleProgram_eq_ok hphased hxs]
  obtain ⟨hplacements, hparts, hskipped⟩ := lists_of_ofCommands? hp
  have hlength : p.segments.length = p.placedSegments.length := by
    rw [← p.map_segment_placedSegments, List.length_map]
  constructor
  · exact p.length_contours
  · exact (p.countP_isPierce_playback s.steps).symm
  · rw [List.countP_eq_length_filter, ← List.length_map, map_place_filter_isSegmentStart,
      List.length_map]
    exact hlength
  · rw [sampledPlaces_playback, List.toFinset_card_of_nodup p.nodup_places, List.length_map]
    exact hlength
  · rw [sampledPlaces_playback, card_filter_isArc]
    rfl
  · show p.parts.length + p.skippedParts.length = _
    rw [hparts, hskipped, hplacements, List.length_map, List.length_map]
    exact (List.length_eq_length_filter_add _).symm

end Program

end Playback

/-! ### Lengths without rounding -/

section Exact

variable [Trigonometry]

theorem pathLength_eq_sum (segments : List (Segment EReal)) :
    pathLength segments = (segments.map Segment.length).sum := by
  have h : pathLength segments =
      segments.foldl (fun total s => total + s.length) (-0 : EReal) := rfl
  rw [h, neg_zero, List.sum_eq_foldl, List.foldl_map]

namespace Program

theorem sum_map_flatMap {β γ : Type} (f : β → List γ) (g : γ → EReal) (l : List β) :
    ((l.flatMap f).map g).sum = (l.map fun x => ((f x).map g).sum).sum := by
  rw [List.map_flatMap, List.flatMap_def, List.sum_flatten, List.map_map]
  rfl

theorem phaseLength_eq_sum (p : Program EReal) (phase : Contour EReal → List (Segment EReal)) :
    p.phaseLength phase = (p.contours.map fun c => ((phase c).map Segment.length).sum).sum := by
  have h : p.phaseLength phase =
    p.contours.foldl (fun total c => total + pathLength (phase c)) (0 : EReal) := rfl
  simp only [h, pathLength_eq_sum]
  rw [List.sum_eq_foldl, List.foldl_map]

theorem laserOnLength_eq_sum (p : Program EReal) :
    p.statistics.laserOnLength =
      ((p.contours.flatMap fun c => c.leadInSegments ++ c.cuttingPath).map Segment.length).sum := by
  have h : p.statistics.laserOnLength =
    (p.phaseLength Contour.leadInSegments + p.phaseLength Contour.cuttingPath : EReal) := rfl
  rw [h, phaseLength_eq_sum, phaseLength_eq_sum, sum_map_flatMap, ← List.sum_map_add]
  simp only [List.map_append, List.sum_append]

theorem totalLength_eq_sum {p : Program EReal}
    (hphased : ∀ part ∈ p.parts, ∀ c ∈ part.contours, c.IsPhased) :
    p.statistics.totalLength = (p.segments.map Segment.length).sum := by
  have h : p.statistics.totalLength =
    (p.statistics.laserOnLength + p.phaseLength Contour.approachPath : EReal) := rfl
  rw [h, laserOnLength_eq_sum, phaseLength_eq_sum, sum_map_flatMap, ← List.sum_map_add, segments,
    sum_map_flatMap]
  refine congrArg List.sum (List.map_congr_left fun c hc => ?_)
  obtain ⟨part, hpart, hc⟩ := List.mem_flatMap.1 hc
  rw [hphased part hpart c hc]
  simp only [List.map_append, List.sum_append]
  rw [add_right_comm]

noncomputable def lengthAt (p : Program EReal) (t : SegmentPlace) : EReal :=
  (p.segmentAt? t).elim 0 Segment.length

theorem sum_lengthAt {p : Program EReal} {l : List (PlacedSegment EReal)}
    (h : l.Sublist p.placedSegments) :
    ∑ t ∈ (l.map PlacedSegment.place).toFinset, p.lengthAt t =
      ((l.map PlacedSegment.segment).map Segment.length).sum := by
  rw [List.sum_toFinset _ (p.nodup_places.sublist (h.map _)), List.map_map, List.map_map]
  refine congrArg List.sum (List.map_congr_left fun q hq => ?_)
  simp [lengthAt, segmentAt?_of_mem (h.subset hq)]

/-- The lengths of the statistics, as sums over the contours and over the playback. -/
structure LengthsAgree (p : Program EReal) (xs : List (PathPoint EReal)) : Prop where
  totalLength : p.statistics.totalLength = (p.contours.map Contour.length).sum
  totalLength_eq_sum : p.statistics.totalLength = ∑ t ∈ sampledPlaces xs, p.lengthAt t
  /-- The laser is on all along a segment or nowhere on it. -/
  laserOn_eq : ∀ x ∈ xs, ∀ y ∈ xs, x.isPierce = false → y.isPierce = false → x.place = y.place →
    x.laserOn = y.laserOn
  laserOnLength : p.statistics.laserOnLength =
    ∑ t ∈ sampledPlaces (xs.filter PathPoint.laserOn), p.lengthAt t

theorem lengthsAgree {text : String} {keep : Bool} {p : Program EReal} {s : Sampler EReal}
    {xs : List (PathPoint EReal)} (hp : ofText? text keep = .ok p)
    (hxs : s.sampleProgram p = .ok xs) : p.LengthsAgree xs := by
  have hphased : ∀ part ∈ p.parts, ∀ c ∈ part.contours, c.IsPhased :=
    fun part hpart c hc => isPhased_of_ofCommands? hp hpart hc
  rw [s.sampleProgram_eq_ok hphased hxs]
  constructor
  · rw [totalLength_eq_sum hphased, segments, sum_map_flatMap]
    refine congrArg List.sum (List.map_congr_left fun c _ => ?_)
    exact (pathLength_eq_sum c.allSegments).symm
  · rw [totalLength_eq_sum hphased, sampledPlaces_playback, sum_lengthAt (List.Sublist.refl _),
      map_segment_placedSegments]
  · intro x hx y hy hx' hy' hplace
    obtain ⟨q, hq, hxq, hxlaser⟩ := p.exists_placedSegment_of_mem s.steps hx hx'
    obtain ⟨r, hr, hyr, hylaser⟩ := p.exists_placedSegment_of_mem s.steps hy hy'
    have hqr : q = r :=
      List.inj_on_of_nodup_map p.nodup_places hq hr (by rw [← hxq, ← hyr, hplace])
    rw [hxlaser, hylaser, hqr]
  · have hplaces := p.sampledPlaces_filter s.steps id
    simp only [id_eq] at hplaces
    rw [laserOnLength_eq_sum, hplaces, sum_lengthAt List.filter_sublist,
      map_segment_filter_laserOn hphased]

end Program

end Exact

/-- The statistics of a program that is read from a text and sampled agree with its tree and with
its playback. There are as many contours as the tree has, as many pierces as the playback has, as
many segments as first points of segments and as places that points belong to, and as many arcs as
such places with an arc; every placement is a part or skipped. Without rounding, the total length is
the sum over all contours, and the length with the laser on is the part of it that belongs to the
points with the laser on. -/
theorem Program.statistics_tally {text : String} {keep : Bool} :
    (∀ {α : Type} [Scalar α] (p : Program α) (s : Sampler α) (xs : List (PathPoint α)),
      ofText? text keep = .ok p → s.sampleProgram p = .ok xs → p.CountsAgree xs) ∧
    ∀ [Trigonometry] (p : Program EReal) (s : Sampler EReal) (xs : List (PathPoint EReal)),
      ofText? text keep = .ok p → s.sampleProgram p = .ok xs → p.LengthsAgree xs :=
  ⟨fun _ _ _ hp hxs => countsAgree hp hxs, fun _ _ _ hp hxs => lengthsAgree hp hxs⟩

/-! ### A sheet without rounding -/

section Straight

attribute [local instance] Trigonometry.real

open Command

/-- A line of length 2, in a program where every number has one digit. -/
def straightSheet : String :=
  "HKLDB(1,D,1)\nHKINI(1,9,9)\nHKOST(0,0,0,1,1)\nHKEND\nN1\nHKSTR(1,1,0,0,0,9,9)\nHKCUT\nX2 Y0\n" ++
  "HKSTO(0,2,0,0,0,0)\nHKPED"

noncomputable def digit (n : ℕ) : EReal := Scalar.ofDecimal n 0

theorem digit_eq (n : ℕ) : digit n = (n : ℝ) := by
  show (((n : ℝ) * 10 ^ (0 : ℤ) : ℝ) : EReal) = (n : ℝ)
  rw [zpow_zero, mul_one]

theorem clampedWhole_digit {least most : ℤ} {n : ℕ} (hleast : least ≤ n) (hmost : n ≤ most) :
    clampedWhole least most (digit n) = n := by
  rw [digit_eq, clampedWhole, if_neg (EReal.coe_ne_top _), if_neg (EReal.coe_ne_bot _),
    EReal.toReal_coe, wholePart, if_pos (Nat.cast_nonneg n), Int.floor_natCast, min_eq_right hmost,
    max_eq_right hleast]

theorem toInt32_digit {n : ℕ} (h : n ≤ 9) : Scalar.toInt32 (digit n) = Int32.ofInt n := by
  show Int32.ofInt (clampedWhole (-2147483648) 2147483647 (digit n)) = _
  rw [clampedWhole_digit (by omega) (by omega)]

theorem toUInt32_digit {n : ℕ} (h : n ≤ 9) : Scalar.toUInt32 (digit n) = UInt32.ofNat n := by
  show UInt32.ofNat (clampedWhole 0 4294967295 (digit n)).toNat = _
  rw [clampedWhole_digit (by omega) (by omega), Int.toNat_natCast]

noncomputable def straightCommands : List (Command EReal) :=
  [.call (.loadDatabase ⟨1⟩ "D" ⟨1⟩), .call (.init 1 (digit 9) (digit 9)),
    .call (.partOrigin (digit 0) (digit 0) (digit 0) 1 1), .call .programEnd, .blockMarker 1,
    .call (.contourStart ⟨1⟩ ⟨1⟩ (digit 0) (digit 0) 0 (digit 9) (digit 9)), .call .startCut,
    .motion ⟨"", some (digit 2), some (digit 0), none, none, none, none⟩,
    .call (.contourEnd 0 (digit 2) (digit 0) (digit 0) (digit 0) 0), .call .partEnd]

theorem ofText_straightSheet : ofText straightSheet = straightCommands := by
  have hlines : Text.pieces '\n' straightSheet.toList = ["HKLDB(1,D,1)", "HKINI(1,9,9)",
      "HKOST(0,0,0,1,1)", "HKEND", "N1", "HKSTR(1,1,0,0,0,9,9)", "HKCUT", "X2 Y0",
      "HKSTO(0,2,0,0,0,0)", "HKPED"].map String.toList := by decide +kernel
  have hzero : Scalar.toInt32 (digit 0) = 0 := toInt32_digit (by decide)
  have hone : Scalar.toInt32 (digit 1) = 1 := toInt32_digit (by decide)
  have hcount : Scalar.toUInt32 (digit 1) = 1 := toUInt32_digit (by decide)
  have hmarker : (ofLine (Text.trim "N1".toList) : List (Command EReal)) = [.blockMarker 1] := by
    have hnil : (ofLine [] : List (Command EReal)) = [] := by
      rw [ofLine.eq_def]
      rfl
    rw [ofLine.eq_def]
    exact congrArg _ hnil
  rw [ofText, hlines]
  simp only [List.map_cons, List.map_nil, List.flatMap_cons, List.flatMap_nil, hmarker]
  rw [straightCommands, ← hzero, ← hone, ← hcount]
  repeat rw [ofLine.eq_def]
  rfl

noncomputable def straightLine : Segment EReal := .line ⟨digit 0, digit 0⟩ ⟨digit 2, digit 0⟩

theorem length_straightLine : straightLine.length = (2 : ℝ) := by
  have hx : digit 2 - digit 0 = (2 : ℝ) := by
    rw [digit_eq, digit_eq]
    norm_cast
  have hy : digit 0 - digit 0 = (0 : ℝ) := by
    rw [digit_eq]
    norm_cast
  have hsqrt : √((2 : ℝ) ^ 2 + (0 : ℝ) ^ 2) = 2 := by
    rw [zero_pow two_ne_zero, add_zero, Real.sqrt_sq two_pos.le]
  show Scalar.hypot (digit 2 - digit 0) (digit 0 - digit 0) = _
  rw [hx, hy]
  show (if _ then ((√((2 : ℝ) ^ 2 + (0 : ℝ) ^ 2) : ℝ) : EReal) else ⊤) = _
  rw [if_pos (by simp), hsqrt]

noncomputable def exactSampler : Sampler EReal where
  step := (1 : ℝ)
  isFinite_step := Scalar.isFinite_coe 1
  zero_lt_step := EReal.coe_pos.2 one_pos

theorem stepsFor_straightLine : exactSampler.stepsFor straightLine = .ok 2 := by
  have hpositive : ¬(!Scalar.isFinite straightLine.length || decide (straightLine.length ≤ 0)) =
      true := by
    rw [length_straightLine, Scalar.isFinite_coe]
    simp
  have hceil : Scalar.ceil? (straightLine.length / exactSampler.step) = some 2 := by
    have hdiv : ((2 : ℝ) : EReal) / (1 : ℝ) = (2 : ℝ) := by rw [EReal.coe_one, div_one]
    rw [length_straightLine]
    refine (congrArg Scalar.ceil? hdiv).trans ?_
    show (if _ then some ⌈((2 : ℝ) : EReal).toReal⌉₊ else none) = _
    rw [if_pos (by simp), EReal.toReal_coe, Nat.ceil_ofNat]
  rw [Sampler.stepsFor]
  simp only [if_neg hpositive, hceil]
  rfl

theorem exists_ofText?_straightSheet : ∃ p : Program EReal,
    Program.ofText? straightSheet false = .ok p ∧ p.segments = [straightLine] := by
  rw [Program.ofText?, ofText_straightSheet]
  exact ⟨_, rfl, rfl⟩

/-- Three segments in a program of floats, and a length of 2 in one that is not rounded. -/
theorem Program.statistics_tally_sheets :
    (∃ (p : Program Float) (xs : List (PathPoint Float)), ofText? leadInSheet false = .ok p ∧
      unitSampler.sampleProgram p = .ok xs ∧ p.CountsAgree xs ∧ (sampledPlaces xs).card = 3) ∧
    ∃ (p : Program EReal) (xs : List (PathPoint EReal)), ofText? straightSheet false = .ok p ∧
      exactSampler.sampleProgram p = .ok xs ∧ p.LengthsAgree xs ∧
      ∑ t ∈ sampledPlaces xs, p.lengthAt t = (2 : ℝ) := by
  constructor
  · have hrun : (ofText? (α := Float) leadInSheet false).toOption.map (fun p =>
        ((unitSampler.sampleProgram p).toOption.isSome, p.statistics.segmentCount)) =
        some (true, 3) := by
      decide +kernel
    obtain ⟨p, hp, hrun⟩ := exists_eq_ok_of_toOption_map hrun
    obtain ⟨hsome, hcount⟩ := Prod.mk.inj hrun
    cases hxs : unitSampler.sampleProgram p with
    | error e =>
      rw [hxs] at hsome
      cases hsome
    | ok xs =>
      have hagree := statistics_tally.1 p unitSampler xs hp hxs
      exact ⟨p, xs, hp, hxs, hagree, hagree.segmentCount_eq_card ▸ hcount⟩
  · obtain ⟨p, hp, hsegments⟩ := exists_ofText?_straightSheet
    have hphased : ∀ part ∈ p.parts, ∀ c ∈ part.contours, c.IsPhased :=
      fun part hpart c hc => isPhased_of_ofCommands? hp hpart hc
    have hxs : exactSampler.sampleProgram p = .ok (p.playback exactSampler.steps) := by
      rw [exactSampler.sampleProgram_eq hphased, exactSampler.check_eq_ok]
      · rfl
      · rw [hsegments]
        simp [stepsFor_straightLine]
    have hagree := statistics_tally.2 p exactSampler _ hp hxs
    refine ⟨p, _, hp, hxs, hagree, ?_⟩
    rw [← hagree.totalLength_eq_sum, totalLength_eq_sum hphased, hsegments, List.map_singleton,
      List.sum_singleton, length_straightLine]

end Straight

end SheetCut
