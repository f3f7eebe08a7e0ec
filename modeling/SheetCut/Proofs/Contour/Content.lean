import SheetCut.Proofs.Contour.Windows

/-!
# The content of a closed contour

What a closed contour holds, said in terms of the commands between the one that opened it and the one
that closed it, and what each of these commands does to the pen and to the paths.
-/

namespace SheetCut

variable {α : Type} [Scalar α]

namespace OpenContour

omit [Scalar α] in
def paths (k : OpenContour α) : Option (LeadIn α) × List (Segment α) × List (Segment α) :=
  (k.leadIn, k.approachPath, k.cuttingPath)

theorem paths_record {k : OpenContour α} {pen : Point α} {c : Command α} (h : c.move? = none) :
    (k.record pen c).paths = k.paths := by
  rw [record, h]
  dsimp only
  split <;> rfl

end OpenContour

namespace Command

theorem piercingType_of_opening {c : Command α} {o : Opening α} (h : c.opening? = some o)
    (hr : o.remnant = true) : o.piercingType = Code.noPiercing := by
  unfold opening? at h
  split at h <;> cases h
  · cases hr
  · rfl

/-- A gap is closed by a contour end with a code from 1 to 3 whose point is not near the pen. -/
theorem isSome_move?_of_closing {c : Command α} {q : Closing α} (h : c.closing? = some q)
    (pen : Point α) :
    (q.move? pen).isSome ↔ ∃ code x y i j web, c = .call (.contourEnd code x y i j web) ∧
      (1 ≤ code.toInt ∧ code.toInt ≤ 3) ∧ (Point.mk x y).near pen = false := by
  unfold closing? at h
  split at h
  · rename_i code x y i j web
    cases h
    constructor
    · intro hm
      by_cases hg : (1 ≤ code.toInt ∧ code.toInt ≤ 3) ∧ (Point.mk x y).near pen = false
      · exact ⟨code, x, y, i, j, web, rfl, hg⟩
      · simp [Closing.move?, hg] at hm
    · rintro ⟨code', x', y', i', j', web', hc, hg⟩
      cases hc
      simp [Closing.move?, hg]
  · split at h <;> cases h
    constructor
    · intro hm
      cases hm
    · rintro ⟨_, _, _, _, _, _, hc, -⟩
      cases hc
  · cases h

end Command

namespace Window

open Command

/-- The stroke of an inner command that makes a move starts where the pen is. -/
theorem strokes_eq {w : Window α} {u v : List (Command α)} {d : Command α}
    (hd : w.inner = u ++ d :: v) {m : Move α} (hm : d.move? = some m) :
    w.strokes = Command.strokes w.opening.position u ++
      ⟨m, m.segment (penAfter w.opening.position u)⟩ :: Command.strokes m.stop v := by
  rw [strokes, hd, Command.strokes_append, Command.strokes_cons, hm]
  rfl

/-- The place of the pen before an inner command, and what that command does to pen and paths. -/
theorem step_inner {w : Window α} {block : UInt32} {pre : List (Command α)} {o : Command α}
    {s : ScanState α}
    (hs : (ScanState.start block).after? (pre ++ o :: w.inner) = some s)
    (ho : o.opening? = some w.opening) {u v : List (Command α)} {d : Command α}
    (hd : w.inner = u ++ d :: v) :
    ∃ r r', (ScanState.start block).after? (pre ++ o :: u) = some r ∧ r.step d = .scanning r' ∧
      r.pen = penAfter w.opening.position u ∧
      (∀ m, d.move? = some m →
        Segment.build? m.code r.pen m.stop m.i m.j = some (m.segment r.pen) ∧ r'.pen = m.stop ∧
          w.strokes = Command.strokes w.opening.position u ++
            ⟨m, m.segment r.pen⟩ :: Command.strokes m.stop v) ∧
      (d.move? = none → r'.pen = r.pen ∧
        r'.contour.map OpenContour.paths = r.contour.map OpenContour.paths) := by
  have hi := w.inner_isInner
  rw [hd] at hi
  obtain ⟨hu, hdv⟩ := List.forall_mem_append.1 hi
  rw [ScanState.after?_append] at hs
  obtain ⟨p, hp, -⟩ := Option.bind_eq_some_iff.1 hs
  have hr : (ScanState.start block).after? (pre ++ o :: u) = some
      ⟨blockInForce p.blockNumber u, penAfter w.opening.position u,
        some ((w.opening.contour p.blockNumber).extend w.opening.position u)⟩ := by
    rw [ScanState.after?_append, hp]
    exact ScanState.after?_opening p ho hu
  refine ⟨_, _, hr, ScanState.step_open_of_isInner (hdv d List.mem_cons_self), rfl, ?_, ?_⟩
  · intro m hm
    rw [hm]
    exact ⟨m.build?_eq _, rfl, strokes_eq hd hm⟩
  · intro hm
    rw [hm]
    exact ⟨rfl, congrArg some (OpenContour.paths_record hm)⟩

/-- A remnant has no approach; all its motions are cut. -/
theorem contour_of_remnant {w : Window α} (h : w.opening.remnant = true) :
    w.contour.approachPath = [] ∧
      w.contour.cuttingPath =
        Stroke.motions w.strokes ++ w.closingStrokes.map Stroke.segment := by
  simp [contour, approachStrokes, cutStrokes, strokes, h, approach, cut]

/-- Another contour is cut from the first command on that starts the cutting. -/
theorem contour_of_not_remnant {w : Window α} (h : w.opening.remnant = false) :
    w.contour.approachPath =
        Stroke.motions (Command.strokes w.opening.position
          (w.inner.takeWhile fun d => !d.startsCutting)) ∧
      w.contour.cuttingPath =
        Stroke.motions (Command.strokes
          (penAfter w.opening.position (w.inner.takeWhile fun d => !d.startsCutting))
          (w.inner.dropWhile fun d => !d.startsCutting)) ++
          w.closingStrokes.map Stroke.segment := by
  simp [contour, approachStrokes, cutStrokes, h, approach, cut]

theorem closingStrokes_ne_nil_iff {w : Window α} :
    w.closingStrokes ≠ [] ↔ (w.closing.move? w.pen).isSome := by
  rw [closingStrokes]
  cases w.closing.move? w.pen <;> simp [Move.strokes]

end Window

open Command in
/-- A closed contour is the contour of its window: the last lead-in, the motions before and after
the start of the cutting, and a segment to the end point exactly if the end has a code from 1 to 3
and is not near the pen. Before each inner command the pen is where the last move stopped; the segment
of its own move is built from there, and without a move it changes neither pen nor paths. -/
theorem closed_contour_content {block : UInt32} {cs : List (Command α)} {c : Command α}
    {s t : ScanState α} {k : Contour α} (hs : (ScanState.start block).after? cs = some s)
    (hc : s.step c = .closed t k) :
    ∃ (w : Window α) (pre : List (Command α)) (o : Command α),
      (cs = pre ++ o :: w.inner ∧ o.opening? = some w.opening ∧ c.closing? = some w.closing ∧
        w.block = blockInForce block pre) ∧
      k = w.contour ∧ t = ⟨blockInForce block cs, w.stop, none⟩ ∧
      k.leadIn = Stroke.leadIn? w.strokes ∧
      (w.opening.remnant = false →
        k.approachPath = Stroke.motions (Command.strokes w.opening.position
          (w.inner.takeWhile fun d => !d.startsCutting)) ∧
        k.cuttingPath = Stroke.motions (Command.strokes
          (penAfter w.opening.position (w.inner.takeWhile fun d => !d.startsCutting))
          (w.inner.dropWhile fun d => !d.startsCutting)) ++
            w.closingStrokes.map Stroke.segment) ∧
      (w.opening.remnant = true →
        k.piercingType = Code.noPiercing ∧ k.approachPath = [] ∧
        k.cuttingPath = Stroke.motions w.strokes ++ w.closingStrokes.map Stroke.segment) ∧
      (w.closingStrokes ≠ [] ↔ ∃ code x y i j web, c = .call (.contourEnd code x y i j web) ∧
        (1 ≤ code.toInt ∧ code.toInt ≤ 3) ∧ (Point.mk x y).near w.pen = false) ∧
      ∀ u d v, w.inner = u ++ d :: v →
        ∃ r r', (ScanState.start block).after? (pre ++ o :: u) = some r ∧
          r.step d = .scanning r' ∧ r.pen = penAfter w.opening.position u ∧
          (∀ m, d.move? = some m →
            Segment.build? m.code r.pen m.stop m.i m.j = some (m.segment r.pen) ∧ r'.pen = m.stop ∧
              w.strokes = Command.strokes w.opening.position u ++
                ⟨m, m.segment r.pen⟩ :: Command.strokes m.stop v) ∧
          (d.move? = none → r'.pen = r.pen ∧
            r'.contour.map OpenContour.paths = r.contour.map OpenContour.paths) := by
  obtain ⟨w, ⟨pre, o, rfl, ho, hq, hb⟩, rfl, rfl⟩ := ScanState.exists_window hs hc
  refine ⟨w, pre, o, ⟨rfl, ho, hq, hb⟩, rfl, rfl, rfl, Window.contour_of_not_remnant, ?_, ?_, ?_⟩
  · intro hr
    exact ⟨piercingType_of_opening ho hr, Window.contour_of_remnant hr⟩
  · rw [Window.closingStrokes_ne_nil_iff]
    exact isSome_move?_of_closing hq w.pen
  · intro u d v hd
    exact Window.step_inner hs ho hd

/-- A remnant with a lead-in and a motion, which leave a gap to its end. -/
def gappedRemnant : List (Command Float) :=
  [.call (.remnantStart ⟨1⟩ 0 0 0), .call (.leadIn 1 5 0 0 0), .call .startCut,
    .motion ⟨"G1", some 5, some 5, none, none, none, none⟩]

/-- A contour end may close a remnant; it cuts the gap that is left. -/
theorem closed_contour_content_remnant_gap :
    ∃ (s t : ScanState Float) (k : Contour Float) (w : Window Float),
      (ScanState.start 1).after? gappedRemnant = some s ∧
        s.step (.call (.contourEnd 1 0 0 0 0 0)) = .closed t k ∧
        w.IsClosedBy 1 gappedRemnant (.call (.contourEnd 1 0 0 0 0 0)) ∧
        k.leadIn = Stroke.leadIn? w.strokes ∧ k.approachPath = [] ∧
        k.cuttingPath = Stroke.motions w.strokes ++ w.closingStrokes.map Stroke.segment ∧
        w.closingStrokes ≠ [] := by
  have hs : (ScanState.start 1).after? gappedRemnant = some _ := rfl
  obtain ⟨w, pre, o, hw, -, -, hl, -, hr, -⟩ :=
    closed_contour_content hs (c := .call (.contourEnd 1 0 0 0 0 0)) rfl
  have hw' : w.IsClosedBy 1 gappedRemnant (.call (.contourEnd 1 0 0 0 0 0)) := ⟨pre, o, hw⟩
  have hwin := Window.closedBy?_eq_some_iff.2 hw'
  cases hwin
  exact ⟨_, _, _, _, hs, rfl, hw', hl, (hr rfl).2.1, (hr rfl).2.2, List.cons_ne_nil _ _⟩

end SheetCut
