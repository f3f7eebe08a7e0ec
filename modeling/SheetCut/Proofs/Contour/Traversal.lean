import SheetCut.Proofs.Contour.Windows

/-!
# The order of traversal

A closed contour lists its segments phase by phase: lead-in, approach, cut. What was drawn is always
a connected path from the piercing position to the pen. The list of the contour is that path exactly
if the lead-in comes first; a late lead-in is moved to the front, and a second one replaces the
first.
-/

namespace SheetCut

private theorem cons_eq_concat_iff {β : Type} (a : β) (l : List β) :
    a :: l = l ++ [a] ↔ ∀ x ∈ l, x = a := by
  induction l with
  | nil => simp
  | cons b l ih =>
    rw [List.cons_append, List.cons.injEq, List.forall_mem_cons]
    constructor
    · rintro ⟨rfl, h⟩
      exact ⟨rfl, ih.1 h⟩
    · rintro ⟨rfl, h⟩
      exact ⟨rfl, ih.2 h⟩

variable {α : Type}

namespace Stroke

/-- No lead-in comes after another lead-in, nor after a motion with another segment. -/
def LeadInFirst (ss : List (Stroke α)) : Prop :=
  ss.Pairwise fun d e => e.move.isLeadIn → d.move.isLeadIn = false ∧ d.segment = e.segment

/-- The segments of the strokes phase by phase: the lead-in and then the motions. -/
def phased (ss : List (Stroke α)) : List (Segment α) :=
  ((leadIn? ss).map LeadIn.segment).toList ++ motions ss

theorem motions_of_isLeadIn_false {ss : List (Stroke α)}
    (h : ∀ d ∈ ss, d.move.isLeadIn = false) : motions ss = ss.map Stroke.segment := by
  rw [motions, List.filter_eq_self.2 fun d hd => by rw [h d hd]; rfl]

theorem leadIn?_of_isLeadIn_false {ss : List (Stroke α)}
    (h : ∀ d ∈ ss, d.move.isLeadIn = false) : leadIn? ss = none := by
  rw [leadIn?, List.filter_eq_nil_iff.2 fun d hd => by rw [h d hd]; exact Bool.false_ne_true]
  rfl

theorem isLeadIn_false_of_length {ss : List (Stroke α)}
    (h : (motions ss).length = ss.length) : ∀ d ∈ ss, d.move.isLeadIn = false := by
  rw [motions, List.length_map, List.length_filter_eq_length_iff] at h
  intro d hd
  simpa using h d hd

theorem leadInFirst_of_isLeadIn_false {ss : List (Stroke α)}
    (h : ∀ d ∈ ss, d.move.isLeadIn = false) : LeadInFirst ss := by
  refine List.pairwise_of_forall_mem_list ?_
  intro a _ b hb hl
  rw [h b hb] at hl
  cases hl

/-- Where `e` is the last lead-in, it comes first exactly if all strokes before it are motions with
its own segment. -/
theorem leadInFirst_append_cons_iff {pre u : List (Stroke α)} {e : Stroke α}
    (he : e.move.isLeadIn) (hu : ∀ d ∈ u, d.move.isLeadIn = false) :
    LeadInFirst (pre ++ e :: u) ↔
      ∀ d ∈ pre, d.move.isLeadIn = false ∧ d.segment = e.segment := by
  constructor
  · intro h d hd
    exact (List.pairwise_append.1 h).2.2 d hd e List.mem_cons_self he
  · intro h
    refine List.pairwise_append.2 ⟨leadInFirst_of_isLeadIn_false fun d hd => (h d hd).1,
      List.pairwise_cons.2 ⟨?_, leadInFirst_of_isLeadIn_false hu⟩, ?_⟩
    · intro b hb hl
      rw [hu b hb] at hl
      cases hl
    · intro a ha b hb hl
      rcases List.mem_cons.1 hb with rfl | hb
      · exact h a ha
      · rw [hu b hb] at hl
        cases hl

/-- The phases of strokes whose last lead-in is `e`. -/
theorem phased_append_cons {pre u : List (Stroke α)} {e : Stroke α} (he : e.move.isLeadIn)
    (hu : ∀ d ∈ u, d.move.isLeadIn = false) :
    phased (pre ++ e :: u) = (e.segment :: motions pre) ++ u.map Stroke.segment := by
  have hl : leadIn? (pre ++ e :: u) = some ⟨e.move.code, e.segment⟩ := by
    rw [leadIn?_append, leadIn?_cons, leadIn?_of_isLeadIn_false hu, if_pos he]
    rfl
  rw [phased, hl, motions_append, motions_cons, if_pos he, motions_of_isLeadIn_false hu]
  rfl

/-- The phases keep the order of the strokes exactly if the lead-in comes first. -/
theorem phased_eq_iff (ss : List (Stroke α)) :
    phased ss = ss.map Stroke.segment ↔ LeadInFirst ss := by
  rcases forall_or_split (fun d : Stroke α => !d.move.isLeadIn) ss with h | ⟨pre, e, u, rfl, he, hu⟩
  · have h' : ∀ d ∈ ss, d.move.isLeadIn = false := fun d hd => by simpa using h d hd
    refine iff_of_true ?_ (leadInFirst_of_isLeadIn_false h')
    rw [phased, leadIn?_of_isLeadIn_false h', motions_of_isLeadIn_false h']
    rfl
  · have he' : e.move.isLeadIn := by simpa using he
    have hu' : ∀ d ∈ u, d.move.isLeadIn = false := fun d hd => by simpa using hu d hd
    have hm : (pre ++ e :: u).map Stroke.segment =
        (pre.map Stroke.segment ++ [e.segment]) ++ u.map Stroke.segment := by simp
    rw [leadInFirst_append_cons_iff he' hu', phased_append_cons he' hu', hm,
      List.append_cancel_right_eq]
    constructor
    · intro h
      have hlen := congrArg List.length h
      simp only [List.length_cons, List.length_append, List.length_map, List.length_nil] at hlen
      have hpre : ∀ d ∈ pre, d.move.isLeadIn = false := isLeadIn_false_of_length (by omega)
      rw [motions_of_isLeadIn_false hpre, cons_eq_concat_iff] at h
      exact fun d hd => ⟨hpre d hd, h _ (List.mem_map_of_mem hd)⟩
    · intro h
      rw [motions_of_isLeadIn_false fun d hd => (h d hd).1, cons_eq_concat_iff]
      exact List.forall_mem_map.2 fun d hd => (h d hd).2

theorem phased_append_of_isLeadIn_false (ss : List (Stroke α)) {ts : List (Stroke α)}
    (h : ∀ d ∈ ts, d.move.isLeadIn = false) :
    phased (ss ++ ts) = phased ss ++ ts.map Stroke.segment := by
  rw [phased, phased, leadIn?_append, leadIn?_of_isLeadIn_false h, motions_append,
    motions_of_isLeadIn_false h, Option.none_or, List.append_assoc]

end Stroke

variable [Scalar α]

namespace Window

theorem approachStrokes_append_cutStrokes (w : Window α) :
    w.approachStrokes ++ w.cutStrokes = w.strokes := by
  rw [approachStrokes, cutStrokes, strokes, ← Command.strokes_append, Command.approach_append_cut]

theorem isLeadIn_closingStrokes (w : Window α) :
    ∀ d ∈ w.closingStrokes, d.move.isLeadIn = false := by
  rw [closingStrokes]
  cases hm : w.closing.move? w.pen with
  | none => exact List.forall_mem_nil _
  | some m => exact List.forall_mem_singleton.2 (Closing.isLeadIn_of_move hm)

/-- A contour lists what was drawn phase by phase. -/
theorem allSegments_contour (w : Window α) : w.contour.allSegments = Stroke.phased w.history := by
  rw [history, Stroke.phased_append_of_isLeadIn_false _ w.isLeadIn_closingStrokes, Stroke.phased,
    ← w.approachStrokes_append_cutStrokes, Stroke.motions_append]
  simp [contour, ← w.approachStrokes_append_cutStrokes]

/-- What is drawn in a window leads from the piercing position to the pen. -/
theorem connected_history (w : Window α) :
    Segment.Connected w.opening.position (w.history.map Stroke.segment) w.stop := by
  rw [history, strokes, Command.strokes, closingStrokes, stop, pen, Command.penAfter,
    ← Move.strokes_append, ← Move.penAfter_append]
  exact Move.connected_strokes _ _

end Window

/-- What is drawn in the window of a closed contour leads from the piercing position to the pen
without a gap. It is the list of all segments of the contour exactly if no lead-in comes after
another lead-in or after a motion with another segment. -/
theorem allSegments_eq_history_iff {block : UInt32} {cs : List (Command α)} {c : Command α}
    {s t : ScanState α} {k : Contour α} (hs : (ScanState.start block).after? cs = some s)
    (hc : s.step c = .closed t k) :
    ∃ w : Window α, w.IsClosedBy block cs c ∧
      Segment.Connected k.piercingPosition (w.history.map Stroke.segment) t.pen ∧
      (k.allSegments = w.history.map Stroke.segment ↔ Stroke.LeadInFirst w.history) ∧
      (Stroke.LeadInFirst w.history →
        Segment.Connected k.piercingPosition k.allSegments t.pen) := by
  obtain ⟨w, hw, rfl, rfl⟩ := ScanState.exists_window hs hc
  have horder : w.contour.allSegments = w.history.map Stroke.segment ↔
      Stroke.LeadInFirst w.history := by
    rw [w.allSegments_contour]
    exact Stroke.phased_eq_iff w.history
  refine ⟨w, hw, w.connected_history, horder, ?_⟩
  intro h
  rw [horder.2 h]
  exact w.connected_history

/-- A lead-in and a motion, which leave a gap to the end of the contour. -/
def gappedContour : List (Command Float) :=
  [.call (.contourStart ⟨1⟩ ⟨1⟩ 0 0 0 10 10), .call (.leadIn 1 5 0 0 0), .call .startCut,
    .motion ⟨"", some 5, some 5, none, none, none, none⟩]

/-- The lead-in comes first, and the contour end draws the last segment. -/
theorem allSegments_eq_history_iff_closing_gap :
    ∃ (s t : ScanState Float) (k : Contour Float) (w : Window Float),
      (ScanState.start 1).after? gappedContour = some s ∧
        s.step (.call (.contourEnd 1 0 0 0 0 0)) = .closed t k ∧
        w.IsClosedBy 1 gappedContour (.call (.contourEnd 1 0 0 0 0 0)) ∧
        w.history.length = 3 ∧ Stroke.LeadInFirst w.history ∧
        Segment.Connected k.piercingPosition k.allSegments t.pen := by
  have hs : (ScanState.start 1).after? gappedContour = some _ := rfl
  obtain ⟨w, hw, -, horder, hconnected⟩ :=
    allSegments_eq_history_iff hs (c := .call (.contourEnd 1 0 0 0 0 0)) rfl
  have hwin := Window.closedBy?_eq_some_iff.2 hw
  cases hwin
  have hfirst := horder.1 rfl
  exact ⟨_, _, _, _, hs, rfl, hw, rfl, hfirst, hconnected hfirst⟩

/-- The lead-in comes after a motion. -/
def lateLeadIn : List (Command Float) :=
  [.call (.contourStart ⟨1⟩ ⟨1⟩ 0 0 0 10 10), .motion ⟨"G1", some 5, some 0, none, none, none, none⟩,
    .call (.leadIn 1 10 0 0 0)]

/-- After a motion the lead-in is moved to the front, and the list of all segments has a gap. -/
theorem late_leadIn_moved :
    ∃ (s t : ScanState Float) (k : Contour Float) (w : Window Float),
      (ScanState.start 1).after? lateLeadIn = some s ∧
        s.step (.call (.contourEnd 0 10 0 0 0 0)) = .closed t k ∧
        w.IsClosedBy 1 lateLeadIn (.call (.contourEnd 0 10 0 0 0 0)) ∧
        k.allSegments ≠ w.history.map Stroke.segment ∧
        ¬Segment.Connected k.piercingPosition k.allSegments t.pen := by
  have h5 : (5 : Float) ≠ 0 := by
    intro h
    have hb : ((5 : Float) == 0) = true := by rw [h]; decide
    revert hb
    decide
  refine ⟨_, _, _, _, rfl, rfl, Window.closedBy?_eq_some_iff.1 rfl, ?_, ?_⟩
  · intro h
    injection h with h
    injection h with h
    injection h with h
    exact h5 h
  · rintro ⟨h, -⟩
    injection h with h
    exact h5 h

end SheetCut
