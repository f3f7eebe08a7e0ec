import Mathlib.Data.List.DropRight
import SheetCut.Proofs.Contour.Runs

/-!
# Windows

A window is a row of commands that opens and closes one contour: an opening command, inner commands
and a closing command. The contour of a window is written down from its commands alone, and a scan
closes exactly these contours.
-/

namespace SheetCut

private theorem rdropWhile_append_cons {β : Type} {p : β → Bool} (l : List β) {a : β} {u : List β}
    (ha : p a = false) (hu : ∀ x ∈ u, p x) : (l ++ a :: u).rdropWhile p = l ++ [a] := by
  induction u using List.reverseRecOn with
  | nil => exact List.rdropWhile_concat_neg p l a (by simp [ha])
  | append_singleton u x ih =>
    rw [← List.cons_append, ← List.append_assoc,
      List.rdropWhile_concat_pos p _ x (hu x (by simp))]
    exact ih fun y hy => hu y (by simp [hy])

private theorem rtakeWhile_append_cons {β : Type} {p : β → Bool} (l : List β) {a : β} {u : List β}
    (ha : p a = false) (hu : ∀ x ∈ u, p x) : (l ++ a :: u).rtakeWhile p = u := by
  have h : (l ++ a :: u).rdropWhile p ++ (l ++ a :: u).rtakeWhile p = l ++ a :: u :=
    List.rdropWhile_append_rtakeWhile
  rw [rdropWhile_append_cons l ha hu, List.append_assoc] at h
  exact (List.cons.inj (List.append_cancel_left h)).2

/-- A list is split at the last of its members that fail a test. -/
theorem forall_or_split {β : Type} (p : β → Bool) (l : List β) :
    (∀ x ∈ l, p x) ∨ ∃ pre a u, l = pre ++ a :: u ∧ p a = false ∧ ∀ x ∈ u, p x := by
  induction l with
  | nil => exact .inl (List.forall_mem_nil _)
  | cons b l ih =>
    rcases ih with h | ⟨pre, a, u, rfl, ha, hu⟩
    · cases hb : p b with
      | true => exact .inl (List.forall_mem_cons.2 ⟨hb, h⟩)
      | false => exact .inr ⟨[], b, l, rfl, hb, h⟩
    · exact .inr ⟨b :: pre, a, u, rfl, ha, hu⟩

variable {α : Type} [Scalar α]

structure Window (α : Type) [Scalar α] where
  /-- The block number in force at the opening command. -/
  block : UInt32
  opening : Opening α
  inner : List (Command α)
  closing : Closing α
  inner_isInner : ∀ c ∈ inner, c.isInner

namespace Window

open Command

def pen (w : Window α) : Point α := penAfter w.opening.position w.inner

def stop (w : Window α) : Point α := Move.penAfter w.pen (w.closing.move? w.pen).toList

def strokes (w : Window α) : List (Stroke α) := Command.strokes w.opening.position w.inner

/-- What is drawn before the cutting starts; a remnant is cut from its start. -/
def approachStrokes (w : Window α) : List (Stroke α) :=
  Command.strokes w.opening.position (approach w.opening.remnant w.inner)

def cutStrokes (w : Window α) : List (Stroke α) :=
  Command.strokes (penAfter w.opening.position (approach w.opening.remnant w.inner))
    (cut w.opening.remnant w.inner)

def closingStrokes (w : Window α) : List (Stroke α) :=
  Move.strokes w.pen (w.closing.move? w.pen).toList

/-- Everything that is drawn in the window, in the order in which it is drawn. -/
def history (w : Window α) : List (Stroke α) := w.strokes ++ w.closingStrokes

def contour (w : Window α) : Contour α where
  id := "contour-" ++ toString w.block.toNat
  blockNumber := w.block
  piercingType := w.opening.piercingType
  cuttingType := w.opening.cuttingType
  piercingPosition := w.opening.position
  toolCompensation := w.opening.toolCompensation
  declaredSize := w.opening.declaredSize
  remnant := w.opening.remnant
  leadIn := Stroke.leadIn? w.strokes
  approachPath := Stroke.motions w.approachStrokes
  cuttingPath := Stroke.motions w.cutStrokes ++ w.closingStrokes.map Stroke.segment
  endCode := w.closing.endCode
  endPosition := w.closing.endPosition w.pen
  web := w.closing.web
  allSegments :=
    ((Stroke.leadIn? w.strokes).map LeadIn.segment).toList ++ Stroke.motions w.approachStrokes ++
      (Stroke.motions w.cutStrokes ++ w.closingStrokes.map Stroke.segment)

theorem closeBy_extend (w : Window α) :
    ((w.opening.contour w.block).extend w.opening.position w.inner).closeBy w.pen w.closing =
      w.contour := by
  simp [OpenContour.closeBy, OpenContour.close, OpenContour.extend, Opening.contour, contour,
    strokes, approachStrokes, cutStrokes, closingStrokes]

/-- The window that a command closes: the commands before it have to end with an opening command
and inner commands. -/
def closedBy? (block : UInt32) (before : List (Command α)) (c : Command α) : Option (Window α) :=
  match (before.rdropWhile isInner).getLast?.bind opening?, c.closing? with
  | some opening, some closing =>
    some
      { block := blockInForce block (before.rdropWhile isInner)
        opening
        inner := before.rtakeWhile isInner
        closing
        inner_isInner := fun _ hc => List.mem_rtakeWhile_imp hc }
  | _, _ => none

theorem closedBy?_of_isInner {block : UInt32} {before : List (Command α)}
    (h : ∀ c ∈ before, c.isInner) (c : Command α) : closedBy? block before c = none := by
  simp [closedBy?, List.rdropWhile_eq_nil_iff.2 h]

theorem closedBy?_append_of_opening?_eq_none {block : UInt32} (pre : List (Command α))
    {d : Command α} {u : List (Command α)} (hi : d.isInner = false) (hd : d.opening? = none)
    (hu : ∀ c ∈ u, c.isInner) (c : Command α) : closedBy? block (pre ++ d :: u) c = none := by
  simp [closedBy?, rdropWhile_append_cons pre hi hu, hd]

theorem closedBy?_append_of_opening {block : UInt32} (pre : List (Command α)) {o : Command α}
    {op : Opening α} {u : List (Command α)} (ho : o.opening? = some op) (hu : ∀ c ∈ u, c.isInner)
    (c : Command α) :
    closedBy? block (pre ++ o :: u) c =
      c.closing?.map fun q => ⟨blockInForce block pre, op, u, q, hu⟩ := by
  have hd := rdropWhile_append_cons pre (not_isInner_of_opening ho) hu
  have ht := rtakeWhile_append_cons pre (not_isInner_of_opening ho) hu
  have hb : blockInForce block (pre ++ [o]) = blockInForce block pre := by
    rw [blockInForce_append, blockInForce_cons, blockNumber?_of_opening ho]
    rfl
  simp only [closedBy?, hd, ht, List.getLast?_concat, Option.bind_some, ho, hb]
  cases c.closing? <;> rfl

def IsClosedBy (w : Window α) (block : UInt32) (cs : List (Command α)) (c : Command α) : Prop :=
  ∃ pre o, cs = pre ++ o :: w.inner ∧ o.opening? = some w.opening ∧
    c.closing? = some w.closing ∧ w.block = blockInForce block pre

theorem closedBy?_eq_some_iff {block : UInt32} {cs : List (Command α)} {c : Command α}
    {w : Window α} : closedBy? block cs c = some w ↔ w.IsClosedBy block cs c := by
  constructor
  · intro h
    rcases forall_or_split isInner cs with hcs | ⟨pre, d, u, rfl, hd, hu⟩
    · rw [closedBy?_of_isInner hcs] at h
      cases h
    · cases ho : d.opening? with
      | none =>
        rw [closedBy?_append_of_opening?_eq_none pre hd ho hu] at h
        cases h
      | some op =>
        rw [closedBy?_append_of_opening pre ho hu] at h
        obtain ⟨q, hq, rfl⟩ := Option.map_eq_some_iff.1 h
        exact ⟨pre, d, rfl, ho, hq, rfl⟩
  · rintro ⟨pre, o, rfl, ho, hq, hb⟩
    rw [closedBy?_append_of_opening pre ho w.inner_isInner, hq, ← hb]
    rfl

end Window

namespace ScanState

open Command

/-- Either a scan is idle, and then no command closes a window, or the last commands that it read
are an opening command and inner commands. -/
theorem idle_or_open {block : UInt32} {cs : List (Command α)} {s : ScanState α}
    (h : (start block).after? cs = some s) :
    ((∃ pen, s = ⟨blockInForce block cs, pen, none⟩) ∧
        ∀ c, Window.closedBy? block cs c = none) ∨
      ∃ pre o op u, cs = pre ++ o :: u ∧ o.opening? = some op ∧ (∀ c ∈ u, c.isInner) ∧
        s = ⟨blockInForce block cs, penAfter op.position u,
          some ((op.contour (blockInForce block pre)).extend op.position u)⟩ := by
  rcases forall_or_split isInner cs with hcs | ⟨pre, d, u, rfl, hd, hu⟩
  · rw [start, after?_idle hcs] at h
    cases h
    exact .inl ⟨⟨_, rfl⟩, Window.closedBy?_of_isInner hcs⟩
  · have hp := List.forall_mem_append.1 (isPartEnd_of_after? h)
    obtain ⟨r, hr, hb⟩ := exists_after? (start block) hp.1
    rw [after?_append, hr] at h
    have hn : blockInForce block (pre ++ d :: u) =
        blockInForce (d.blockNumber?.getD r.blockNumber) u := by
      rw [blockInForce_append, blockInForce_cons, hb]
      rfl
    rcases d.isPartEnd_or_opening_or_closing_or_isInner with hc | ⟨op, hc⟩ | ⟨q, hc⟩ | hc
    · rw [hp.2 d (by simp)] at hc
      cases hc
    · right
      refine ⟨pre, d, op, u, rfl, hc, hu, ?_⟩
      have hb' : blockInForce block pre = r.blockNumber := hb.symm
      rw [hn, blockNumber?_of_opening hc, hb']
      exact Option.some.inj (h.symm.trans (after?_opening r hc hu))
    · left
      refine ⟨?_, Window.closedBy?_append_of_opening?_eq_none pre hd (opening?_of_closing hc) hu⟩
      obtain ⟨pen, ht⟩ := after?_closing r hc hu
      rw [hn, blockNumber?_of_closing hc]
      exact ⟨pen, Option.some.inj (h.symm.trans ht)⟩
    · rw [hd] at hc
      cases hc

private theorem contour?_of_closing?_eq_none (s : ScanState α) {c : Command α}
    (h : c.closing? = none) : (s.step c).contour? = none := by
  cases hs : s.step c with
  | closed t k =>
    obtain ⟨o, q, -, hq, -⟩ := exists_closeBy_of_step hs
    rw [h] at hq
    cases hq
  | _ => rfl

/-- A command that closes a window closes its contour and leaves the scan idle. -/
theorem step_of_closedBy? {block : UInt32} {cs : List (Command α)} {s : ScanState α}
    (h : (start block).after? cs = some s) {c : Command α} {w : Window α}
    (hw : Window.closedBy? block cs c = some w) :
    s.step c = .closed ⟨blockInForce block cs, w.stop, none⟩ w.contour := by
  rcases idle_or_open h with ⟨-, hn⟩ | ⟨pre, o, op, u, rfl, ho, hu, rfl⟩
  · rw [hn c] at hw
    cases hw
  · rw [Window.closedBy?_append_of_opening pre ho hu] at hw
    obtain ⟨q, hq, rfl⟩ := Option.map_eq_some_iff.1 hw
    rw [step_open_of_closing hq]
    exact congrArg _ (Window.closeBy_extend ⟨blockInForce block pre, op, u, q, hu⟩)

/-- A command that closes no window closes no contour. -/
theorem contour?_of_closedBy?_eq_none {block : UInt32} {cs : List (Command α)} {s : ScanState α}
    (h : (start block).after? cs = some s) {c : Command α}
    (hw : Window.closedBy? block cs c = none) : (s.step c).contour? = none := by
  cases hc : c.closing? with
  | none => exact contour?_of_closing?_eq_none s hc
  | some q =>
    rcases idle_or_open h with ⟨⟨pen, rfl⟩, -⟩ | ⟨pre, o, op, u, rfl, ho, hu, rfl⟩
    · rw [step_idle_of_closing hc]
      rfl
    · rw [Window.closedBy?_append_of_opening pre ho hu, hc] at hw
      cases hw

/-- The contour that a step closes is the contour of the window that the command closes. -/
theorem contour?_step {block : UInt32} {cs : List (Command α)} {s : ScanState α}
    (h : (start block).after? cs = some s) (c : Command α) :
    (s.step c).contour? = (Window.closedBy? block cs c).map Window.contour := by
  cases hw : Window.closedBy? block cs c with
  | none => exact contour?_of_closedBy?_eq_none h hw
  | some w =>
    rw [step_of_closedBy? h hw]
    rfl

/-- Every contour comes from a window. -/
theorem exists_window {block : UInt32} {cs : List (Command α)} {c : Command α}
    {s t : ScanState α} {k : Contour α} (hs : (start block).after? cs = some s)
    (hc : s.step c = .closed t k) :
    ∃ w : Window α, w.IsClosedBy block cs c ∧ k = w.contour ∧
      t = ⟨blockInForce block cs, w.stop, none⟩ := by
  cases hw : Window.closedBy? block cs c with
  | none =>
    have hn := contour?_of_closedBy?_eq_none hs hw
    rw [hc] at hn
    cases hn
  | some w =>
    have hc' := step_of_closedBy? hs hw
    rw [hc] at hc'
    cases hc'
    exact ⟨w, Window.closedBy?_eq_some_iff.1 hw, rfl, rfl⟩

end ScanState

end SheetCut
