import SheetCut.Proofs.Contour.Windows

/-!
# The contours of a part

A scan without a part end closes one contour for each closing command whose nearest opening or
closing command before it is an opening one. Such a contour is that of its window, so nothing else
of the part has any influence on it.
-/

namespace SheetCut

variable {α : Type} [Scalar α]

namespace ScanState

/-- The contour that the command at place `i` closes. -/
def closedAt? (s : ScanState α) (cs : List (Command α)) (i : Nat) : Option (Contour α) :=
  (s.after? (cs.take i)).bind fun t => cs[i]?.bind fun c => (t.step c).contour?

theorem closedAt?_zero (s : ScanState α) (c : Command α) (cs : List (Command α)) :
    s.closedAt? (c :: cs) 0 = (s.step c).contour? := rfl

theorem closedAt?_succ (s : ScanState α) (c : Command α) (cs : List (Command α)) (i : Nat) :
    s.closedAt? (c :: cs) (i + 1) = (s.step c).state?.bind fun t => t.closedAt? cs i := by
  rw [closedAt?, List.take_succ_cons, after?_cons, List.getElem?_cons_succ, Option.bind_assoc]
  rfl

/-- The contours of a scan are those closed at the single places, in order. -/
theorem contours_eq_filterMap (s : ScanState α) (cs : List (Command α)) :
    s.contours cs = (List.range cs.length).filterMap (s.closedAt? cs) := by
  induction cs generalizing s with
  | nil => rfl
  | cons c cs ih =>
    have hs : (fun i => s.closedAt? (c :: cs) (i + 1)) =
        fun i => (s.step c).state?.bind fun t => t.closedAt? cs i :=
      funext (s.closedAt?_succ c cs)
    rw [List.length_cons, filterMap_range_succ, closedAt?_zero, hs, contours]
    cases s.step c with
    | scanning t => exact ih t
    | closed t k => exact congrArg (List.cons k) (ih t)
    | partEnd => simp [ScanStep.contour?, ScanStep.state?]

end ScanState

namespace Window

open Command

def endingAt? (block : UInt32) (cs : List (Command α)) (i : Nat) : Option (Window α) :=
  cs[i]?.bind (closedBy? block (cs.take i))

theorem endingAt?_append {block : UInt32} (before : List (Command α)) (c : Command α)
    (post : List (Command α)) :
    endingAt? block (before ++ c :: post) before.length = closedBy? block before c := by
  rw [endingAt?, List.getElem?_append_right le_rfl, Nat.sub_self, List.take_left' rfl]
  rfl

/-- A window ends at the closing commands that have an opening command before them with nothing but
inner commands in between. -/
theorem endingAt?_eq_some_iff {block : UInt32} {cs : List (Command α)} {i : Nat} {w : Window α} :
    endingAt? block cs i = some w ↔ ∃ pre o c post,
      cs = (pre ++ o :: w.inner) ++ c :: post ∧ i = (pre ++ o :: w.inner).length ∧
        o.opening? = some w.opening ∧ c.closing? = some w.closing ∧
          w.block = blockInForce block pre := by
  constructor
  · intro h
    obtain ⟨c, hc, hw⟩ := Option.bind_eq_some_iff.1 h
    obtain ⟨hi, rfl⟩ := List.getElem?_eq_some_iff.1 hc
    obtain ⟨pre, o, htake, ho, hq, hb⟩ := closedBy?_eq_some_iff.1 hw
    refine ⟨pre, o, cs[i], cs.drop (i + 1), ?_, ?_, ho, hq, hb⟩
    · rw [← htake, ← List.drop_eq_getElem_cons hi, List.take_append_drop]
    · rw [← htake, List.length_take, Nat.min_eq_left hi.le]
  · rintro ⟨pre, o, c, post, rfl, rfl, ho, hq, hb⟩
    rw [endingAt?_append]
    exact closedBy?_eq_some_iff.2 ⟨pre, o, rfl, ho, hq, hb⟩

end Window

namespace ScanState

open Command

theorem closedAt?_start {block : UInt32} {cs : List (Command α)}
    (h : ∀ c ∈ cs, c.isPartEnd = false) (i : Nat) :
    (start block).closedAt? cs i = (Window.endingAt? block cs i).map Window.contour := by
  obtain ⟨s, hs, -⟩ := exists_after? (start block) fun c hc => h c (List.mem_of_mem_take hc)
  rw [closedAt?, hs, Window.endingAt?]
  cases cs[i]? with
  | none => rfl
  | some c => exact contour?_step hs c

theorem closedAt?_append (s : ScanState α) (before : List (Command α)) (c : Command α)
    (post : List (Command α)) :
    s.closedAt? (before ++ c :: post) before.length =
      (s.after? before).bind fun t => (t.step c).contour? := by
  rw [closedAt?, List.getElem?_append_right le_rfl, Nat.sub_self, List.take_left' rfl]
  rfl

/-- The closing command of a window closes its contour, whatever stands around the window. -/
theorem closedAt?_window {block : UInt32} {pre u : List (Command α)} {o c : Command α}
    {op : Opening α} {q : Closing α} (h : ∀ d ∈ pre, d.isPartEnd = false)
    (ho : o.opening? = some op) (hu : ∀ d ∈ u, d.isInner) (hq : c.closing? = some q)
    (post : List (Command α)) :
    (start block).closedAt? ((pre ++ o :: u) ++ c :: post) (pre ++ o :: u).length =
      some (Window.contour ⟨blockInForce block pre, op, u, q, hu⟩) := by
  obtain ⟨r, hr, -⟩ := exists_after? (start block) h
  have hs := after?_append (start block) pre (o :: u)
  rw [hr, Option.bind_some, after?_opening r ho hu] at hs
  rw [closedAt?_append, hs, Option.bind_some, contour?_step hs,
    Window.closedBy?_append_of_opening pre ho hu, hq]
  rfl

end ScanState

open Command in
/-- A scan closes one contour for each window, in the order of their closing commands, and nothing
else. A contour depends only on the commands of its window and on the block number in force before
them: in another scan these give the same contour. -/
theorem contours_eq_windows {block : UInt32} {cs : List (Command α)}
    (h : ∀ c ∈ cs, c.isPartEnd = false) :
    (ScanState.start block).contours cs =
        ((List.range cs.length).filterMap (Window.endingAt? block cs)).map Window.contour ∧
      (∀ i w, Window.endingAt? block cs i = some w ↔ ∃ pre o c post,
        cs = (pre ++ o :: w.inner) ++ c :: post ∧ i = (pre ++ o :: w.inner).length ∧
          o.opening? = some w.opening ∧ c.closing? = some w.closing ∧
            w.block = blockInForce block pre) ∧
      (ScanState.start block).contours cs =
        (List.range cs.length).filterMap ((ScanState.start block).closedAt? cs) ∧
      ∀ pre o u c post, cs = (pre ++ o :: u) ++ c :: post → o.opening?.isSome →
        (∀ d ∈ u, d.isInner) → c.closing?.isSome →
        ∃ k, (ScanState.start block).closedAt? cs (pre ++ o :: u).length = some k ∧
          ∀ block' pre' post', (∀ d ∈ pre', d.isPartEnd = false) →
            blockInForce block' pre' = blockInForce block pre →
            (ScanState.start block').closedAt? ((pre' ++ o :: u) ++ c :: post')
              (pre' ++ o :: u).length = some k := by
  have hc := (ScanState.start block).contours_eq_filterMap cs
  refine ⟨?_, fun _ _ => Window.endingAt?_eq_some_iff, hc, ?_⟩
  · rw [hc, List.map_filterMap]
    exact congrArg (List.filterMap · _) (funext (ScanState.closedAt?_start h))
  · rintro pre o u c post rfl ho hu hq
    obtain ⟨op, ho⟩ := Option.isSome_iff_exists.1 ho
    obtain ⟨q, hq⟩ := Option.isSome_iff_exists.1 hq
    have hpre : ∀ d ∈ pre, d.isPartEnd = false := fun d hd => h d (by simp [hd])
    refine ⟨_, ScanState.closedAt?_window hpre ho hu hq post, ?_⟩
    intro block' pre' post' hpre' hb
    rw [ScanState.closedAt?_window hpre' ho hu hq post']
    simp only [hb]

/-- A contour is opened twice and closed twice. -/
def reopened : List (Command Float) :=
  [.call (.contourStart ⟨1⟩ ⟨1⟩ 0 0 0 10 10), .blockMarker 2,
    .call (.contourStart ⟨1⟩ ⟨1⟩ 5 5 0 10 10), .call .startCut, .call (.contourEnd 1 0 0 0 0 0),
    .call (.remnantPhase 2)]

/-- Only the second opening command and the first closing one are those of a window. -/
theorem contours_eq_windows_reopened :
    (∀ c ∈ reopened, c.isPartEnd = false) ∧
      (ScanState.start 1).contours reopened =
        ((List.range 6).filterMap (Window.endingAt? 1 reopened)).map Window.contour ∧
      ∃ k, (ScanState.start 1).contours reopened = [k] ∧
        (ScanState.start 1).closedAt? reopened 4 = some k ∧ k.blockNumber = 2 := by
  have h : ∀ c ∈ reopened, c.isPartEnd = false := by simp [reopened, Command.isPartEnd]
  exact ⟨h, (contours_eq_windows h).1, _, rfl, rfl, rfl⟩

end SheetCut
