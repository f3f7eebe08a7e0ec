import SheetCut.Proofs.Contour.Steps

/-!
# Runs of a scan

What a scan keeps while it reads many commands. Between two commands that open or close a contour the
state is a function of the commands read: idle it only follows the block numbers, and open it has
drawn the strokes of their moves, the motions before the cutting starts in the approach and those
after it in the cut.
-/

namespace SheetCut

/-- What is found at the first of the places `0` to `n`, and then at the others. -/
theorem filterMap_range_succ {β : Type} (f : Nat → Option β) (n : Nat) :
    (List.range (n + 1)).filterMap f =
      (f 0).toList ++ (List.range n).filterMap fun i => f (i + 1) := by
  rw [List.range_succ_eq_map, List.filterMap_cons, List.filterMap_map]
  cases f 0 <;> rfl

variable {α : Type} [Scalar α]

namespace Command

omit [Scalar α] in
@[simp] theorem blockInForce_nil (block : UInt32) :
    blockInForce block ([] : List (Command α)) = block := rfl

omit [Scalar α] in
theorem blockInForce_cons (block : UInt32) (c : Command α) (cs : List (Command α)) :
    blockInForce block (c :: cs) = blockInForce (c.blockNumber?.getD block) cs := by
  unfold blockInForce
  cases hc : c.blockNumber? with
  | none => rw [List.filterMap_cons_none hc]; rfl
  | some n =>
    rw [List.filterMap_cons_some hc, List.getLast?_cons, Option.getD_some, Option.getD_some]

omit [Scalar α] in
theorem blockInForce_append (block : UInt32) (cs ds : List (Command α)) :
    blockInForce block (cs ++ ds) = blockInForce (blockInForce block cs) ds := by
  induction cs generalizing block with
  | nil => rfl
  | cons c cs ih => rw [List.cons_append, blockInForce_cons, blockInForce_cons, ih]

def moves (cs : List (Command α)) : List (Move α) := cs.flatMap fun c => c.move?.toList

/-- What the commands draw in an open contour when the first of them finds the pen at `pen`. -/
def strokes (pen : Point α) (cs : List (Command α)) : List (Stroke α) := Move.strokes pen (moves cs)

def penAfter (pen : Point α) (cs : List (Command α)) : Point α := Move.penAfter pen (moves cs)

omit [Scalar α] in
/-- The commands that are read before the cutting starts. -/
def approach (cutting : Bool) (cs : List (Command α)) : List (Command α) :=
  if cutting then [] else cs.takeWhile fun c => !c.startsCutting

omit [Scalar α] in
def cut (cutting : Bool) (cs : List (Command α)) : List (Command α) :=
  if cutting then cs else cs.dropWhile fun c => !c.startsCutting

@[simp] theorem strokes_nil (pen : Point α) : strokes pen [] = [] := rfl

@[simp] theorem penAfter_nil (pen : Point α) : penAfter pen [] = pen := rfl

theorem strokes_append (pen : Point α) (cs ds : List (Command α)) :
    strokes pen (cs ++ ds) = strokes pen cs ++ strokes (penAfter pen cs) ds := by
  rw [strokes, moves, List.flatMap_append, Move.strokes_append]
  rfl

theorem strokes_cons (pen : Point α) (c : Command α) (cs : List (Command α)) :
    strokes pen (c :: cs) =
      Move.strokes pen c.move?.toList ++ strokes (Move.penAfter pen c.move?.toList) cs := by
  rw [strokes, moves, List.flatMap_cons, Move.strokes_append]
  rfl

theorem penAfter_cons (pen : Point α) (c : Command α) (cs : List (Command α)) :
    penAfter pen (c :: cs) = penAfter (Move.penAfter pen c.move?.toList) cs := by
  rw [penAfter, moves, List.flatMap_cons, Move.penAfter_append]
  rfl

omit [Scalar α] in
theorem approach_append_cut (cutting : Bool) (cs : List (Command α)) :
    approach cutting cs ++ cut cutting cs = cs := by
  cases cutting
  · exact List.takeWhile_append_dropWhile
  · rfl

theorem not_startsCutting_of_move {c : Command α} {m : Move α} (h : c.move? = some m) :
    c.startsCutting = false := by
  unfold move? at h
  split at h
  · rfl
  · rfl
  · cases h

end Command

open Command in
/-- The open contour after the commands, the first of which finds the pen at `pen`. -/
def OpenContour.extend (k : OpenContour α) (pen : Point α) (cs : List (Command α)) :
    OpenContour α :=
  { k with
    leadIn := (Stroke.leadIn? (strokes pen cs)).or k.leadIn
    approachPath := k.approachPath ++ Stroke.motions (strokes pen (approach k.cutting cs))
    cuttingPath :=
      k.cuttingPath ++
        Stroke.motions (strokes (penAfter pen (approach k.cutting cs)) (cut k.cutting cs))
    cutting := k.cutting || cs.any startsCutting }

open Command in
theorem OpenContour.extend_cons (k : OpenContour α) (pen : Point α) (c : Command α)
    (cs : List (Command α)) :
    k.extend pen (c :: cs) = (k.record pen c).extend (Move.penAfter pen c.move?.toList) cs := by
  cases hm : c.move? with
  | some m =>
    have hs := not_startsCutting_of_move hm
    cases hk : k.cutting <;> cases hl : m.isLeadIn <;>
      simp [extend, record, push, hm, hl, hs, hk, approach, cut, strokes_cons, penAfter_cons,
        Move.strokes, Stroke.leadIn?_cons, Stroke.motions_cons]
  | none =>
    cases hs : c.startsCutting <;> cases hk : k.cutting <;>
      simp [extend, record, hm, hs, hk, approach, cut, strokes_cons, penAfter_cons, Move.strokes]

namespace ScanState

/-- The state after the commands; there is none after the part end. -/
def after? (s : ScanState α) (cs : List (Command α)) : Option (ScanState α) :=
  cs.foldlM (fun s c => (s.step c).state?) s

theorem after?_cons (s : ScanState α) (c : Command α) (cs : List (Command α)) :
    s.after? (c :: cs) = (s.step c).state?.bind fun t => t.after? cs := List.foldlM_cons

theorem after?_append (s : ScanState α) (cs ds : List (Command α)) :
    s.after? (cs ++ ds) = (s.after? cs).bind fun t => t.after? ds := List.foldlM_append

open Command

/-- Idle, a scan stays idle until a contour opens. -/
theorem after?_idle {block : UInt32} {pen : Point α} {u : List (Command α)}
    (hu : ∀ c ∈ u, c.isInner) :
    after? ⟨block, pen, none⟩ u = some ⟨blockInForce block u, pen, none⟩ := by
  induction u generalizing block with
  | nil => rfl
  | cons c u ih =>
    obtain ⟨hc, hu⟩ := List.forall_mem_cons.1 hu
    rw [after?_cons, step_idle_of_isInner hc, blockInForce_cons]
    exact ih hu

/-- With a contour open, inner commands extend it. -/
theorem after?_open {block : UInt32} {pen : Point α} {k : OpenContour α} {u : List (Command α)}
    (hu : ∀ c ∈ u, c.isInner) :
    after? ⟨block, pen, some k⟩ u =
      some ⟨blockInForce block u, penAfter pen u, some (k.extend pen u)⟩ := by
  induction u generalizing block pen k with
  | nil => simp [after?, OpenContour.extend, approach, cut]
  | cons c u ih =>
    obtain ⟨hc, hu⟩ := List.forall_mem_cons.1 hu
    rw [after?_cons, step_open_of_isInner hc, blockInForce_cons, penAfter_cons,
      OpenContour.extend_cons]
    exact ih hu

/-- After an opening command only the block number tells anything of what was before it. -/
theorem after?_opening (s : ScanState α) {c : Command α} {o : Opening α} {u : List (Command α)}
    (hc : c.opening? = some o) (hu : ∀ c ∈ u, c.isInner) :
    s.after? (c :: u) =
      some ⟨blockInForce s.blockNumber u, penAfter o.position u,
        some ((o.contour s.blockNumber).extend o.position u)⟩ := by
  rw [after?_cons, step_of_opening hc]
  exact after?_open hu

/-- After a closing command a scan is idle. -/
theorem after?_closing (s : ScanState α) {c : Command α} {q : Closing α} {u : List (Command α)}
    (hc : c.closing? = some q) (hu : ∀ c ∈ u, c.isInner) :
    ∃ pen, s.after? (c :: u) = some ⟨blockInForce s.blockNumber u, pen, none⟩ := by
  obtain ⟨block, pen, k⟩ := s
  rw [after?_cons]
  cases k with
  | none => exact ⟨pen, by rw [step_idle_of_closing hc]; exact after?_idle hu⟩
  | some k =>
    refine ⟨Move.penAfter pen (q.move? pen).toList, ?_⟩
    rw [step_open_of_closing hc]
    exact after?_idle hu

/-- Every command but the part end has a state to go on with, which knows the block number. -/
theorem exists_state?_step (s : ScanState α) {c : Command α} (h : c.isPartEnd = false) :
    ∃ t, (s.step c).state? = some t ∧ t.blockNumber = c.blockNumber?.getD s.blockNumber := by
  obtain ⟨block, pen, k⟩ := s
  rcases c.isPartEnd_or_opening_or_closing_or_isInner with hc | ⟨o, hc⟩ | ⟨q, hc⟩ | hc
  · rw [h] at hc
    cases hc
  · rw [step_of_opening hc, blockNumber?_of_opening hc]
    exact ⟨_, rfl, rfl⟩
  · rw [blockNumber?_of_closing hc]
    cases k with
    | none => rw [step_idle_of_closing hc]; exact ⟨_, rfl, rfl⟩
    | some k => rw [step_open_of_closing hc]; exact ⟨_, rfl, rfl⟩
  · cases k with
    | none => rw [step_idle_of_isInner hc]; exact ⟨_, rfl, rfl⟩
    | some k => rw [step_open_of_isInner hc]; exact ⟨_, rfl, rfl⟩

/-- Only the part end stops a scan, which always knows the number of the last block marker. -/
theorem exists_after? (s : ScanState α) {cs : List (Command α)}
    (h : ∀ c ∈ cs, c.isPartEnd = false) :
    ∃ t, s.after? cs = some t ∧ t.blockNumber = blockInForce s.blockNumber cs := by
  induction cs generalizing s with
  | nil => exact ⟨s, rfl, rfl⟩
  | cons c cs ih =>
    obtain ⟨hc, h⟩ := List.forall_mem_cons.1 h
    obtain ⟨r, hr, hb⟩ := s.exists_state?_step hc
    obtain ⟨t, ht, hn⟩ := ih r h
    refine ⟨t, ?_, ?_⟩
    · rw [after?_cons, hr]
      exact ht
    · rw [hn, hb, blockInForce_cons]

theorem isPartEnd_of_after? {s t : ScanState α} {cs : List (Command α)}
    (h : s.after? cs = some t) : ∀ c ∈ cs, c.isPartEnd = false := by
  induction cs generalizing s with
  | nil => exact List.forall_mem_nil _
  | cons c cs ih =>
    rw [after?_cons] at h
    obtain ⟨r, hr, h⟩ := Option.bind_eq_some_iff.1 h
    refine List.forall_mem_cons.2 ⟨?_, ih h⟩
    cases hc : c.isPartEnd with
    | false => rfl
    | true =>
      rw [step_of_isPartEnd hc] at hr
      cases hr

end ScanState

end SheetCut
