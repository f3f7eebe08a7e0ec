import SheetCut.Contour.Scan

/-!
# Moves of the pen

A command that draws moves the pen to a new place. The strokes of a row of moves are drawn one after
the other, each from the place where the move before it stopped, so they always form a connected
path. Nothing here refers to the state of a scan.
-/

namespace SheetCut

variable {α : Type} [Scalar α]

theorem Segment.isSome_build?_iff {code : Int32} {p q : Point α} {i j : α} :
    (Segment.build? code p q i j).isSome ↔ 0 ≤ code.toInt ∧ code.toInt ≤ 3 := by
  unfold Segment.build?
  split <;> simp_all
  omega

theorem Segment.build?_ends {code : Int32} {p q : Point α} {i j : α} {s : Segment α}
    (h : Segment.build? code p q i j = some s) : s.start = p ∧ s.stop = q := by
  unfold Segment.build? at h
  split at h <;> cases h <;> exact ⟨rfl, rfl⟩

/-- A command that draws: a lead-in or a motion whose code builds a segment. -/
structure Move (α : Type) where
  isLeadIn : Bool
  code : Int32
  stop : Point α
  i : α
  j : α
  code_range : 0 ≤ code.toInt ∧ code.toInt ≤ 3

structure Stroke (α : Type) where
  move : Move α
  segment : Segment α

namespace Move

def segment (m : Move α) (pen : Point α) : Segment α :=
  (Segment.build? m.code pen m.stop m.i m.j).get (Segment.isSome_build?_iff.2 m.code_range)

theorem build?_eq (m : Move α) (pen : Point α) :
    Segment.build? m.code pen m.stop m.i m.j = some (m.segment pen) := by simp [segment]

@[simp] theorem start_segment (m : Move α) (pen : Point α) : (m.segment pen).start = pen :=
  (Segment.build?_ends (m.build?_eq pen)).1

@[simp] theorem stop_segment (m : Move α) (pen : Point α) : (m.segment pen).stop = m.stop :=
  (Segment.build?_ends (m.build?_eq pen)).2

/-- The place of the pen after the moves: where the last of them stopped. -/
def penAfter (pen : Point α) (moves : List (Move α)) : Point α :=
  (moves.getLast?.map Move.stop).getD pen

/-- Every move is drawn from the place where the move before it stopped. -/
def strokes (pen : Point α) : List (Move α) → List (Stroke α)
  | [] => []
  | m :: ms => ⟨m, m.segment pen⟩ :: strokes m.stop ms

omit [Scalar α] in
@[simp] theorem penAfter_nil (pen : Point α) : penAfter pen [] = pen := rfl

omit [Scalar α] in
@[simp] theorem penAfter_cons (pen : Point α) (m : Move α) (ms : List (Move α)) :
    penAfter pen (m :: ms) = penAfter m.stop ms := by
  rw [penAfter, penAfter, List.getLast?_cons]
  cases ms.getLast? <;> rfl

omit [Scalar α] in
theorem penAfter_append (pen : Point α) (ms ns : List (Move α)) :
    penAfter pen (ms ++ ns) = penAfter (penAfter pen ms) ns := by
  induction ms generalizing pen with
  | nil => rfl
  | cons m ms ih => rw [List.cons_append, penAfter_cons, penAfter_cons, ih]

theorem strokes_append (pen : Point α) (ms ns : List (Move α)) :
    strokes pen (ms ++ ns) = strokes pen ms ++ strokes (penAfter pen ms) ns := by
  induction ms generalizing pen with
  | nil => rfl
  | cons m ms ih => rw [List.cons_append, strokes, strokes, ih, penAfter_cons, List.cons_append]

end Move

def Segment.Connected (p : Point α) : List (Segment α) → Point α → Prop
  | [], q => p = q
  | s :: ss, q => s.start = p ∧ Segment.Connected s.stop ss q

theorem Move.connected_strokes (pen : Point α) (ms : List (Move α)) :
    Segment.Connected pen ((strokes pen ms).map Stroke.segment) (penAfter pen ms) := by
  induction ms generalizing pen with
  | nil => rfl
  | cons m ms ih =>
    rw [strokes, List.map_cons, penAfter_cons]
    refine ⟨m.start_segment pen, ?_⟩
    rw [stop_segment]
    exact ih m.stop

namespace Stroke

omit [Scalar α]

/-- The last lead-in among the strokes; it replaces the earlier ones. -/
def leadIn? (ss : List (Stroke α)) : Option (LeadIn α) :=
  (ss.filter fun t => t.move.isLeadIn).getLast?.map fun t => ⟨t.move.code, t.segment⟩

def motions (ss : List (Stroke α)) : List (Segment α) :=
  (ss.filter fun t => !t.move.isLeadIn).map Stroke.segment

@[simp] theorem leadIn?_nil : leadIn? ([] : List (Stroke α)) = none := rfl

theorem leadIn?_cons (t : Stroke α) (ts : List (Stroke α)) :
    leadIn? (t :: ts) =
      (leadIn? ts).or (if t.move.isLeadIn then some ⟨t.move.code, t.segment⟩ else none) := by
  by_cases h : t.move.isLeadIn
  · rw [leadIn?, leadIn?, List.filter_cons, if_pos h, List.getLast?_cons, if_pos h]
    cases (ts.filter fun t => t.move.isLeadIn).getLast? <;> rfl
  · rw [leadIn?, leadIn?, List.filter_cons, if_neg h, if_neg h, Option.or_none]

theorem leadIn?_append (ss ts : List (Stroke α)) :
    leadIn? (ss ++ ts) = (leadIn? ts).or (leadIn? ss) := by
  induction ss with
  | nil => rw [List.nil_append, leadIn?_nil, Option.or_none]
  | cons s ss ih => rw [List.cons_append, leadIn?_cons, leadIn?_cons, ih, Option.or_assoc]

@[simp] theorem motions_nil : motions ([] : List (Stroke α)) = [] := rfl

theorem motions_cons (t : Stroke α) (ts : List (Stroke α)) :
    motions (t :: ts) = (if t.move.isLeadIn then [] else [t.segment]) ++ motions ts := by
  cases h : t.move.isLeadIn <;> simp [motions, h]

theorem motions_append (ss ts : List (Stroke α)) :
    motions (ss ++ ts) = motions ss ++ motions ts := by
  rw [motions, List.filter_append, List.map_append]
  rfl

end Stroke

end SheetCut
