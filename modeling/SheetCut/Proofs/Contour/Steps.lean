import SheetCut.Proofs.Contour.Moves

/-!
# What one command does to a scan

Commands fall into four classes: those that open a contour, those that close one, the part end, and
all others. There is one equation of the step function for each class, with a contour open and
without one; they are all that the later modules use of it.
-/

namespace SheetCut

variable {α : Type} [Scalar α]

structure Opening (α : Type) where
  piercingType : Code .piercing
  cuttingType : Code .cutting
  position : Point α
  toolCompensation : Int32
  declaredSize : Extent α
  remnant : Bool

inductive Closing (α : Type) where
  | contourEnd (code : Int32) (stop : Point α) (i j : α) (web : Int32)
  | remnantEnd

namespace Closing

/-- The move that closes the gap from the pen to the end point, if there is a gap. -/
def move? (pen : Point α) : Closing α → Option (Move α)
  | contourEnd code stop i j _ =>
    if h : (1 ≤ code.toInt ∧ code.toInt ≤ 3) ∧ stop.near pen = false then
      some ⟨false, code, stop, i, j, by omega⟩
    else none
  | remnantEnd => none

theorem isLeadIn_of_move {pen : Point α} {q : Closing α} {m : Move α} (h : q.move? pen = some m) :
    m.isLeadIn = false := by
  unfold move? at h
  split at h
  · split at h <;> cases h
    rfl
  · cases h

def endCode : Closing α → Int32
  | contourEnd code .. => code
  | remnantEnd => 0

def endPosition (pen : Point α) : Closing α → Point α
  | contourEnd _ stop .. => stop
  | remnantEnd => pen

def web : Closing α → Int32
  | contourEnd _ _ _ _ web => web
  | remnantEnd => 0

end Closing

namespace Command

def opening? : Command α → Option (Opening α)
  | call (.contourStart piercingType cuttingType x y toolCompensation width height) =>
    some ⟨piercingType, cuttingType, ⟨x, y⟩, toolCompensation, ⟨width, height⟩, false⟩
  | call (.remnantStart cuttingType _ x y) =>
    some ⟨Code.noPiercing, cuttingType, ⟨x, y⟩, 0, ⟨0, 0⟩, true⟩
  | _ => none

omit [Scalar α] in
def closing? : Command α → Option (Closing α)
  | call (.contourEnd code x y i j web) => some (.contourEnd code ⟨x, y⟩ i j web)
  | call (.remnantPhase phase) => if phase = 2 then some .remnantEnd else none
  | _ => none

def isPartEnd : Command α → Bool
  | call .partEnd => true
  | _ => false

/-- The command neither opens nor closes a contour, nor ends the part. -/
def isInner (c : Command α) : Bool := c.opening?.isNone && c.closing?.isNone && !c.isPartEnd

theorem isPartEnd_or_opening_or_closing_or_isInner (c : Command α) :
    c.isPartEnd ∨ (∃ o, c.opening? = some o) ∨ (∃ q, c.closing? = some q) ∨ c.isInner := by
  cases ho : c.opening? with
  | some o => exact .inr (.inl ⟨o, rfl⟩)
  | none =>
    cases hq : c.closing? with
    | some q => exact .inr (.inr (.inl ⟨q, rfl⟩))
    | none => cases hp : c.isPartEnd <;> simp [isInner, ho, hq, hp]

theorem not_isInner_of_opening {c : Command α} {o : Opening α} (h : c.opening? = some o) :
    c.isInner = false := by simp [isInner, h]

theorem opening?_of_closing {c : Command α} {q : Closing α} (h : c.closing? = some q) :
    c.opening? = none := by
  unfold closing? at h
  split at h
  · rfl
  · rfl
  · cases h

theorem blockNumber?_of_opening {c : Command α} {o : Opening α} (h : c.opening? = some o) :
    c.blockNumber? = none := by
  unfold opening? at h
  split at h <;> cases h <;> rfl

omit [Scalar α] in
theorem blockNumber?_of_closing {c : Command α} {q : Closing α} (h : c.closing? = some q) :
    c.blockNumber? = none := by
  unfold closing? at h
  split at h
  · rfl
  · rfl
  · cases h

def startsCutting : Command α → Bool
  | call .startCut => true
  | call (.remnantPhase phase) => phase = 1
  | _ => false

def move? : Command α → Option (Move α)
  | call (.leadIn code x y i j) =>
    if h : 1 ≤ code.toInt ∧ code.toInt ≤ 3 then some ⟨true, code, ⟨x, y⟩, i, j, by omega⟩ else none
  | motion m =>
    match m.geometryCode?, m.target? with
    | some code, some (x, y) =>
      if h : 0 ≤ code.toInt ∧ code.toInt ≤ 3 then
        some ⟨false, code, ⟨x, y⟩, m.i.getD 0, m.j.getD 0, h⟩
      else none
    | _, _ => none
  | _ => none

/-- The number of the last block marker among the commands, or else `block`. -/
def blockInForce (block : UInt32) (cs : List (Command α)) : UInt32 :=
  (cs.filterMap blockNumber?).getLast?.getD block

end Command

/-- The contour as its opening command leaves it. -/
def Opening.contour (o : Opening α) (block : UInt32) : OpenContour α where
  blockNumber := block
  piercingType := o.piercingType
  cuttingType := o.cuttingType
  piercingPosition := o.position
  toolCompensation := o.toolCompensation
  declaredSize := o.declaredSize
  remnant := o.remnant
  leadIn := none
  approachPath := []
  cuttingPath := []
  cutting := o.remnant

namespace OpenContour

/-- The open contour after one more command, which found the pen at `pen`. -/
def record (k : OpenContour α) (pen : Point α) (c : Command α) : OpenContour α :=
  match c.move? with
  | some m =>
    if m.isLeadIn then { k with leadIn := some ⟨m.code, m.segment pen⟩ } else k.push (m.segment pen)
  | none => if c.startsCutting then { k with cutting := true } else k

def closeBy (k : OpenContour α) (pen : Point α) (q : Closing α) : Contour α :=
  { k with
    cuttingPath :=
      k.cuttingPath ++ (Move.strokes pen (q.move? pen).toList).map Stroke.segment }.close
    q.endCode (q.endPosition pen) q.web

end OpenContour

namespace ScanStep

omit [Scalar α]

def state? : ScanStep α → Option (ScanState α)
  | scanning s => some s
  | closed s _ => some s
  | partEnd => none

def contour? : ScanStep α → Option (Contour α)
  | closed _ k => some k
  | _ => none

end ScanStep

namespace ScanState

variable {s : ScanState α} {block : UInt32} {pen : Point α} {k : OpenContour α} {c : Command α}

theorem step_of_isPartEnd (h : c.isPartEnd) : s.step c = .partEnd := by
  unfold Command.isPartEnd at h
  split at h
  · rfl
  · cases h

/-- A contour opens, whatever the state was; of the old state only the block number stays. -/
theorem step_of_opening {o : Opening α} (h : c.opening? = some o) :
    s.step c = .scanning ⟨s.blockNumber, o.position, some (o.contour s.blockNumber)⟩ := by
  unfold Command.opening? at h
  split at h <;> cases h <;> rfl

/-- Without an open contour there is nothing to be closed. -/
theorem step_idle_of_closing {q : Closing α} (h : c.closing? = some q) :
    step ⟨block, pen, none⟩ c = .scanning ⟨block, pen, none⟩ := by
  unfold Command.closing? at h
  split at h
  · rfl
  · split at h
    · rename_i h2
      subst h2
      rfl
    · cases h
  · cases h

/-- The end point is reached by the closing move, if there is one, and else left alone. -/
private theorem cutTo_eq {code : Int32} {stop : Point α} {i j : α} (web : Int32) :
    (⟨block, pen, some k⟩ : ScanState α).cutTo k code stop i j =
      (⟨block, Move.penAfter pen ((Closing.contourEnd code stop i j web).move? pen).toList, some k⟩,
        { k with
          cuttingPath := k.cuttingPath ++
            (Move.strokes pen ((Closing.contourEnd code stop i j web).move? pen).toList).map
              Stroke.segment }) := by
  by_cases h : (1 ≤ code.toInt ∧ code.toInt ≤ 3) ∧ stop.near pen = false
  · have hz : code ≠ 0 := by rintro rfl; simp at h
    have hb := Move.build?_eq ⟨false, code, stop, i, j, by omega⟩ pen
    simp only at hb
    simp [cutTo, Closing.move?, h, hz, hb, Move.strokes]
  · have hm : (Closing.contourEnd code stop i j web).move? pen = none := by simp [Closing.move?, h]
    have hs : (⟨block, pen, some k⟩ : ScanState α).cutTo k code stop i j =
        (⟨block, pen, some k⟩, k) := by
      by_cases hc : code ≠ 0 ∧ stop.near pen = false
      · have hn : Segment.build? code pen stop i j = none := by
          rw [← Option.not_isSome_iff_eq_none, Segment.isSome_build?_iff]
          intro hr
          have : code.toInt ≠ 0 := fun h0 => hc.1 (Int32.toInt.inj (by simpa using h0))
          exact h ⟨by omega, hc.2⟩
        simp [cutTo, hc, hn]
      · simp [cutTo, hc]
    rw [hs, hm]
    simp [Move.strokes]

theorem step_open_of_closing {q : Closing α} (h : c.closing? = some q) :
    step ⟨block, pen, some k⟩ c =
      .closed ⟨block, Move.penAfter pen (q.move? pen).toList, none⟩ (k.closeBy pen q) := by
  unfold Command.closing? at h
  split at h
  · rename_i code x y i j web
    cases h
    simp only [step, call]
    rw [cutTo_eq web]
    rfl
  · split at h
    · rename_i h2
      cases h
      subst h2
      simp [step, call, Closing.move?, OpenContour.closeBy, Move.strokes, Closing.endCode,
        Closing.endPosition, Closing.web]
    · cases h
  · cases h

/-- Without an open contour an inner command changes at most the block number. -/
theorem step_idle_of_isInner (h : c.isInner) :
    step ⟨block, pen, none⟩ c = .scanning ⟨c.blockNumber?.getD block, pen, none⟩ := by
  cases c with
  | comment t => rfl
  | blockMarker n => rfl
  | motion m => rfl
  | call c =>
    cases c <;> simp_all [step, call, Command.blockNumber?, Command.isInner, Command.opening?,
      Command.closing?, Command.isPartEnd, recordLeadIn, startCutting]

private theorem recordLeadIn_eq {code : Int32} {x y i j : α} :
    (⟨block, pen, some k⟩ : ScanState α).recordLeadIn code ⟨x, y⟩ i j =
      ⟨block, Move.penAfter pen (Command.call (.leadIn code x y i j)).move?.toList,
        some (k.record pen (.call (.leadIn code x y i j)))⟩ := by
  by_cases h : 1 ≤ code.toInt ∧ code.toInt ≤ 3
  · have hz : code ≠ 0 := by rintro rfl; simp at h
    have hb := Move.build?_eq ⟨true, code, ⟨x, y⟩, i, j, by omega⟩ pen
    simp only at hb
    simp [recordLeadIn, hz, hb, Command.move?, h, OpenContour.record]
  · have hm : (Command.call (.leadIn code x y i j)).move? = none := by simp [Command.move?, h]
    rw [OpenContour.record, hm]
    by_cases hz : code = 0
    · simp [recordLeadIn, hz, Command.startsCutting]
    · have hn : Segment.build? code pen ⟨x, y⟩ i j = none := by
        rw [← Option.not_isSome_iff_eq_none, Segment.isSome_build?_iff]
        intro hr
        have : code.toInt ≠ 0 := fun h0 => hz (Int32.toInt.inj (by simpa using h0))
        omega
      simp [recordLeadIn, hn, Command.startsCutting]

private theorem recordMotion_eq {m : Motion α} :
    (⟨block, pen, some k⟩ : ScanState α).recordMotion m =
      ⟨block, Move.penAfter pen (Command.motion m).move?.toList,
        some (k.record pen (.motion m))⟩ := by
  cases hg : m.geometryCode? with
  | none => simp [Command.move?, hg, recordMotion, OpenContour.record, Command.startsCutting]
  | some code =>
    rcases ht : m.target? with _ | ⟨x, y⟩
    · simp [Command.move?, hg, ht, recordMotion, OpenContour.record, Command.startsCutting]
    · by_cases h : 0 ≤ code.toInt ∧ code.toInt ≤ 3
      · have hb := Move.build?_eq ⟨false, code, ⟨x, y⟩, m.i.getD 0, m.j.getD 0, h⟩ pen
        simp only at hb
        simp [recordMotion, hg, ht, hb, Command.move?, h, OpenContour.record]
      · have hn : Segment.build? code pen ⟨x, y⟩ (m.i.getD 0) (m.j.getD 0) = none := by
          rwa [← Option.not_isSome_iff_eq_none, Segment.isSome_build?_iff]
        simp [Command.move?, hg, ht, h, recordMotion, hn, OpenContour.record, Command.startsCutting]

/-- In an open contour an inner command makes its move, if it has one, or starts the cutting, or
changes nothing but the block number. -/
theorem step_open_of_isInner (h : c.isInner) :
    step ⟨block, pen, some k⟩ c =
      .scanning ⟨c.blockNumber?.getD block, Move.penAfter pen c.move?.toList,
        some (k.record pen c)⟩ := by
  cases c with
  | comment t => rfl
  | blockMarker n => rfl
  | motion m => rw [step, recordMotion_eq]; rfl
  | call c =>
    cases c with
    | leadIn code x y i j => rw [step, call, recordLeadIn_eq]; rfl
    | remnantPhase phase =>
      have h2 : phase ≠ 2 := by
        rintro rfl
        simp [Command.isInner, Command.closing?] at h
      by_cases h1 : phase = 1 <;>
        simp [step, call, h1, h2, startCutting, Command.move?, Command.blockNumber?,
          OpenContour.record, Command.startsCutting]
    | _ => first | rfl | simp [Command.isInner, Command.opening?, Command.closing?,
        Command.isPartEnd] at h

/-- Only a closing command closes a contour, and only one that is open. -/
theorem exists_closeBy_of_step {t : ScanState α} {d : Contour α} (h : s.step c = .closed t d) :
    ∃ k q, s.contour = some k ∧ c.closing? = some q ∧ d = k.closeBy s.pen q := by
  obtain ⟨block, pen, k⟩ := s
  rcases c.isPartEnd_or_opening_or_closing_or_isInner with hc | ⟨o, hc⟩ | ⟨q, hc⟩ | hc
  · rw [step_of_isPartEnd hc] at h
    cases h
  · rw [step_of_opening hc] at h
    cases h
  · cases k with
    | none =>
      rw [step_idle_of_closing hc] at h
      cases h
    | some k =>
      rw [step_open_of_closing hc] at h
      cases h
      exact ⟨k, q, rfl, hc, rfl⟩
  · cases k with
    | none =>
      rw [step_idle_of_isInner hc] at h
      cases h
    | some k =>
      rw [step_open_of_isInner hc] at h
      cases h

end ScanState

end SheetCut
