import SheetCut.Proofs.Program.Placements

/-!
# The code of a part

The code of a part runs from the first marker of its block to the next part end. What stands in front
of that marker or behind that end has no influence on the contours of the part, nor has anything that
the placement says besides the block.
-/

namespace SheetCut

variable {α : Type}

/-- The part at the place that the placement says, with the given contours. -/
def Placement.partWith (p : Placement α) (contours : List (Contour α)) : Part α where
  id := p.partId
  blockNumber := p.partCodeBlock
  originBlockNumber := p.originBlockNumber
  origin := p.origin
  rotation := p.rotation
  contours

variable [Scalar α]

namespace Part

variable {p : Placement α} {c : Command α} {cs : List (Command α)}

theorem ofPlacement?_cons_of_ne (h : c.blockNumber? ≠ some p.partCodeBlock) :
    ofPlacement? (c :: cs) p = ofPlacement? cs p := by
  rw [ofPlacement?, ofPlacement?, List.dropWhile_cons_of_pos (by simpa using h)]

/-- From the first marker of the block on the code is scanned. -/
theorem ofPlacement?_cons_of_eq (h : c.blockNumber? = some p.partCodeBlock) :
    ofPlacement? (c :: cs) p =
      .ok (p.partWith ((ScanState.start p.partCodeBlock).contours (c :: cs))) := by
  rw [ofPlacement?, List.dropWhile_cons_of_neg (by simp [h])]
  rfl

theorem ofPlacement?_append {pre : List (Command α)}
    (h : ∀ c ∈ pre, c.blockNumber? ≠ some p.partCodeBlock) :
    ofPlacement? (pre ++ cs) p = ofPlacement? cs p := by
  induction pre with
  | nil => rfl
  | cons c pre ih =>
    obtain ⟨hc, h⟩ := List.forall_mem_cons.1 h
    rw [List.cons_append, ofPlacement?_cons_of_ne hc, ih h]

end Part

/-- A scan reads nothing behind a part end. -/
theorem ScanState.contours_append_of_isPartEnd {e : Command α} (he : e.isPartEnd)
    (s : ScanState α) (cs post : List (Command α)) :
    s.contours (cs ++ e :: post) = s.contours cs := by
  induction cs generalizing s with
  | nil =>
    rw [List.nil_append, contours.eq_2, step_of_isPartEnd he]
    rfl
  | cons c cs ih =>
    rw [List.cons_append, contours.eq_2, contours.eq_2]
    cases s.step c with
    | scanning t => exact ih t
    | closed t k => exact congrArg (List.cons k) (ih t)
    | partEnd => rfl

namespace Program

omit [Scalar α] in
def withCode (pre : List (Command α)) (block : UInt32) (code post : List (Command α)) :
    List (Command α) :=
  pre ++ .blockMarker block :: (code ++ .call .partEnd :: post)

/-- The contours of the code of a block, read on its own. -/
def codeContours (block : UInt32) (code : List (Command α)) : List (Contour α) :=
  (ScanState.start block).contours (.blockMarker block :: code)

theorem ofPlacement?_code {block : UInt32} (code : List (Command α)) {p : Placement α}
    (hp : p.partCodeBlock = block) :
    Part.ofPlacement? (.blockMarker block :: code) p = .ok (p.partWith (codeContours block code)) := by
  subst hp
  exact Part.ofPlacement?_cons_of_eq rfl

theorem ofPlacement?_withCode {pre : List (Command α)} {block : UInt32}
    (hpre : ∀ c ∈ pre, c.blockNumber? ≠ some block) (code post : List (Command α))
    {p : Placement α} (hp : p.partCodeBlock = block) :
    Part.ofPlacement? (withCode pre block code post) p =
      .ok (p.partWith (codeContours block code)) := by
  subst hp
  rw [withCode, Part.ofPlacement?_append hpre, Part.ofPlacement?_cons_of_eq rfl,
    ← List.cons_append, ScanState.contours_append_of_isPartEnd rfl]
  rfl

open Placement

/-- Parts with the same code have the same contours. -/
theorem contours_eq_of_blockNumber {cs : List (Command α)} {keep : Bool} {p : Program α}
    (h : ofCommands? cs keep = .ok p) {a b : Part α} (ha : a ∈ p.parts) (hb : b ∈ p.parts)
    (hab : a.blockNumber = b.blockNumber) : a.contours = b.contours := by
  rw [(lists_of_ofCommands? h).2.1] at ha hb
  obtain ⟨q, -, rfl⟩ := List.mem_map.1 ha
  obtain ⟨r, -, rfl⟩ := List.mem_map.1 hb
  have hqr : q.partCodeBlock = r.partCodeBlock := hab
  rw [part, part, hqr]

/-- A placement whose block is marked gives its part. -/
theorem exists_part_of_marked {cs : List (Command α)} {keep : Bool} {p : Program α}
    (h : ofCommands? cs keep = .ok p) {q : Placement α} (hq : q ∈ p.placements)
    (hm : .blockMarker q.partCodeBlock ∈ cs) :
    ∃ a ∈ p.parts, Part.ofPlacement? cs q = .ok a := by
  obtain ⟨hplacements, hparts, -⟩ := lists_of_ofCommands? h
  rw [hplacements] at hq
  have hmarked : q.isMarkedIn cs := isMarkedIn_iff.2 hm
  refine ⟨q.part cs, ?_, Part.ofPlacement?_of_isMarkedIn hmarked⟩
  rw [hparts]
  exact List.mem_map_of_mem (List.mem_filter.2 ⟨hq, hmarked⟩)

/-- A placement of the block gives a part with the contours of the code, read on its own, whatever
stands around the code. Hence programs that agree on the code agree on these contours, and parts of
one program with the same block have the same ones. -/
theorem contours_of_withCode {block : UInt32} {pre : List (Command α)}
    (hpre : ∀ c ∈ pre, c.blockNumber? ≠ some block) (code post : List (Command α)) :
    (∀ q r : Placement α, q.partCodeBlock = block → r.partCodeBlock = block →
      ∃ a b, Part.ofPlacement? (withCode pre block code post) q = .ok a ∧
        Part.ofPlacement? (.blockMarker block :: code) r = .ok b ∧ a.contours = b.contours) ∧
    (∀ keep (p : Program α), ofCommands? (withCode pre block code post) keep = .ok p →
      ∀ a ∈ p.parts, ∀ b ∈ p.parts, a.blockNumber = b.blockNumber → a.contours = b.contours) ∧
    ∀ pre' post' : List (Command α), (∀ c ∈ pre', c.blockNumber? ≠ some block) →
      ∀ keep keep' (p p' : Program α), ofCommands? (withCode pre block code post) keep = .ok p →
        ofCommands? (withCode pre' block code post') keep' = .ok p' →
        ∀ q ∈ p.placements, ∀ r ∈ p'.placements,
          q.partCodeBlock = block → r.partCodeBlock = block →
          ∃ a ∈ p.parts, ∃ b ∈ p'.parts,
            Part.ofPlacement? (withCode pre block code post) q = .ok a ∧
              Part.ofPlacement? (withCode pre' block code post') r = .ok b ∧
              a.contours = b.contours := by
  refine ⟨?_, ?_, ?_⟩
  · intro q r hq hr
    exact ⟨_, _, ofPlacement?_withCode hpre code post hq, ofPlacement?_code code hr, rfl⟩
  · intro keep p hp a ha b hb hab
    exact contours_eq_of_blockNumber hp ha hb hab
  · intro pre' post' hpre' keep keep' p p' hp hp' q hq r hr hqb hrb
    obtain ⟨a, ha, hqa⟩ := exists_part_of_marked hp hq (by simp [withCode, hqb])
    obtain ⟨b, hb, hrb'⟩ := exists_part_of_marked hp' hr (by simp [withCode, hrb])
    refine ⟨a, ha, b, hb, hqa, hrb', ?_⟩
    rw [ofPlacement?_withCode hpre code post hqb] at hqa
    rw [ofPlacement?_withCode hpre' code post' hrb] at hrb'
    cases hqa
    cases hrb'
    rfl

def placing (x rotation : Float) (contourCount : UInt32) : List (Command Float) :=
  [.call (.loadDatabase ⟨1⟩ "DB" ⟨1⟩), .call (.init 1 100 50), .blockMarker 10,
    .call (.partOrigin x 0 rotation 100 contourCount), .call .programEnd]

def openTriangle : List (Command Float) :=
  [.call (.contourStart ⟨1⟩ ⟨1⟩ 0 0 0 4 3), .call .startCut,
    .motion ⟨"G1", some 4, some 0, none, none, none, none⟩, .blockMarker 101,
    .call (.contourEnd 1 4 3 0 0 0)]

/-- The code is the same in a program with another placement and a contour of its own in front of it,
and in one with a second marker behind it. -/
theorem contours_of_withCode_openTriangle :
    ∃ (pre pre' post : List (Command Float)) (p p' : Program Float) (a b : Part Float),
      (∀ c ∈ pre, c.blockNumber? ≠ some 100) ∧ (∀ c ∈ pre', c.blockNumber? ≠ some 100) ∧
        ofCommands? (withCode pre 100 openTriangle []) false = .ok p ∧
        ofCommands? (withCode pre' 100 openTriangle post) true = .ok p' ∧
        a ∈ p.parts ∧ b ∈ p'.parts ∧ a.contours = b.contours ∧ a.contours.length = 1 := by
  have hpre : ∀ c ∈ placing 0 0 1, c.blockNumber? ≠ some 100 := by
    simp [placing, Command.blockNumber?]
  have hpre' : ∀ c ∈ placing 7 90 5 ++ openTriangle, c.blockNumber? ≠ some 100 := by
    simp [placing, openTriangle, Command.blockNumber?]
  obtain ⟨a, ha, b, hb, hqa, -, hab⟩ := (contours_of_withCode hpre openTriangle []).2.2
    (placing 7 90 5 ++ openTriangle) (.blockMarker 100 :: openTriangle) hpre' false true _ _ rfl rfl
    _ List.mem_cons_self _ List.mem_cons_self rfl rfl
  refine ⟨_, _, _, _, _, a, b, hpre, hpre', rfl, rfl, ha, hb, hab, ?_⟩
  cases hqa
  rfl

end Program

end SheetCut
