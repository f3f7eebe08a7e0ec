import SheetCut.Proofs.Command.Quoted
import SheetCut.Proofs.Program.Placements

/-!
# Block references

A block number is written twice: at the head of a block, where it is read as a whole number, and in
the placement of a part, where it is an argument and read as a float. The two readings agree on all
numbers of 32 bits, with zeros in front or without, so that a placement gives a part if both texts
write the same number.
-/

namespace SheetCut

open Text

structure IsDigitRow (ds : List Char) : Prop where
  ne_nil : ds ≠ []
  ascii : ∀ c ∈ ds, isAsciiDigit c = true

namespace IsDigitRow

variable {ds : List Char} {n : UInt32}

/-- The whole numbers below `2 ^ 32` are read. -/
theorem uint32?_eq_some_iff (h : IsDigitRow ds) :
    uint32? ds = some n ↔ n.toNat = digitsValue ds := by
  have hall : ds.all isAsciiDigit = true := List.all_eq_true.2 h.ascii
  by_cases hlt : digitsValue ds < UInt32.size
  · rw [uint32?, if_pos ⟨h.ne_nil, hall, hlt⟩, Option.some_inj, ← UInt32.toNat_inj,
      UInt32.toNat_ofNat_of_lt' hlt, eq_comm]
  · rw [uint32?, if_neg fun hread => hlt hread.2.2]
    have hn := n.toNat_lt_size
    simp
    omega

/-- As a float a row of digits is a whole number, and up to 53 bits no digit is lost. -/
theorem lenientNumber_eq (h : IsDigitRow ds) :
    (lenientNumber ds : Float) = Decimal.ofInt (digitsValue ds) := by
  have hplain : Numeral.IsPlain ds none := ⟨h.ne_nil, h.ascii, List.forall_mem_nil _⟩
  have htext : Numeral.plainText false ds none = ds := by simp [Numeral.plainText]
  rw [← htext, hplain.lenientNumber_plainText, htext, Numeral.value, Option.getD_none,
    List.append_nil, Decimal.ofInt, if_neg (Int.natCast_nonneg _).not_gt, Int.natAbs_natCast]
  rfl

theorem toUInt32_lenientNumber (h : IsDigitRow ds) (hlt : digitsValue ds < UInt32.size) :
    Scalar.toUInt32 (lenientNumber ds : Float) = UInt32.ofNat (digitsValue ds) := by
  have hsmall : (digitsValue ds : ℤ).natAbs < 2 ^ 53 := by
    rw [Int.natAbs_natCast]
    exact hlt.trans (by decide)
  change UInt32.ofNatClamp (Float.Model.UnpackedFloat.toInt _ _ (Binary64.unpack _)).toNat = _
  rw [h.lenientNumber_eq, Decimal.toInt_ofInt hsmall, Int.toNat_natCast, UInt32.ofNatClamp,
    dif_pos hlt, UInt32.ofNatLT_eq_ofNat]

end IsDigitRow

section Lines

open Command

variable {text : String} {lines : List (List Char)} {n : UInt32}

/-- A block number stands at the head of its line. -/
theorem head?_of_blockMarker_mem {line : List Char}
    (h : .blockMarker n ∈ (ofLine line : List (Command Float))) : line.head? = some 'N' := by
  have hhead : ∀ cs : List Char, cs.head? ≠ some 'N' → blockHead? cs = none := by
    intro cs hcs
    unfold blockHead?
    split
    · exact absurd rfl hcs
    · rfl
  by_contra hne
  by_cases hcomment : line.head? = some ';'
  · obtain ⟨rest, rfl⟩ := List.head?_eq_some_iff.1 hcomment
    rw [ofLine_comment] at h
    simp at h
  · rw [ofLine_of_blockHead?_eq_none hcomment (hhead line hne), ofBody] at h
    split at h
    · simp at h
    · split at h
      · simp at h
      · cases h

/-- The commands of a text are those of its trimmed lines. -/
theorem ofText_eq_of_lines (h : (pieces '\n' text.toList).map trim = lines) :
    (ofText text : List (Command Float)) = lines.flatMap ofLine := by
  rw [ofText, ← h, List.flatMap_map]

/-- The block number of the one line that has one. -/
theorem blockMarker_mem_flatMap_iff {ds : List Char} (hds : IsDigitRow ds) (hmem : 'N' :: ds ∈ lines)
    (honly : ∀ line ∈ lines, line.head? = some 'N' → line = 'N' :: ds) :
    .blockMarker n ∈ (lines.flatMap ofLine : List (Command Float)) ↔ n.toNat = digitsValue ds := by
  have hline : .blockMarker n ∈ (ofLine ('N' :: ds) : List (Command Float)) ↔
      n.toNat = digitsValue ds := by
    rw [ofLine_blockNumber hds.ne_nil hds.ascii, ← hds.uint32?_eq_some_iff]
    simp
  rw [← hline, List.mem_flatMap]
  constructor
  · rintro ⟨line, hmem, hn⟩
    rwa [honly line hmem (head?_of_blockMarker_mem hn)] at hn
  · intro hn
    exact ⟨_, hmem, hn⟩

end Lines

namespace Program

open Command

variable {α : Type}

/-- Without a program end in front of them the placements of the second part follow. -/
theorem placementsFrom_append {cs ds : List (Command α)} (h : ∀ c ∈ cs, c.isProgramEnd = false)
    (block : UInt32) : placementsFrom block (cs ++ ds) =
      placementsFrom block cs ++ placementsFrom (blockInForce block cs) ds := by
  induction cs generalizing block with
  | nil => rfl
  | cons c cs ih =>
    rw [List.forall_mem_cons] at h
    rw [List.cons_append, placementsFrom_cons h.1, placementsFrom_cons h.1, ih h.2,
      blockInForce_cons, List.append_assoc]

end Program

def originLine (x y rotation block count : List Char) : List Char :=
  ['H', 'K', 'O', 'S', 'T'] ++ '(' :: ([','].intercalate [x, y, rotation, block, count] ++ [')'])

theorem ofLine_originLine {x y rotation block count : List Char}
    (h : ∀ arg ∈ [x, y, rotation, block, count], ',' ∉ arg ∧ ')' ∉ arg) :
    (Command.ofLine (originLine x y rotation block count) : List (Command Float)) =
      [.call (.partOrigin (lenientNumber x) (lenientNumber y) (lenientNumber rotation)
        (Scalar.toUInt32 (lenientNumber block : Float))
        (Scalar.toUInt32 (lenientNumber count : Float)))] := by
  have hnumber : ∀ cs : List Char, (lenientNumber (trim cs) : Float) = lenientNumber cs := by
    intro cs
    rw [lenientNumber, trim_trim, ← lenientNumber]
  have harguments := MacroCall.arguments_call (show '(' ∉ ['H', 'K', 'O', 'S', 'T'] by decide)
    (List.cons_ne_nil _ _) h
  have hcall : (MacroCall.ofLine? (originLine x y rotation block count) : Option (MacroCall Float)) =
      MacroCall.ofArguments? "HKOST" ([x, y, rotation, block, count].map trim) := by
    rw [← harguments]
    rfl
  refine (Command.ofLine_call _).trans ?_
  change ((MacroCall.ofLine? (originLine x y rotation block count) :
    Option (MacroCall Float)).toList.map Command.call : List (Command Float)) = _
  rw [hcall, ← hnumber x, ← hnumber y, ← hnumber rotation, ← hnumber block, ← hnumber count]
  rfl

namespace Placement

/-- The parts of the placements whose block is marked. -/
def partsOf (cs : List (Command Float)) (ps : List (Placement Float)) : List (Part Float) :=
  (ps.filter (isMarkedIn cs)).map (part cs)

def skippedOf (cs : List (Command Float)) (ps : List (Placement Float)) : List SkippedPart :=
  (ps.filter fun q => !q.isMarkedIn cs).map skipped

end Placement

/-- The texts that say where the code of a part begins: the arguments of its placement, and the
digits of a block number. Around the line of the placement are the other lines of the program,
without the blanks at their ends. -/
structure BlockReference where
  before : List (List Char)
  x : List Char
  y : List Char
  rotation : List Char
  block : List Char
  count : List Char
  after : List (List Char)
  marker : List Char

namespace BlockReference

open Command Program Placement

def arguments (r : BlockReference) : List (List Char) := [r.x, r.y, r.rotation, r.block, r.count]

def line (r : BlockReference) : List Char := originLine r.x r.y r.rotation r.block r.count

/-- The program of the text has its header, no line but that of the block number begins with `N`,
and no program end stands before the placement. -/
structure IsIn (r : BlockReference) (text : String) : Prop where
  lines : (pieces '\n' text.toList).map trim = r.before ++ r.line :: r.after
  arguments : ∀ arg ∈ r.arguments, ',' ∉ arg ∧ ')' ∉ arg
  block : IsDigitRow r.block
  inRange : digitsValue r.block < 2 ^ 32
  marker : IsDigitRow r.marker
  marked : 'N' :: r.marker ∈ r.before ++ r.after
  unique : ∀ line ∈ r.before ++ r.after, line.head? = some 'N' → line = 'N' :: r.marker
  hasDatabase : HasDatabase (ofText text : List (Command Float))
  hasSetup : HasSetup (ofText text : List (Command Float))
  not_programEnd : ∀ line ∈ r.before, .call .programEnd ∉ (ofLine line : List (Command Float))

variable {r : BlockReference} {text : String}

theorem IsIn.ofLine_line (h : r.IsIn text) : (ofLine r.line : List (Command Float)) =
    [.call (.partOrigin (lenientNumber r.x) (lenientNumber r.y) (lenientNumber r.rotation)
      (Scalar.toUInt32 (lenientNumber r.block : Float))
      (Scalar.toUInt32 (lenientNumber r.count : Float)))] :=
  ofLine_originLine h.arguments

theorem IsIn.blockMarker_mem_iff (h : r.IsIn text) (n : UInt32) :
    .blockMarker n ∈ (ofText text : List (Command Float)) ↔ n.toNat = digitsValue r.marker := by
  have hmem : ∀ line, line ∈ r.before ++ r.line :: r.after ↔
      line = r.line ∨ line ∈ r.before ++ r.after := by
    intro line
    simp only [List.mem_append, List.mem_cons]
    tauto
  rw [ofText_eq_of_lines h.lines]
  apply blockMarker_mem_flatMap_iff h.marker
  · exact (hmem _).2 (.inr h.marked)
  · intro line hline hhead
    rcases (hmem line).1 hline with rfl | hline
    · cases hhead
    · exact h.unique line hline hhead

theorem IsIn.exists_placements (h : r.IsIn text) :
    ∃ (q : Placement Float) (later : List (Placement Float)),
      placementsIn (ofText text : List (Command Float)) =
        placementsIn (r.before.flatMap ofLine) ++ q :: later ∧
      q.origin = ⟨lenientNumber r.x, lenientNumber r.y⟩ ∧ q.rotation = lenientNumber r.rotation ∧
      q.partCodeBlock = Scalar.toUInt32 (lenientNumber r.block : Float) := by
  have hbefore : ∀ c ∈ (r.before.flatMap ofLine : List (Command Float)), c.isProgramEnd = false := by
    intro c hc
    obtain ⟨line, hline, hc⟩ := List.mem_flatMap.1 hc
    by_contra hend
    have hcall : c = .call .programEnd := by
      unfold isProgramEnd at hend
      split at hend
      · rfl
      · simp at hend
    exact h.not_programEnd line hline (hcall ▸ hc)
  rw [ofText_eq_of_lines h.lines, List.flatMap_append, List.flatMap_cons, h.ofLine_line, placementsIn,
    placementsFrom_append hbefore]
  exact ⟨_, _, rfl, rfl, rfl, rfl⟩

/-- A placement gives a part exactly if its block and the marked one are the same number, whatever
zeros are written in front of the two. The two readings of the block agree. -/
theorem IsIn.resolves_by_value (h : r.IsIn text) (keep : Bool) :
    (∀ n, .blockMarker n ∈ (ofText text : List (Command Float)) ↔
      n.toNat = digitsValue r.marker) ∧
    uint32? r.block = some (Scalar.toUInt32 (lenientNumber r.block : Float)) ∧
    ∃ (p : Program Float) (earlier later : List (Placement Float)) (q : Placement Float),
      ofText? text keep = .ok p ∧ p.placements = earlier ++ q :: later ∧
      earlier = placementsIn (r.before.flatMap ofLine) ∧
      q.origin = ⟨lenientNumber r.x, lenientNumber r.y⟩ ∧ q.rotation = lenientNumber r.rotation ∧
      q.partCodeBlock.toNat = digitsValue r.block ∧
      (digitsValue r.marker = digitsValue r.block →
        .blockMarker q.partCodeBlock ∈ (ofText text : List (Command Float)) ∧
        p.parts = partsOf (ofText text) earlier ++
          q.part (ofText text) :: partsOf (ofText text) later ∧
        p.skippedParts = skippedOf (ofText text) earlier ++ skippedOf (ofText text) later) ∧
      (digitsValue r.marker ≠ digitsValue r.block →
        p.parts = partsOf (ofText text) earlier ++ partsOf (ofText text) later ∧
        p.skippedParts = skippedOf (ofText text) earlier ++
          q.skipped :: skippedOf (ofText text) later) := by
  have hread := h.block.toUInt32_lenientNumber h.inRange
  have hvalue : (UInt32.ofNat (digitsValue r.block)).toNat = digitsValue r.block :=
    UInt32.toNat_ofNat_of_lt' h.inRange
  obtain ⟨p, hp, hplacements, hparts, hskipped⟩ :=
    exists_ofCommands? h.hasDatabase h.hasSetup keep
  obtain ⟨q, later, hsplit, horigin, hrotation, hblock⟩ := h.exists_placements
  have hnumber : q.partCodeBlock.toNat = digitsValue r.block := by rw [hblock, hread, hvalue]
  have hmarked : q.isMarkedIn (ofText text) ↔ digitsValue r.marker = digitsValue r.block := by
    rw [isMarkedIn_iff, h.blockMarker_mem_iff, hnumber, eq_comm]
  rw [hsplit] at hplacements hparts hskipped
  refine ⟨h.blockMarker_mem_iff, ?_, p, _, later, q, hp, hplacements, rfl, horigin, hrotation,
    hnumber, ?_, ?_⟩
  · rw [hread, h.block.uint32?_eq_some_iff, hvalue]
  · intro heq
    have hq := hmarked.2 heq
    refine ⟨isMarkedIn_iff.1 hq, ?_, ?_⟩
    · simp [hparts, partsOf, hq]
    · simp [hskipped, skippedOf, hq]
  · intro hne
    have hq : q.isMarkedIn (ofText text) = false := by simpa using mt hmarked.1 hne
    constructor
    · simp [hparts, partsOf, hq]
    · simp [hskipped, skippedOf, hq]

/-- The block number and the reference to it have different zeros in front. -/
def padded : BlockReference where
  before := ["HKLDB(1,D,1)".toList, "HKINI(1,9,9)".toList]
  x := "1.5".toList
  y := " -2".toList
  rotation := "90".toList
  block := "07".toList
  count := "1".toList
  after := ["HKEND".toList, "N0007".toList]
  marker := "0007".toList

def paddedText : String :=
  "HKLDB(1,D,1)\nHKINI(1,9,9)\n HKOST(1.5, -2,90,07,1)\r\nHKEND\nN0007"

theorem isIn_padded : padded.IsIn paddedText := by
  have hlines : (pieces '\n' paddedText.toList).map trim =
      padded.before ++ padded.line :: padded.after := by decide +kernel
  have hdatabase : ∃ material dbName assistGas,
      (ofLine "HKLDB(1,D,1)".toList : List (Command Float)) =
        [.call (.loadDatabase material dbName assistGas)] := ⟨_, _, _, ofLine_call _⟩
  have hsetup : ∃ totalParts width height, (ofLine "HKINI(1,9,9)".toList : List (Command Float)) =
      [.call (.init totalParts width height)] := ⟨_, _, _, ofLine_call _⟩
  obtain ⟨material, dbName, assistGas, hdatabase⟩ := hdatabase
  obtain ⟨totalParts, width, height, hsetup⟩ := hsetup
  have hheader : (padded.before.flatMap ofLine : List (Command Float)) =
      [.call (.loadDatabase material dbName assistGas), .call (.init totalParts width height)] := by
    change ofLine "HKLDB(1,D,1)".toList ++ (ofLine "HKINI(1,9,9)".toList ++ []) = _
    rw [hdatabase, hsetup]
    rfl
  constructor
  · exact hlines
  · decide
  · exact ⟨by decide, by simp [padded]; decide⟩
  · decide
  · exact ⟨by decide, by simp [padded]; decide⟩
  · decide
  · decide
  · rw [ofText_eq_of_lines hlines, List.flatMap_append, hheader]
    exact ⟨_, _, _, List.mem_cons_self⟩
  · rw [ofText_eq_of_lines hlines, List.flatMap_append, hheader]
    exact ⟨_, _, _, List.mem_cons_of_mem _ List.mem_cons_self⟩
  · intro line hline hend
    have hmem := List.mem_flatMap.2 ⟨line, hline, hend⟩
    rw [hheader] at hmem
    simp at hmem

/-- Both write the number 7. -/
theorem IsIn.resolves_by_value_padded : padded.IsIn paddedText ∧
    ∃ p : Program Float, ofText? paddedText false = .ok p ∧
      ∃ part ∈ p.parts, part.blockNumber = 7 := by
  obtain ⟨-, -, p, earlier, later, q, hp, -, -, -, -, hblock, hpart, -⟩ :=
    isIn_padded.resolves_by_value false
  have hnumber : q.partCodeBlock = 7 := UInt32.toNat_inj.1 hblock
  refine ⟨isIn_padded, p, hp, q.part (ofText paddedText), ?_, hnumber⟩
  rw [(hpart rfl).2.1]
  simp

end BlockReference

end SheetCut
