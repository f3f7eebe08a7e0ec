import SheetCut.Proofs.Command.Lines
import SheetCut.Proofs.Decimal.ReadBack

/-!
# What a line gives

A line gives a run of block numbers and then at most one other command, and it is not shorter than
what it gives. A block number may therefore be put on a line of its own, and a text has no more
commands than characters and no more commands besides the block numbers than lines.
-/

namespace SheetCut

open Text

namespace Text

theorem pieces_append_of_not_mem {sep : Char} {cs rest p : List Char} {ps : List (List Char)}
    (h : sep ∉ cs) (hrest : pieces sep rest = p :: ps) :
    pieces sep (cs ++ rest) = (cs ++ p) :: ps := by
  induction cs with
  | nil => exact hrest
  | cons c cs ih =>
    rw [List.mem_cons, not_or] at h
    simp [pieces, Ne.symm h.1, ih h.2]

theorem head?_of_pieces {sep c : Char} {cs p : List Char} {ps : List (List Char)}
    (h : pieces sep cs = p :: ps) (hc : p.head? = some c) : cs.head? = some c := by
  cases cs with
  | nil =>
    simp [pieces] at h
    simp [h.1] at hc
  | cons d cs =>
    rw [pieces] at h
    split at h
    · simp [← (List.cons.inj h).1] at hc
    · split at h <;> simp [← (List.cons.inj h).1] at hc <;> simp [hc]

/-- Only the separators are lost. -/
theorem flatten_pieces (sep : Char) (cs : List Char) :
    (pieces sep cs).flatten = cs.filter (· != sep) := by
  induction cs with
  | nil => rfl
  | cons c cs ih =>
    by_cases hc : c = sep
    · simp [pieces, hc, ih]
    · cases hp : pieces sep cs with
      | nil => exact absurd hp (pieces_ne_nil sep cs)
      | cons p ps => simp [pieces, hc, hp, ← ih]

/-- The lines that hold more than blanks, without the blanks at their ends. -/
def filledLines (text : String) : List (List Char) :=
  ((pieces '\n' text.toList).map trim).filter (· ≠ [])

end Text

namespace Command

variable {α : Type} [Scalar α]

/-- Reads a line and appends its commands one by one to those that were read before. -/
def appendLine (out : Array (Command α)) (line : List Char) : Array (Command α) :=
  match line with
  | ';' :: text => out.push (comment (String.ofList (trim text)))
  | line =>
    match _h : blockHead? line with
    | none => out ++ (ofBody line : List (Command α))
    | some (number, rest) =>
      match uint32? number with
      | none => out
      | some n =>
        if trim rest = [] then out.push (blockMarker n)
        else appendLine (out.push (blockMarker n)) (trim rest)
termination_by line.length
decreasing_by
  have := length_trim_le rest
  have := length_of_blockHead? _h
  omega

/-- What was read before stays, and the commands of the line follow it. -/
theorem toList_appendLine (out : Array (Command α)) (line : List Char) :
    (appendLine out line).toList = out.toList ++ ofLine line := by
  fun_induction appendLine out line with
  | case1 out text => simp [ofLine_comment]
  | case2 out line hhead hnone =>
    simp [ofLine_of_blockHead?_eq_none (head?_ne_of_forall_ne hhead) hnone]
  | case3 out line hhead number rest hblock hrange => simp [ofLine_of_uint32?_eq_none hblock hrange]
  | case4 out line hhead number rest hblock n hn hrest =>
    simp [ofLine_of_blockHead? hblock hn, hrest, ofLine_nil]
  | case5 out line hhead number rest hblock n hn hrest ih =>
    simp [ofLine_of_blockHead? hblock hn, ih]

theorem toList_foldl_appendLine (lines : List (List Char)) (out : Array (Command α)) :
    (lines.foldl appendLine out).toList = out.toList ++ lines.flatMap ofLine := by
  induction lines generalizing out with
  | nil => simp
  | cons line lines ih => simp [ih, toList_appendLine]

theorem flatMap_ofLine_filter (lines : List (List Char)) :
    ((lines.filter (· ≠ [])).flatMap ofLine : List (Command α)) = lines.flatMap ofLine := by
  induction lines with
  | nil => rfl
  | cons line lines ih =>
    by_cases hline : line = []
    · rw [List.filter_cons_of_neg (by simp [hline]), ih, hline, List.flatMap_cons, ofLine_nil]
      rfl
    · rw [List.filter_cons_of_pos (by simp [hline]), List.flatMap_cons, List.flatMap_cons, ih]

theorem ofText_eq_flatMap (text : String) :
    (ofText text : List (Command α)) = (filledLines text).flatMap ofLine := by
  rw [filledLines, flatMap_ofLine_filter, List.flatMap_map, ofText]

/-- A text is read by appending its lines, one after another and without the blank ones. -/
theorem ofText_eq_foldl (text : String) :
    (ofText text : List (Command α)) = ((filledLines text).foldl appendLine #[]).toList := by
  rw [toList_foldl_appendLine, ofText_eq_flatMap]
  rfl

theorem exists_ofBody (line : List Char) :
    ∃ other : Option (Command α), ofBody line = other.toList ∧
      (∀ c ∈ other, c.blockNumber? = none) ∧ other.toList.length ≤ line.length := by
  cases line with
  | nil => exact ⟨none, by simp [ofBody, Motion.mnemonic?], by simp, by simp⟩
  | cons c cs =>
    rw [ofBody]
    split
    · cases (MacroCall.ofLine? (c :: cs) : Option (MacroCall α)) with
      | none => exact ⟨none, rfl, by simp, by simp⟩
      | some m => exact ⟨some (call m), rfl, by simp [blockNumber?], by simp⟩
    · split
      · exact ⟨some _, rfl, by simp [blockNumber?], by simp⟩
      · exact ⟨none, rfl, by simp, by simp⟩

/-- The block numbers of a line come first, and at most one other command follows them. -/
theorem exists_ofLine (line : List Char) :
    ∃ (markers : List UInt32) (other : Option (Command α)),
      ofLine line = markers.map blockMarker ++ other.toList ∧
      (∀ c ∈ other, c.blockNumber? = none) ∧
      markers.length + other.toList.length ≤ line.length := by
  induction line using ofLine.induct with
  | case1 text => exact ⟨[], some _, ofLine_comment text, by simp [blockNumber?], by simp⟩
  | case2 line hhead hnone =>
    obtain ⟨other, hbody, hother, hlength⟩ := exists_ofBody (α := α) line
    rw [ofLine_of_blockHead?_eq_none (head?_ne_of_forall_ne hhead) hnone]
    exact ⟨[], other, by simpa using hbody, hother, by simpa using hlength⟩
  | case3 line hhead number rest hblock hrange =>
    exact ⟨[], none, ofLine_of_uint32?_eq_none hblock hrange, by simp, by simp⟩
  | case4 line hhead number rest hblock n hn ih =>
    obtain ⟨markers, other, hrest, hother, hlength⟩ := ih
    refine ⟨n :: markers, other, ?_, hother, ?_⟩
    · simp [ofLine_of_blockHead? hblock hn, hrest]
    · -- The block number takes at least one character, and trimming adds none.
      have htrim := length_trim_le rest
      have hshort := length_of_blockHead? hblock
      rw [List.length_cons]
      omega

theorem length_ofLine_le (line : List Char) :
    (ofLine line : List (Command α)).length ≤ line.length := by
  obtain ⟨markers, other, hline, -, hlength⟩ := exists_ofLine (α := α) line
  simpa [hline] using hlength

theorem countP_ofLine_le (line : List Char) :
    (ofLine line : List (Command α)).countP (fun c => c.blockNumber?.isNone) ≤ 1 := by
  obtain ⟨markers, other, hline, hother, -⟩ := exists_ofLine (α := α) line
  have hmarkers : (markers.map blockMarker : List (Command α)).countP
      (fun c => c.blockNumber?.isNone) = 0 := by
    simp [List.countP_eq_zero, blockNumber?]
  rw [hline, List.countP_append, hmarkers, Nat.zero_add]
  exact List.countP_le_length.trans Option.length_toList_le

theorem countP_flatMap_ofLine_le (lines : List (List Char)) :
    (lines.flatMap ofLine : List (Command α)).countP (fun c => c.blockNumber?.isNone) ≤
      lines.length := by
  induction lines with
  | nil => simp
  | cons line lines ih =>
    have hline := countP_ofLine_le (α := α) line
    rw [List.flatMap_cons, List.countP_append, List.length_cons]
    omega

theorem length_flatMap_ofLine_le (lines : List (List Char)) :
    (lines.flatMap fun line => ofLine (trim line) : List (Command α)).length ≤
      lines.flatten.length := by
  induction lines with
  | nil => simp
  | cons line lines ih =>
    have hline := length_ofLine_le (α := α) (trim line)
    have htrim := length_trim_le line
    rw [List.flatMap_cons, List.length_append, List.flatten_cons, List.length_append]
    omega

theorem length_ofText_le (text : String) :
    (ofText text : List (Command α)).length ≤ text.length := by
  have hpieces : (pieces '\n' text.toList).flatten.length ≤ text.toList.length := by
    rw [flatten_pieces]
    exact List.length_filter_le _ _
  rw [ofText, ← String.length_toList]
  exact (length_flatMap_ofLine_le _).trans hpieces

section Split

variable {ds rest line : List Char} {n : UInt32}

theorem isAsciiDigit_of_uint32? (hn : uint32? ds = some n) :
    ds ≠ [] ∧ ∀ c ∈ ds, isAsciiDigit c = true := by
  unfold uint32? at hn
  split at hn
  · next h => exact ⟨h.1, List.all_eq_true.1 h.2.1⟩
  · cases hn

theorem blockHead?_append (hn : uint32? ds = some n)
    (hhead : ∀ c, rest.head? = some c → isDigit c = false) :
    blockHead? ('N' :: (ds ++ rest)) = some (ds, rest) := by
  obtain ⟨hne, hascii⟩ := isAsciiDigit_of_uint32? hn
  have hdigit : ∀ c ∈ ds, isDigit c = true := fun c hc => isDigit_of_isAsciiDigit (hascii c hc)
  have hstop : ∀ c, rest.head? = some c → ¬ isDigit c = true := by simpa using hhead
  rw [blockHead?, Json.takeWhile_append_of_head hstop, Json.dropWhile_append_of_head hstop,
    List.takeWhile_eq_self_iff.2 hdigit, List.dropWhile_eq_nil_iff.2 hdigit]
  exact if_neg hne

/-- The blanks at the end of the line are those at the end of what follows the block number. -/
theorem ofLine_trim_blockNumber (hn : uint32? ds = some n) (hline : '\n' ∉ line)
    (hhead : ∀ c, line.head? = some c → isDigit c = false) :
    (ofLine (trim ('N' :: ds ++ line)) : List (Command α)) =
      blockMarker n :: ofLine (trim line) := by
  have hpost := trimEnd_append line
  have hspacing : IsSpacing (line.reverse.takeWhile isBlank).reverse := by
    intro c hc
    refine ⟨List.mem_takeWhile_imp (List.mem_reverse.1 hc), ?_⟩
    rintro rfl
    exact hline (hpost ▸ List.mem_append_right _ hc)
  have hend : trim line = trim (trimEnd line) := by
    conv_lhs => rw [← hpost, trim_append_of_spacing hspacing]
  have htrim : trim ('N' :: ds ++ line) = 'N' :: (ds ++ trimEnd line) := by
    conv_lhs => rw [← hpost, ← List.append_assoc, trim_append_of_spacing hspacing]
    apply trim_eq_self
    · rintro c ⟨⟩
      rfl
    · intro c hc
      rw [List.getLast?_append, Option.or_eq_some_iff] at hc
      rcases hc with hc | ⟨-, hc⟩
      · exact isBlank_of_getLast?_trimEnd hc
      · rcases List.mem_cons.1 (List.mem_of_getLast? hc) with rfl | hmem
        · rfl
        · exact isBlank_of_isAsciiDigit ((isAsciiDigit_of_uint32? hn).2 c hmem)
  have hblock : blockHead? ('N' :: (ds ++ trimEnd line)) = some (ds, trimEnd line) :=
    blockHead?_append hn fun c hc => hhead c (head?_trimEnd hc)
  rw [htrim, ofLine_of_blockHead? hblock hn, hend]

/-- A block number at the head of a text, and what follows it read as a text of its own. -/
theorem ofText_blockNumber_append (hn : uint32? ds = some n)
    (hhead : ∀ c, rest.head? = some c → isDigit c = false) :
    (ofText (String.ofList ('N' :: ds ++ rest)) : List (Command α)) =
      blockMarker n :: ofText (String.ofList rest) := by
  obtain ⟨hne, hascii⟩ := isAsciiDigit_of_uint32? hn
  have hnumber : '\n' ∉ 'N' :: ds := by
    rw [List.mem_cons, not_or]
    exact ⟨by decide, fun hmem => absurd (hascii _ hmem) (by decide)⟩
  obtain ⟨line, lines, hrest⟩ := List.exists_cons_of_ne_nil (pieces_ne_nil '\n' rest)
  have hline : '\n' ∉ line := not_mem_of_mem_pieces (hrest ▸ List.mem_cons_self)
  have hstop : ∀ c, line.head? = some c → isDigit c = false :=
    fun c hc => hhead c (head?_of_pieces hrest hc)
  rw [ofText, ofText, String.toList_ofList, String.toList_ofList,
    pieces_append_of_not_mem hnumber hrest, hrest, List.flatMap_cons, List.flatMap_cons,
    ofLine_trim_blockNumber hn hline hstop]
  rfl

theorem ofText_lineFeed (rest : List Char) :
    (ofText (String.ofList ('\n' :: rest)) : List (Command α)) = ofText (String.ofList rest) := by
  rw [ofText, ofText, String.toList_ofList, String.toList_ofList, pieces, if_pos rfl,
    List.flatMap_cons, trim_of_spacing isSpacing_nil, ofLine_nil]
  rfl

end Split

/-- A line is appended to what was read before, as block numbers and at most one other command. A
block number may stand on the same line as what follows it or on a line of its own. A text has no
more commands than characters, and besides the block numbers no more than lines that are not
blank. -/
theorem append_of_line :
    (∀ (out : Array (Command α)) (line : List Char),
      ∃ (markers : List UInt32) (other : Option (Command α)),
        (appendLine out line).toList = out.toList ++ (markers.map blockMarker ++ other.toList) ∧
        ofLine line = markers.map blockMarker ++ other.toList ∧
        (∀ c ∈ other, c.blockNumber? = none) ∧
        markers.length + other.toList.length ≤ line.length) ∧
    (∀ ds rest : List Char, ds ≠ [] → (∀ c ∈ ds, isAsciiDigit c = true) →
      digitsValue ds < 2 ^ 32 → (∀ c, rest.head? = some c → isDigit c = false) →
      (ofText (String.ofList ('N' :: ds ++ rest)) : List (Command α)) =
        ofText (String.ofList ('N' :: ds ++ '\n' :: rest)) ∧
      (ofText (String.ofList ('N' :: ds ++ rest)) : List (Command α)) =
        blockMarker (UInt32.ofNat (digitsValue ds)) :: ofText (String.ofList rest)) ∧
    ∀ text : String,
      (ofText text : List (Command α)) = ((filledLines text).foldl appendLine #[]).toList ∧
      (ofText text : List (Command α)).countP (fun c => c.blockNumber?.isNone) ≤
        (filledLines text).length ∧
      (ofText text : List (Command α)).length ≤ text.length := by
  refine ⟨fun out line => ?_, fun ds rest hne hascii hlt hhead => ?_, fun text => ⟨?_, ?_, ?_⟩⟩
  · obtain ⟨markers, other, hline, hother, hlength⟩ := exists_ofLine (α := α) line
    exact ⟨markers, other, by rw [toList_appendLine, hline], hline, hother, hlength⟩
  · have hn : uint32? ds = some (UInt32.ofNat (digitsValue ds)) :=
      if_pos ⟨hne, List.all_eq_true.2 hascii, hlt⟩
    have hfeed : ∀ c, ('\n' :: rest).head? = some c → isDigit c = false := by
      rintro c ⟨⟩
      decide
    constructor
    · rw [ofText_blockNumber_append hn hhead, ofText_blockNumber_append hn hfeed, ofText_lineFeed]
    · exact ofText_blockNumber_append hn hhead
  · exact ofText_eq_foldl text
  · rw [ofText_eq_flatMap]
    exact countP_flatMap_ofLine_le (filledLines text)
  · exact length_ofText_le text

/-- Two block numbers in a row, the first with zeros in front, and a call. -/
theorem append_of_line_twoMarkers :
    (['0', '0', '7'] ≠ [] ∧ (∀ c ∈ ['0', '0', '7'], isAsciiDigit c = true) ∧
      digitsValue ['0', '0', '7'] < 2 ^ 32 ∧
      ∀ c, "N8 HKCUT".toList.head? = some c → isDigit c = false) ∧
    (ofText "N007N8 HKCUT" : List (Command Float)) = ofText "N007\nN8 HKCUT" ∧
    (ofText "N007N8 HKCUT" : List (Command Float)) =
      [blockMarker 7, blockMarker 8, call .startCut] := by
  have hne : ['0', '0', '7'] ≠ [] := List.cons_ne_nil _ _
  have hascii : ∀ c ∈ ['0', '0', '7'], isAsciiDigit c = true := List.all_eq_true.1 rfl
  have hlt : digitsValue ['0', '0', '7'] < 2 ^ 32 := by decide
  have hhead : ∀ c, "N8 HKCUT".toList.head? = some c → isDigit c = false := by
    rintro c ⟨⟩
    decide
  obtain ⟨hsplit, hread⟩ :=
    (append_of_line (α := Float)).2.1 ['0', '0', '7'] "N8 HKCUT".toList hne hascii hlt hhead
  have hrest : (ofText "N8 HKCUT" : List (Command Float)) = [blockMarker 8, call .startCut] := by
    cbv
  exact ⟨⟨hne, hascii, hlt, hhead⟩, hsplit, hread.trans (congrArg _ hrest)⟩

end Command

end SheetCut
