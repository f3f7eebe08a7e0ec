import SheetCut.Proofs.Command.Lines
import SheetCut.Proofs.Decimal.ReadBack

/-!
# Names in quotes

The quotes around a name are removed, but they do not protect it: a comma ends the argument, and a
closing parenthesis all arguments, inside quotes too. A name without these two characters is kept as
it is, blanks included.
-/

namespace SheetCut

open Text

namespace MacroCall

theorem argumentText?_append {head inner : List Char} (h : '(' ∉ head) :
    argumentText? (head ++ '(' :: (inner ++ [')'])) =
      some ((inner ++ [')']).takeWhile (· != ')')) := by
  have hdrop :
      (head ++ '(' :: (inner ++ [')'])).dropWhile (· != '(') = '(' :: (inner ++ [')']) := by
    rw [List.dropWhile_append_of_pos fun c hc => ?_]
    · rfl
    · rw [bne_iff_ne]
      rintro rfl
      exact h hc
  rw [argumentText?, hdrop]
  exact if_pos (List.mem_append_right inner List.mem_cons_self)

/-- Arguments that hold neither a comma nor a closing parenthesis are taken apart again. -/
theorem arguments_call {head : List Char} {args : List (List Char)} (hhead : '(' ∉ head)
    (hne : args ≠ []) (hargs : ∀ arg ∈ args, ',' ∉ arg ∧ ')' ∉ arg) :
    arguments (head ++ '(' :: ([','].intercalate args ++ [')'])) = args.map trim := by
  have hopen : ∀ c ∈ [','].intercalate args, (c != ')') = true := by
    intro c hc
    rw [bne_iff_ne]
    rintro rfl
    exact not_mem_intercalate (by decide) (fun arg harg => (hargs arg harg).2) hc
  rw [arguments, argumentText?_append hhead, List.takeWhile_append_of_pos hopen]
  change (pieces ',' (_ ++ [])).map trim = _
  rw [List.append_nil, pieces_intercalate hne fun arg harg => (hargs arg harg).1]

/-- No argument holds a comma or a closing parenthesis. -/
theorem not_mem_of_mem_arguments {line arg : List Char} (h : arg ∈ arguments line) :
    ',' ∉ arg ∧ ')' ∉ arg := by
  rw [arguments] at h
  cases hinner : argumentText? line with
  | none =>
    rw [hinner] at h
    cases h
  | some inner =>
    rw [hinner] at h
    obtain ⟨p, hp, rfl⟩ := List.mem_map.1 h
    refine ⟨fun hc => not_mem_of_mem_pieces hp (mem_of_mem_trim hc), fun hc => ?_⟩
    have hmem := mem_of_mem_pieces hp (mem_of_mem_trim hc)
    rw [argumentText?] at hinner
    split at hinner
    · cases hinner
    · split at hinner
      · cases hinner
        simpa using List.mem_takeWhile_imp hmem
      · cases hinner

theorem exists_mem_of_mem_quoted {args : List (List Char)} {k : Nat} {c : Char}
    (h : c ∈ (quoted args k).toList) : ∃ arg ∈ args, c ∈ arg := by
  rw [quoted, String.toList_ofList] at h
  have hc := (List.mem_filter.1 h).1
  cases harg : args[k]? with
  | none =>
    rw [harg] at hc
    cases hc
  | some arg =>
    rw [harg] at hc
    exact ⟨arg, List.mem_of_getElem? harg, hc⟩

theorem filter_quotes {name : List Char} (h : '"' ∉ name) :
    ('"' :: (name ++ ['"'])).filter (· != '"') = name := by
  have hkeep : name.filter (· != '"') = name := by
    refine List.filter_eq_self.2 fun c hc => bne_iff_ne.2 ?_
    rintro rfl
    exact h hc
  rw [List.filter_cons_of_neg (by decide), List.filter_append, hkeep]
  exact List.append_nil name

end MacroCall

def databaseLine (m g : Int32) (name : String) : String :=
  "HKLDB(" ++ toString m.toInt ++ ",\"" ++ name ++ "\"," ++ toString g.toInt ++ ")"

section Database

variable {m g : Int32} {name : String}

theorem toList_databaseLine : (databaseLine m g name).toList =
    ['H', 'K', 'L', 'D', 'B'] ++ '(' :: ((toString m.toInt).toList ++ ',' ::
      ('"' :: (name.toList ++ ['"']) ++ ',' :: (toString g.toInt).toList) ++ [')']) := by
  simp [databaseLine]

theorem not_mem_toString {z : ℤ} {c : Char} (hminus : c ≠ '-') (hdigit : isAsciiDigit c = false) :
    c ∉ (toString z).toList := by
  intro h
  rcases Decimal.mem_toString h with rfl | h
  · exact hminus rfl
  · exact Bool.false_ne_true (hdigit.symm.trans h)

theorem toInt32_lenientNumber_toString (z : Int32) :
    Scalar.toInt32 (lenientNumber (toString z.toInt).toList : Float) = z := by
  rw [Decimal.lenientNumber_toString, Decimal.toInt32_ofInt]

/-- A line without a line feed is one command, whatever the name holds. -/
theorem ofText_databaseLine (m g : Int32) (hline : '\n' ∉ name.toList) :
    (Command.ofText (databaseLine m g name) : List (Command Float)) =
      let arguments := MacroCall.arguments (databaseLine m g name).toList
      [.call (.loadDatabase ⟨MacroCall.code Float arguments 0⟩ (MacroCall.quoted arguments 1)
        ⟨MacroCall.code Float arguments 2⟩)] := by
  have hmem : '\n' ∉ (databaseLine m g name).toList := by
    have hnumber : ∀ z : ℤ, '\n' ∉ (toString z).toList :=
      fun z => not_mem_toString (by decide) rfl
    rw [toList_databaseLine]
    simp only [List.mem_append, List.mem_cons, hnumber, hline]
    decide
  have htrim : trim (databaseLine m g name).toList = (databaseLine m g name).toList := by
    refine trim_eq_self (fun c hc => ?_) fun c hc => ?_
    · rw [toList_databaseLine] at hc
      cases hc
      rfl
    · rw [databaseLine, String.toList_append, List.getLast?_append] at hc
      cases hc
      rfl
  rw [Command.ofText_of_not_mem hmem, htrim, toList_databaseLine]
  exact Command.ofLine_call _

theorem trim_toString (z : ℤ) : trim (toString z).toList = (toString z).toList := by
  refine trim_of_forall fun c hc => ?_
  rcases Decimal.mem_toString hc with rfl | hdigit
  · rfl
  · exact isBlank_of_isAsciiDigit hdigit

theorem trim_quoted (cs : List Char) : trim ('"' :: (cs ++ ['"'])) = '"' :: (cs ++ ['"']) := by
  refine trim_eq_self (fun c hc => ?_) fun c hc => ?_
  · cases hc
    rfl
  · rw [← List.cons_append, List.getLast?_concat] at hc
    cases hc
    rfl

theorem arguments_databaseLine (hcomma : ',' ∉ name.toList) (hparen : ')' ∉ name.toList) :
    MacroCall.arguments (databaseLine m g name).toList =
      [(toString m.toInt).toList, '"' :: (name.toList ++ ['"']), (toString g.toInt).toList] := by
  have hnumber : ∀ z : ℤ, ',' ∉ (toString z).toList ∧ ')' ∉ (toString z).toList :=
    fun z => ⟨not_mem_toString (by decide) rfl, not_mem_toString (by decide) rfl⟩
  have hline : (databaseLine m g name).toList = ['H', 'K', 'L', 'D', 'B'] ++ '(' ::
      ([','].intercalate [(toString m.toInt).toList, '"' :: (name.toList ++ ['"']),
        (toString g.toInt).toList] ++ [')']) := by
    rw [toList_databaseLine]
    simp
  rw [hline, MacroCall.arguments_call (by decide) (List.cons_ne_nil _ _)]
  · simp only [List.map_cons, List.map_nil, trim_toString, trim_quoted]
  · simp only [List.forall_mem_cons]
    exact ⟨hnumber _, by simp [hcomma, hparen], hnumber _, List.forall_mem_nil _⟩

/-- The name is kept as it is if it holds neither of the characters that end an argument. -/
theorem ofText_databaseLine_iff (hquote : '"' ∉ name.toList) (hline : '\n' ∉ name.toList) :
    (Command.ofText (databaseLine m g name) : List (Command Float)) =
        [.call (.loadDatabase ⟨m⟩ name ⟨g⟩)] ↔
      ',' ∉ name.toList ∧ ')' ∉ name.toList := by
  rw [ofText_databaseLine m g hline]
  constructor
  · intro h
    have hname := (MacroCall.loadDatabase.inj (Command.call.inj (List.cons.inj h).1)).2.1
    have hmem : ∀ c ∈ name.toList,
        ∃ arg ∈ MacroCall.arguments (databaseLine m g name).toList, c ∈ arg := by
      intro c hc
      rw [← hname] at hc
      exact MacroCall.exists_mem_of_mem_quoted hc
    constructor
    · intro hc
      obtain ⟨arg, harg, hc⟩ := hmem _ hc
      exact (MacroCall.not_mem_of_mem_arguments harg).1 hc
    · intro hc
      obtain ⟨arg, harg, hc⟩ := hmem _ hc
      exact (MacroCall.not_mem_of_mem_arguments harg).2 hc
  · rintro ⟨hcomma, hparen⟩
    rw [arguments_databaseLine hcomma hparen]
    show [Command.call (.loadDatabase ⟨Scalar.toInt32 (lenientNumber _ : Float)⟩
      (String.ofList (('"' :: (name.toList ++ ['"'])).filter (· != '"')))
      ⟨Scalar.toInt32 (lenientNumber _ : Float)⟩)] = _
    rw [toInt32_lenientNumber_toString, toInt32_lenientNumber_toString,
      MacroCall.filter_quotes hquote, String.ofList_toList]

/-- A name with blanks around it and with letters of any script. -/
theorem ofText_databaseLine_iff_blanks :
    ('"' ∉ " ü 37 ".toList ∧ '\n' ∉ " ü 37 ".toList) ∧
      (Command.ofText (databaseLine (-2147483648) 2147483647 " ü 37 ") : List (Command Float)) =
        [.call (.loadDatabase ⟨-2147483648⟩ " ü 37 " ⟨2147483647⟩)] := by
  have hquote : '"' ∉ " ü 37 ".toList := by decide
  have hline : '\n' ∉ " ü 37 ".toList := by decide
  exact ⟨⟨hquote, hline⟩, (ofText_databaseLine_iff hquote hline).2 (by decide)⟩

/-- A comma in the name ends it, and what follows is taken for the gas. -/
theorem ofText_databaseLine_comma :
    databaseLine 1 2 "A,B" = "HKLDB(1,\"A,B\",2)" ∧
      (Command.ofText "HKLDB(1,\"A,B\",2)" : List (Command Float)) =
        [.call (.loadDatabase ⟨1⟩ "A" ⟨0⟩)] ∧
      (Command.ofText "HKLDB(1,\"A,B\",2)" : List (Command Float)) ≠
        [.call (.loadDatabase ⟨1⟩ "A,B" ⟨2⟩)] := by
  have harguments : MacroCall.arguments (databaseLine 1 2 "A,B").toList =
      [(toString (1 : Int32).toInt).toList, ['"', 'A'], ['B', '"'], ['2']] := by decide
  have hnumber : (lenientNumber ['B', '"'] : Float) = 0 := rfl
  have hread : (Command.ofText "HKLDB(1,\"A,B\",2)" : List (Command Float)) =
      [.call (.loadDatabase ⟨1⟩ "A" ⟨0⟩)] := by
    refine (ofText_databaseLine 1 2 (show '\n' ∉ "A,B".toList by decide)).trans ?_
    rw [harguments]
    show [Command.call (.loadDatabase ⟨Scalar.toInt32 (lenientNumber _ : Float)⟩ _
      ⟨Scalar.toInt32 (lenientNumber _ : Float)⟩)] = _
    rw [toInt32_lenientNumber_toString, hnumber]
    rfl
  refine ⟨rfl, hread, ?_⟩
  rw [hread]
  intro h
  exact absurd (MacroCall.loadDatabase.inj (Command.call.inj (List.cons.inj h).1)).2.1 (by decide)

end Database

end SheetCut
