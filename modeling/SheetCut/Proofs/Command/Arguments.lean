import Mathlib.Logic.Relation
import SheetCut.Proofs.Command.Quoted

/-!
# Arguments of calls

The fields of a call are read from its arguments by position. Blanks around an argument make no
difference, a missing argument is read like an empty one, and an argument behind those of the fields
is not read. Only the remnant marker counts its arguments, and only to tell its two calls apart.
-/

namespace SheetCut

open Text

theorem Code.value_inj {t : CodeTable} {c d : Code t} : c.value = d.value ↔ c = d := by
  cases c
  cases d
  simp

namespace MacroCall

/-- What a field holds. Codes are integers. -/
inductive FieldKind where
  | number
  | integer
  | count
  | text

inductive Field (α : Type) where
  | number (x : α)
  | integer (n : Int32)
  | count (n : UInt32)
  | text (s : String)

section Layouts

variable {α : Type}

def fields : MacroCall α → List (Field α)
  | loadDatabase material dbName assistGas =>
    [.integer material.value, .text dbName, .integer assistGas.value]
  | init totalParts width height => [.count totalParts, .number width, .number height]
  | partOrigin x y rotation partCodeBlock contourCount =>
    [.number x, .number y, .number rotation, .count partCodeBlock, .count contourCount]
  | contourStart piercingType cuttingType x y toolCompensation width height =>
    [.integer piercingType.value, .integer cuttingType.value, .number x, .number y,
      .integer toolCompensation, .number width, .number height]
  | leadIn code x y i j => [.integer code, .number x, .number y, .number i, .number j]
  | contourEnd code x y i j web =>
    [.integer code, .number x, .number y, .number i, .number j, .integer web]
  | remnantStart cuttingType cuttingKind x y =>
    [.integer cuttingType.value, .integer cuttingKind, .number x, .number y]
  | remnantPhase phase => [.integer phase]
  | partProgram | pierce | startCut | partEnd | programEnd => []

/-- The name and the fields say all that there is to know about a call. -/
theorem eq_of_fields {c d : MacroCall α} (hname : c.name = d.name) (hfields : c.fields = d.fields) :
    c = d := by
  cases c <;> cases d <;> simp_all [name, fields, Code.value_inj]

/-- The layout of the fields that a name stands for. The remnant marker has two. -/
def layout? : String → Option (List FieldKind)
  | "HKLDB" => some [.integer, .text, .integer]
  | "HKINI" => some [.count, .number, .number]
  | "HKOST" => some [.number, .number, .number, .count, .count]
  | "HKPPP" => some []
  | "HKSTR" => some [.integer, .integer, .number, .number, .integer, .number, .number]
  | "HKPIE" => some []
  | "HKLEA" => some [.integer, .number, .number, .number, .number]
  | "HKCUT" => some []
  | "HKSTO" => some [.integer, .number, .number, .number, .number, .integer]
  | "HKPED" => some []
  | "HKEND" => some []
  | _ => none

def remnantStartLayout : List FieldKind := [.integer, .integer, .number, .number]

def remnantPhaseLayout : List FieldKind := [.integer]

end Layouts

/-- The argument at a position, without the blanks around it. A missing argument is empty. -/
def argument (args : List (List Char)) (k : Nat) : List Char := trim (args[k]?.getD [])

variable {α : Type} [Scalar α]

def FieldKind.read (arg : List Char) : FieldKind → Field α
  | number => .number (lenientNumber arg)
  | integer => .integer (Scalar.toInt32 (lenientNumber arg : α))
  | count => .count (Scalar.toUInt32 (lenientNumber arg : α))
  | text => .text (String.ofList (arg.filter (· != '"')))

/-- The fields of a layout, each from the argument at its own position. -/
def readFields (layout : List FieldKind) (args : List (List Char)) : List (Field α) :=
  layout.mapIdx fun k kind => kind.read (argument args k)

theorem getD_map_trim (args : List (List Char)) (k : Nat) :
    (args.map trim)[k]?.getD [] = argument args k := by
  rw [List.getElem?_map, argument]
  cases args[k]? <;> rfl

theorem number_map_trim (args : List (List Char)) (k : Nat) :
    (number (args.map trim) k : α) = lenientNumber (argument args k) := by
  rw [number, ← getD_map_trim]
  cases (args.map trim)[k]? <;> rfl

theorem quoted_map_trim (args : List (List Char)) (k : Nat) :
    quoted (args.map trim) k = String.ofList ((argument args k).filter (· != '"')) := by
  rw [quoted, getD_map_trim]

section Read

variable {name : String} {layout : List FieldKind} {args : List (List Char)}

/-- A name with a layout makes a call of any arguments. -/
theorem exists_ofArguments? (h : layout? name = some layout) (args : List (List Char)) :
    ∃ c : MacroCall α, ofArguments? name (args.map trim) = some c ∧ c.name = name ∧
      c.fields = readFields layout args := by
  unfold layout? at h
  split at h <;> cases h <;>
    exact ⟨_, rfl, rfl, by simp [fields, readFields, FieldKind.read, code, count, number_map_trim,
      quoted_map_trim]⟩

theorem exists_remnantStart (h : 4 ≤ args.length) :
    ∃ cut kind, ∃ x y : α,
      ofArguments? "HKSCRC" (args.map trim) = some (remnantStart cut kind x y) ∧
      (remnantStart cut kind x y).fields = readFields remnantStartLayout args := by
  have hcount : 4 ≤ (args.map trim).length := by simpa using h
  refine ⟨_, _, _, _, if_pos hcount, ?_⟩
  simp [fields, readFields, remnantStartLayout, FieldKind.read, code, number_map_trim]

theorem exists_remnantPhase (h : args.length = 1) :
    ∃ phase, ofArguments? "HKSCRC" (args.map trim) = some (remnantPhase phase : MacroCall α) ∧
      (remnantPhase phase : MacroCall α).fields = readFields remnantPhaseLayout args := by
  have hcount : ¬ 4 ≤ (args.map trim).length := by simp [h]
  have hone : (args.map trim).length = 1 := by simpa using h
  refine ⟨_, (if_neg hcount).trans (if_pos hone), ?_⟩
  simp [fields, readFields, remnantPhaseLayout, FieldKind.read, code, number_map_trim]

theorem ofArguments?_remnant_eq_none (h : args.length ≠ 1) (hlt : args.length < 4) :
    (ofArguments? "HKSCRC" (args.map trim) : Option (MacroCall α)) = none := by
  simp [ofArguments?, h, hlt]

theorem ofArguments?_eq_none (h : layout? name = none) (hname : name ≠ "HKSCRC") :
    (ofArguments? name args : Option (MacroCall α)) = none := by
  unfold ofArguments?
  split <;> simp_all [layout?]

end Read

structure IsName (cs : List Char) : Prop where
  head : cs.take 2 = ['H', 'K']
  ne_nil : cs.drop 2 ≠ []
  capitals : ∀ c ∈ cs.drop 2, 'A' ≤ c ∧ c ≤ 'Z'

/-- No character that ends an argument or the line. -/
def IsArgument (arg : List Char) : Prop := ',' ∉ arg ∧ ')' ∉ arg ∧ '\n' ∉ arg

instance (arg : List Char) : Decidable (IsArgument arg) := inferInstanceAs (Decidable (_ ∧ _))

/-- The arguments in parentheses. Without arguments there are no parentheses; empty parentheses hold
one empty argument. -/
def inParentheses : List (List Char) → List Char
  | [] => []
  | arg :: args => '(' :: ([','].intercalate (arg :: args) ++ [')'])

def callText (name : String) (args : List (List Char)) : String :=
  name ++ String.ofList (inParentheses args)

section Written

variable {name : String} {args : List (List Char)}

theorem isName_of_layout? {layout : List FieldKind} (h : layout? name = some layout) :
    IsName name.toList := by
  unfold layout? at h
  split at h <;> cases h <;> exact ⟨by decide, by decide, by simp⟩

theorem IsName.eq_cons {cs : List Char} (h : IsName cs) : cs = 'H' :: 'K' :: cs.drop 2 := by
  rw [← List.take_append_drop 2 cs, h.head]
  simp

theorem IsName.bounds {cs : List Char} (h : IsName cs) {c : Char} (hc : c ∈ cs) :
    'A' ≤ c ∧ c ≤ 'Z' := by
  rw [h.eq_cons, List.mem_cons, List.mem_cons] at hc
  rcases hc with rfl | rfl | hc
  · decide
  · decide
  · exact h.capitals c hc

theorem IsName.name?_append {cs : List Char} (h : IsName cs) {rest : List Char}
    (hrest : ∀ c, rest.head? = some c → ¬ ('A' ≤ c ∧ c ≤ 'Z')) : name? (cs ++ rest) = some cs := by
  have htake : (cs.drop 2 ++ rest).takeWhile (fun c => 'A' ≤ c && c ≤ 'Z') = cs.drop 2 := by
    rw [Json.takeWhile_append_of_head, List.takeWhile_eq_self_iff]
    · simpa using h.capitals
    · intro c hc
      simpa using hrest c hc
  rw [h.eq_cons]
  simp [name?, htake, h.ne_nil]

theorem toList_callText (name : String) (args : List (List Char)) :
    (callText name args).toList = name.toList ++ inParentheses args := by
  simp [callText]

theorem head?_inParentheses {c : Char} (h : (inParentheses args).head? = some c) : c = '(' := by
  cases args with
  | nil => cases h
  | cons arg args =>
    cases h
    rfl

theorem getLast?_inParentheses {c : Char} (h : (inParentheses args).getLast? = some c) :
    c = ')' := by
  cases args with
  | nil => cases h
  | cons arg args =>
    rw [inParentheses, ← List.cons_append, List.getLast?_concat] at h
    cases h
    rfl

theorem not_mem_inParentheses (hargs : ∀ arg ∈ args, IsArgument arg) :
    '\n' ∉ inParentheses args := by
  cases args with
  | nil => exact List.not_mem_nil
  | cons arg args =>
    have hinner : '\n' ∉ [','].intercalate (arg :: args) :=
      not_mem_intercalate (by decide) fun arg harg => (hargs arg harg).2.2
    simp [inParentheses, hinner]

theorem name?_callText (hname : IsName name.toList) :
    name? (callText name args).toList = some name.toList := by
  rw [toList_callText]
  apply hname.name?_append
  intro c hc
  rw [head?_inParentheses hc]
  decide

theorem arguments_callText (hname : IsName name.toList) (hargs : ∀ arg ∈ args, IsArgument arg) :
    arguments (callText name args).toList = args.map trim := by
  have hparen : '(' ∉ name.toList := fun hmem => absurd (hname.bounds hmem) (by decide)
  rw [toList_callText]
  cases args with
  | nil =>
    have hdrop : name.toList.dropWhile (· != '(') = [] := by
      rw [List.dropWhile_eq_nil_iff]
      intro c hc
      rw [bne_iff_ne]
      rintro rfl
      exact hparen hc
    simp [inParentheses, arguments, argumentText?, hdrop]
  | cons arg args =>
    exact arguments_call hparen (List.cons_ne_nil arg args)
      fun arg harg => ⟨(hargs arg harg).1, (hargs arg harg).2.1⟩

theorem isBlank_of_bounds {c : Char} (h : 'A' ≤ c ∧ c ≤ 'Z') : isBlank c = false := by
  have hlow : 65 ≤ c.toNat := h.1
  have hhigh : c.toNat ≤ 90 := h.2
  simp [isBlank]
  omega

/-- A call begins with its name and ends with it or with a parenthesis. -/
theorem trim_callText (hname : IsName name.toList) (args : List (List Char)) :
    trim (callText name args).toList = (callText name args).toList := by
  rw [toList_callText]
  apply trim_eq_self
  · intro c hc
    rw [hname.eq_cons] at hc
    cases hc
    rfl
  · intro c hc
    rw [List.getLast?_append, Option.or_eq_some_iff] at hc
    rcases hc with hc | ⟨-, hc⟩
    · rw [getLast?_inParentheses hc]
      rfl
    · exact isBlank_of_bounds (hname.bounds (List.mem_of_getLast? hc))

/-- A call is read from its name and its trimmed arguments. -/
theorem ofText_callText (hname : IsName name.toList) (hargs : ∀ arg ∈ args, IsArgument arg) :
    (Command.ofText (callText name args) : List (Command α)) =
      (ofArguments? name (args.map trim)).toList.map .call := by
  have hread : (ofLine? (callText name args).toList : Option (MacroCall α)) =
      ofArguments? name (args.map trim) := by
    rw [ofLine?, name?_callText hname, arguments_callText hname hargs]
    simp
  have hline : '\n' ∉ (callText name args).toList := by
    rw [toList_callText, List.mem_append, not_or]
    exact ⟨fun hmem => absurd (hname.bounds hmem) (by decide), not_mem_inParentheses hargs⟩
  rw [Command.ofText_of_not_mem hline, trim_callText hname, ← hread, toList_callText,
    hname.eq_cons]
  exact Command.ofLine_call _

end Written

/-- A change to the arguments of a call with `n` fields: blanks around an argument, empty arguments
at the end, or arguments behind those of the fields. -/
inductive Edit (n : Nat) : List (List Char) → List (List Char) → Prop
  | pad {pre post : List Char} (before : List (List Char)) (arg : List Char)
      (after : List (List Char)) (hpre : IsSpacing pre) (hpost : IsSpacing post) :
      Edit n (before ++ arg :: after) (before ++ (pre ++ arg ++ post) :: after)
  | appendEmpty (args : List (List Char)) (k : Nat) : Edit n args (args ++ List.replicate k [])
  | dropEmpty (args : List (List Char)) (k : Nat) : Edit n (args ++ List.replicate k []) args
  | appendSurplus {args more : List (List Char)} (hfull : n ≤ args.length)
      (hmore : ∀ arg ∈ more, IsArgument arg) : Edit n args (args ++ more)

def Edited (n : Nat) : List (List Char) → List (List Char) → Prop :=
  Relation.ReflTransGen (Edit n)

section Edits

variable {n k : Nat} {args args' : List (List Char)}

theorem argument_append_replicate (args : List (List Char)) (j k : Nat) :
    argument (args ++ List.replicate j []) k = argument args k := by
  by_cases hk : k < args.length
  · rw [argument, argument, List.getElem?_append_left hk]
  · have hmissing : args[k]? = none := List.getElem?_eq_none (by omega)
    rw [argument, argument, List.getElem?_append_right (by omega), hmissing,
      List.getElem?_replicate]
    split <;> rfl

/-- The arguments of the fields stay the same but for blanks. -/
theorem Edit.argument_eq (h : Edit n args args') (hk : k < n) :
    argument args' k = argument args k := by
  cases h with
  | pad before arg after hpre hpost =>
    rw [← getD_map_trim, ← getD_map_trim]
    simp only [List.map_append, List.map_cons, trim_surrounded hpre hpost]
  | appendEmpty _ j => exact argument_append_replicate args j k
  | dropEmpty _ j => exact (argument_append_replicate args' j k).symm
  | appendSurplus hfull hmore =>
    rw [argument, argument, List.getElem?_append_left (by omega)]

theorem isArgument_nil : IsArgument [] := by simp [IsArgument]

theorem IsArgument.padded {pre arg post : List Char} (h : IsArgument arg) (hpre : IsSpacing pre)
    (hpost : IsSpacing post) : IsArgument (pre ++ arg ++ post) := by
  have hblank : ∀ {cs : List Char}, IsSpacing cs → IsArgument cs := by
    intro cs hcs
    refine ⟨fun hmem => ?_, fun hmem => ?_, hcs.not_mem⟩
    · exact absurd (hcs _ hmem).1 (by decide)
    · exact absurd (hcs _ hmem).1 (by decide)
  have hpre := hblank hpre
  have hpost := hblank hpost
  simp only [IsArgument, List.mem_append, not_or] at *
  tauto

theorem Edit.isArgument (h : Edit n args args') (hargs : ∀ arg ∈ args, IsArgument arg) :
    ∀ arg ∈ args', IsArgument arg := by
  cases h with
  | pad before arg after hpre hpost =>
    simp only [List.forall_mem_append, List.forall_mem_cons] at hargs ⊢
    exact ⟨hargs.1, hargs.2.1.padded hpre hpost, hargs.2.2⟩
  | appendEmpty _ j =>
    rw [List.forall_mem_append]
    refine ⟨hargs, fun arg harg => ?_⟩
    rw [List.eq_of_mem_replicate harg]
    exact isArgument_nil
  | dropEmpty _ j => exact (List.forall_mem_append.1 hargs).1
  | appendSurplus hfull hmore => exact List.forall_mem_append.2 ⟨hargs, hmore⟩

theorem Edited.argument_eq (h : Edited n args args') (hk : k < n) :
    argument args' k = argument args k := by
  induction h with
  | refl => rfl
  | tail _ hedit ih => rw [hedit.argument_eq hk, ih]

theorem Edited.isArgument (h : Edited n args args') (hargs : ∀ arg ∈ args, IsArgument arg) :
    ∀ arg ∈ args', IsArgument arg := by
  induction h with
  | refl => exact hargs
  | tail _ hedit ih => exact hedit.isArgument ih

variable {α : Type} [Scalar α] {layout : List FieldKind} {c d : MacroCall α}

theorem Edited.readFields_eq (h : Edited layout.length args args') :
    (readFields layout args' : List (Field α)) = readFields layout args := by
  rw [readFields, readFields]
  apply List.ext_getElem
  · simp
  · intro k hk _
    rw [List.length_mapIdx] at hk
    simp [h.argument_eq hk]

/-- The call of the changed arguments has the same name and fields, so it is the same call. -/
theorem Edited.ofText_callText_eq {name : String} (h : Edited layout.length args args')
    (hargs : ∀ arg ∈ args, IsArgument arg) (hname : IsName name.toList)
    (hread : ofArguments? name (args'.map trim) = some d) (hnames : c.name = name ∧ d.name = name)
    (hc : c.fields = readFields layout args) (hd : d.fields = readFields layout args') :
    Command.ofText (callText name args') = [.call c] := by
  have heq : d = c := by
    apply eq_of_fields (hnames.2.trans hnames.1.symm)
    rw [hd, h.readFields_eq, hc]
  rw [ofText_callText hname (h.isArgument hargs), hread, heq]
  rfl

end Edits

/-- A call by a name with a layout is read field by field, and however its arguments are written
anew it stays the same call. The remnant marker is read in the same way, but for the number of its
arguments, which tells its two calls apart. No other name is known. -/
theorem call_of_arguments {α : Type} [Scalar α] {args : List (List Char)}
    (hargs : ∀ arg ∈ args, IsArgument arg) :
    (∀ name layout, layout? name = some layout → ∃ c : MacroCall α, c.name = name ∧
      c.fields = readFields layout args ∧ ∀ args', Edited layout.length args args' →
        Command.ofText (callText name args') = [.call c]) ∧
    (4 ≤ args.length → ∃ cut kind, ∃ x y : α,
      (remnantStart cut kind x y).fields = readFields remnantStartLayout args ∧
      ∀ args', Edited remnantStartLayout.length args args' → 4 ≤ args'.length →
        Command.ofText (callText "HKSCRC" args') = [.call (remnantStart cut kind x y)]) ∧
    (args.length = 1 → ∃ phase,
      (remnantPhase phase : MacroCall α).fields = readFields remnantPhaseLayout args ∧
      ∀ args', Edited remnantPhaseLayout.length args args' → args'.length = 1 →
        Command.ofText (callText "HKSCRC" args') = [.call (remnantPhase phase : MacroCall α)]) ∧
    (args.length ≠ 1 → args.length < 4 →
      (Command.ofText (callText "HKSCRC" args) : List (Command α)) = []) ∧
    ∀ name, IsName name.toList → layout? name = none → name ≠ "HKSCRC" →
      (Command.ofText (callText name args) : List (Command α)) = [] := by
  have hremnant : IsName "HKSCRC".toList := ⟨by decide, by decide, by simp⟩
  refine ⟨?_, ?_, ?_, ?_, ?_⟩
  -- The given arguments make a call, the changed ones another, and both have the same fields.
  · intro name layout hlayout
    obtain ⟨c, -, hc, hfields⟩ := exists_ofArguments? (α := α) hlayout args
    refine ⟨c, hc, hfields, fun args' hedit => ?_⟩
    obtain ⟨d, hread, hd, hfields'⟩ := exists_ofArguments? (α := α) hlayout args'
    exact hedit.ofText_callText_eq hargs (isName_of_layout? hlayout) hread ⟨hc, hd⟩ hfields hfields'
  · intro hcount
    obtain ⟨cut, kind, x, y, -, hfields⟩ := exists_remnantStart (α := α) hcount
    refine ⟨cut, kind, x, y, hfields, fun args' hedit hcount' => ?_⟩
    obtain ⟨_, _, _, _, hread, hfields'⟩ := exists_remnantStart (α := α) hcount'
    exact hedit.ofText_callText_eq hargs hremnant hread ⟨rfl, rfl⟩ hfields hfields'
  · intro hcount
    obtain ⟨phase, -, hfields⟩ := exists_remnantPhase (α := α) hcount
    refine ⟨phase, hfields, fun args' hedit hcount' => ?_⟩
    obtain ⟨_, hread, hfields'⟩ := exists_remnantPhase (α := α) hcount'
    exact hedit.ofText_callText_eq hargs hremnant hread ⟨rfl, rfl⟩ hfields hfields'
  · intro hne hlt
    rw [ofText_callText hremnant hargs, ofArguments?_remnant_eq_none hne hlt]
    rfl
  · intro name hname hlayout hne
    rw [ofText_callText hname hargs, ofArguments?_eq_none hlayout hne]
    rfl

/-- The end of a contour with two arguments, with seven, and without any; and the remnant marker
with two arguments and with an empty one. -/
theorem call_of_arguments_elided :
    ((∀ arg ∈ [['1'], ['1', '0', '.', '5']], IsArgument arg) ∧
      ∃ c : MacroCall Float,
        c.fields = [.integer 1, .number 10.5, .number 0, .number 0, .number 0, .integer 0] ∧
        Command.ofText "HKSTO(1,10.5)" = [.call c] ∧
        Command.ofText "HKSTO(\t1,10.5,,,,,9(\")" = [.call c] ∧
        (Command.ofText "HKSCRC(1,10.5)" : List (Command Float)) = []) ∧
    (∀ arg ∈ [[]], IsArgument arg) ∧
      Command.ofText "HKSCRC( )" = [.call (.remnantPhase 0 : MacroCall Float)] ∧
      ∃ c : MacroCall Float,
        Command.ofText "HKSTO()" = [.call c] ∧ Command.ofText "HKSTO" = [.call c] := by
  constructor
  · have hargs : ∀ arg ∈ [['1'], ['1', '0', '.', '5']], IsArgument arg := by decide
    obtain ⟨hlayouts, -, -, hnone, -⟩ := call_of_arguments (α := Float) hargs
    obtain ⟨c, -, hfields, hread⟩ := hlayouts "HKSTO" _ rfl
    have hpad : Edit 6 [['1'], ['1', '0', '.', '5']] [['\t', '1'], ['1', '0', '.', '5']] :=
      .pad [] ['1'] [['1', '0', '.', '5']] (by decide : IsSpacing ['\t']) isSpacing_nil
    have hempty := Edit.appendEmpty (n := 6) [['\t', '1'], ['1', '0', '.', '5']] 4
    have hsurplus : Edit 6 ([['\t', '1'], ['1', '0', '.', '5']] ++ List.replicate 4 []) _ :=
      .appendSurplus (by decide) (by decide : ∀ arg ∈ [['9', '(', '"']], IsArgument arg)
    refine ⟨hargs, c, ?_, ?_, ?_, hnone (by decide) (by decide)⟩
    · rw [hfields]
      rfl
    · exact hread _ .refl
    · exact hread _ (((Relation.ReflTransGen.single hpad).tail hempty).tail hsurplus)
  · have hargs : ∀ arg ∈ [[]], IsArgument arg := by decide
    obtain ⟨hlayouts, -, hphase, -, -⟩ := call_of_arguments (α := Float) hargs
    obtain ⟨phase, hfields, hread⟩ := hphase rfl
    obtain ⟨c, -, -, hcall⟩ := hlayouts "HKSTO" _ rfl
    have hzero : phase = 0 := Field.integer.inj (List.cons.inj hfields).1
    refine ⟨hargs, ?_, c, ?_, ?_⟩
    · rw [← hzero]
      exact hread _ (.single (.pad [] [] [] (by decide : IsSpacing [' ']) isSpacing_nil)) rfl
    · exact hcall _ .refl
    · exact hcall _ (.single (.dropEmpty [] 1))

end MacroCall

end SheetCut
