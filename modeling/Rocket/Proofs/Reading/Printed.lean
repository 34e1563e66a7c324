import Rocket.Command.Printer
import Rocket.Proofs.Reading.Statement
import Rocket.Proofs.Reading.Whole
import Rocket.Proofs.Token.Layout

/-!
# Printed programs read back

The printed text of a program is read as a program of the same commands, each on a
line of its own, and there is nothing to remark on it.

## Implementation notes

A printed command is a layout of tokens, so scanning it needs no case for each
character. The layout of a command list follows the printer: a comma and a blank
stand between neighbouring calls.
-/

namespace Rocket

open Token (Kind)

/-! ## Layouts of commands -/

/-- An action's call, laid out. -/
def Primitive.layout (p : Primitive) : Layout :=
  [(.primitive p, []), (.openParen, []), (.closeParen, [])]

namespace Command

/-- The inside of a command list, laid out. -/
def bodyLayout : List Primitive → Layout
  | [] => []
  | [p] => p.layout
  | p :: rest => p.layout ++ (.comma, [' ']) :: bodyLayout rest

/-- A command as a statement, laid out without its last token. -/
def frontLayout : Command → Layout
  | .primitive p => p.layout
  | .loop count body =>
      (.loop, []) :: (.openParen, [])
        :: (.digits (String.ofList (Nat.toDigits 10 count.toNat)), []) :: (.comma, [' '])
        :: (.openBracket, []) :: (bodyLayout body ++ [(.closeBracket, []), (.closeParen, [])])

/-- A command as a statement, laid out. -/
def layout (command : Command) : Layout :=
  command.frontLayout ++ [(.semicolon, [])]

theorem chars_primitive_layout (p : Primitive) : p.layout.chars = p.chars := by
  simp [Primitive.layout, Primitive.chars, Primitive.text, Kind.text]

theorem chars_bodyLayout (body : List Primitive) :
    (bodyLayout body).chars = bodyChars body := by
  fun_induction bodyLayout body with
  | case1 => rfl
  | case2 p => simp [bodyChars, chars_primitive_layout]
  | case3 p rest more ih =>
      obtain ⟨q, rest, rfl⟩ := List.exists_cons_of_ne_nil more
      rw [Layout.chars_append, Layout.chars_cons, ih, chars_primitive_layout]
      simp only [bodyChars, List.map_cons, List.intercalate_cons_cons, List.append_assoc]
      rfl

/-- The layout of a command spells its printed text. -/
theorem chars_layout (command : Command) : command.layout.chars = command.chars := by
  cases command with
  | primitive p =>
      rw [layout, frontLayout, Layout.chars_append, chars_primitive_layout, chars_primitive]
      rfl
  | loop count body =>
      rw [layout, frontLayout, chars_loop]
      simp only [Layout.chars_append, Layout.chars_cons, Layout.chars_nil, chars_bodyLayout,
        Kind.text, Kind.loopWord, String.toList_ofList]
      simp

/-- A call stands clear of whatever follows it. -/
theorem isReadable_primitive_append (p : Primitive) {tail : Layout} (readable : tail.IsReadable) :
    (p.layout ++ tail).IsReadable := by
  have name : (Kind.primitive p).EndsBefore ['('] := by
    simp [Kind.EndsBefore]
  refine ⟨⟨trivial, ?_⟩, by simp, ⟨trivial, trivial⟩, by simp, ⟨trivial, trivial⟩, by simp,
    readable⟩
  exact name

theorem isReadable_bodyLayout_append (body : List Primitive) {tail : Layout}
    (readable : tail.IsReadable) : (bodyLayout body ++ tail).IsReadable := by
  fun_induction bodyLayout body with
  | case1 => exact readable
  | case2 p => exact isReadable_primitive_append p readable
  | case3 p rest more ih =>
      rw [List.append_assoc]
      apply isReadable_primitive_append
      exact ⟨⟨trivial, trivial⟩, by simp [Scanner.isGap], ih⟩

/-- The layout of a command is readable. -/
theorem isReadable_layout (command : Command) : command.layout.IsReadable := by
  have semicolon : Layout.IsReadable [(.semicolon, [])] := ⟨⟨trivial, trivial⟩, by simp, trivial⟩
  cases command with
  | primitive p => exact isReadable_primitive_append p semicolon
  | loop count body =>
      have closing : Layout.IsReadable [(.closeBracket, []), (.closeParen, []), (.semicolon, [])] :=
        ⟨⟨trivial, trivial⟩, by simp, ⟨trivial, trivial⟩, by simp, semicolon⟩
      have inside := isReadable_bodyLayout_append body closing
      have numeral := Text.isNumeral_toDigits count.toNat
      have word : Kind.loop.EndsBefore ['('] := by simp [Kind.EndsBefore]
      have digits := Kind.isSpelled_digits numeral.nonempty numeral.all
      have clear :
          Kind.EndsBefore (.digits (String.ofList (Nat.toDigits 10 count.toNat))) [','] := by
        simp [Kind.EndsBefore]
      rw [layout, frontLayout]
      refine ⟨⟨trivial, ?_⟩, by simp, ⟨trivial, trivial⟩, by simp, ⟨digits, ?_⟩, by simp,
        ⟨trivial, trivial⟩, by simp [Scanner.isGap], ⟨trivial, trivial⟩, by simp, ?_⟩
      · exact word
      · exact clear
      · simpa using inside

/-! ## The grammar of layouts -/

/-- Calls with commas between them are entries of a command list. -/
theorem isEntries_bodyLayout (body : List Primitive) :
    Grammar.IsEntries (bodyLayout body).kinds body := by
  fun_induction bodyLayout body with
  | case1 => exact .last .empty
  | case2 p => exact .last (.call p)
  | case3 p rest more ih =>
      rw [Layout.kinds, List.map_append]
      exact .more (.call p) ih

/-- The layout of a command has the kinds of a statement. -/
theorem isStatement_layout (command : Command) :
    Grammar.IsStatement command.layout.kinds command := by
  cases command with
  | primitive p => exact .primitive p
  | loop count body =>
      have numeral := Text.isNumeral_toDigits count.toNat
      rw [← String.toList_ofList (l := Nat.toDigits 10 count.toNat)] at numeral
      have statement := Grammar.IsStatement.loop numeral (isEntries_bodyLayout body)
      simpa [layout, frontLayout, Layout.kinds] using statement

/-! ## Lines of printed text -/

theorem newline_notMem_primitive (p : Primitive) : '\n' ∉ p.chars := by
  match p with
  | .move | .turn .right | .turn .left => decide

theorem newline_notMem_bodyChars (body : List Primitive) : '\n' ∉ bodyChars body := by
  rw [← chars_bodyLayout]
  fun_induction bodyLayout body with
  | case1 => exact List.not_mem_nil
  | case2 p =>
      rw [chars_primitive_layout]
      exact newline_notMem_primitive p
  | case3 p rest more ih =>
      rw [Layout.chars_append, Layout.chars_cons, chars_primitive_layout]
      simp [newline_notMem_primitive p, ih, Kind.text]

/-- The printed text of a command stays on its line. -/
theorem newline_notMem_chars (command : Command) : '\n' ∉ command.chars := by
  cases command with
  | primitive p =>
      rw [chars_primitive]
      simp [newline_notMem_primitive p]
  | loop count body =>
      have digits : '\n' ∉ Nat.toDigits 10 count.toNat := by
        intro member
        have digit := (Text.isNumeral_toDigits count.toNat).all _ member
        simp at digit
      rw [chars_loop]
      simp [digits, newline_notMem_bodyChars body]

/-! ## Reading a printed command -/

/-- The tokens of a printed command are those of its layout, none of them a problem. -/
theorem ofLine_chars (n : Nat) (command : Command) :
    Scanned.ofLine n command.chars = (command.layout.tokens n 1).map (⟨·, none⟩) := by
  rw [← chars_layout, Scanned.ofLine, Layout.ofChars_chars n 1 (isReadable_layout command)]

/-- There is nothing to remark on the characters of a printed command. -/
theorem lineRemarks_chars (n : Nat) (command : Command) :
    Scanned.lineRemarks n command.chars = [] := by
  rw [Scanned.lineRemarks, ofLine_chars, List.filterMap_map, List.filterMap_eq_nil_iff]
  intro token _
  rfl

/-- The line of a printed command is read as the command, from its first column to its
last. -/
theorem read_chars (source : Source) (ending : Kind) (n : Nat) (command : Command) :
    Line.read source (.ofChars ending n command.chars) =
      pure ⟨command, ⟨n, 1, command.chars.length⟩⟩ := by
  have tokens : (Line.ofChars ending n command.chars).tokens = command.layout.tokens n 1 := by
    rw [Line.ofChars, ofLine_chars, List.map_map]
    exact List.map_id _
  have kinds := Layout.kinds_tokens n 1 command.layout
  have statement := isStatement_layout command
  have regular := Grammar.isRegular_of_isStatement statement
  rw [← kinds, ← tokens] at statement regular
  rw [Grammar.read_eq_pure_iff regular]
  refine ⟨statement, ?_⟩
  have size : command.layout.tokens n 1 ≠ [] := by
    intro none
    rw [tokens, none] at statement
    cases statement
  obtain ⟨first, tail, split⟩ := List.exists_cons_of_ne_nil size
  have head : (command.layout.tokens n 1).head? = some first := by rw [split, List.head?_cons]
  obtain ⟨last, tail⟩ : ∃ last, (command.layout.tokens n 1).getLast? = some last :=
    ⟨_, List.getLast?_eq_some_getLast size⟩
  have span := Layout.merge_tokens (isReadable_layout command) rfl head tail
  rw [chars_layout] at span
  exact ⟨first, last, by rw [tokens, head], by rw [tokens, tail], span.symm⟩

end Command

namespace Program

/-- The lines of a printed program are its printed commands, and an empty line. -/
theorem splitOn_chars (program : Program) :
    program.chars.splitOn '\n' = program.commands.map Command.chars ++ [[]] := by
  obtain ⟨statements⟩ := program
  induction statements with
  | nil => rfl
  | cons statement rest ih =>
      have single := List.splitOn_eq_singleton (Command.newline_notMem_chars statement.command)
      rw [chars_cons, List.splitOn_append_cons_self, single, ih]
      rfl

variable (name : String) (program : Program)

theorem lines_text :
    (Source.ofText name program.text).lines = program.commands.map Command.chars ++ [[]] := by
  rw [Source.lines_ofText, text, String.toList_ofList, splitOn_chars]

theorem tokenLines_text :
    (Source.ofText name program.text).tokenLines =
      (program.commands.zipIdx 1).map (fun (command, n) => .ofChars .newline n command.chars)
        ++ [.ofChars .endOfInput (1 + program.commands.length) []] := by
  rw [Source.tokenLines, lines_text, Line.ofLines_append _ _ (List.cons_ne_nil _ _),
    List.zipIdx_map, List.map_map, List.length_map]
  rfl

/-- Nothing is remarked on a printed program. -/
theorem remarks_text : Parsed.remarks (.ofText name program.text) = [] := by
  have ofLines : ((Source.ofText name program.text).tokenLines.flatMap fun line =>
      (Line.read (.ofText name program.text) line).remarks) = [] := by
    rw [tokenLines_text, List.flatMap_append, List.flatMap_map]
    simp [Command.read_chars, Line.read_ofChars_nil, Reading.fail]
  have ofChars : (Source.ofText name program.text).scanRemarks = [] := by
    rw [Parsed.scanRemarks_eq, lines_text, List.zipIdx_append, List.zipIdx_map,
      List.flatMap_append, List.flatMap_map]
    simp [Command.lineRemarks_chars, Scanned.lineRemarks_nil]
  rw [Parsed.remarks_eq, ofLines, ofChars, List.append_nil]

/-- The statements of a printed program are its commands, each on the line of its
place in the program. -/
theorem kept_text :
    Parsed.kept (.ofText name program.text) =
      program.commands.mapIdx fun i command => ⟨command, ⟨i + 1, 1, command.text.length⟩⟩ := by
  have each : ∀ piece : Command × Nat,
      (Line.read (.ofText name program.text)
        (.ofChars .newline (1 + piece.2) piece.1.chars)).value? =
      some ⟨piece.1, ⟨piece.2 + 1, 1, piece.1.text.length⟩⟩ := by
    rintro ⟨command, i⟩
    rw [Command.read_chars, Reading.value?_pure, Nat.add_comm, Command.text,
      ← String.length_toList, String.toList_ofList]
  rw [Parsed.kept_eq, tokenLines_text, List.filterMap_append, List.filterMap_map,
    List.mapIdx_eq_zipIdx_map, List.zipIdx_eq_map_add, List.filterMap_map]
  simp only [Function.comp_def, each, List.filterMap_cons, Line.read_ofChars_nil]
  simp [Reading.fail]

/-- Reading the printed text of a program gives back its commands, in either mode and
with nothing to report. Every statement spans the line of its number. -/
theorem ofSource_text (mode : Mode) :
    Parsed.ofSource (.ofText name program.text) mode =
      { program? := some
          ⟨program.commands.mapIdx fun i command =>
            ⟨command, ⟨i + 1, 1, command.text.length⟩⟩⟩
        findings := .empty } := by
  rw [Parsed.ofSource_of_clean (remarks_text name program), kept_text]

end Program

end Rocket
