import Rocket.Proofs.Reading.Stray
import Rocket.Proofs.Token.Places

/-!
# How many actions a source asks for

An action that a command list names is written out, so a list has fewer actions than its
line has characters. A repetition multiplies them by its count, and nothing else makes one
line ask for more.
-/

namespace Rocket

open Token (room)

/-- How many actions a command names. -/
def Command.named : Command → Nat
  | .primitive _ => 1
  | .loop _ body => body.length

/-- A command asks for the actions that it names, each as often as a count can say. -/
theorem Command.actionCount_le (command : Command) :
    command.actionCount ≤ (2 ^ 32 - 1) * command.named := by
  cases command with
  | primitive p => exact Nat.le_of_ble_eq_true rfl
  | loop count body => exact Nat.mul_le_mul_right _ (Nat.le_pred_of_lt count.toNat_lt)

namespace Entry

/-- A call takes at least one character between the commas. -/
theorem length_calls_le (text : String) : (calls text).length ≤ text.toList.length := by
  have call : ∀ pieces : List (List Char),
      ((pieces.map bare).filter (!·.isEmpty)).length ≤ (pieces.map List.length).sum := by
    intro pieces
    induction pieces with
    | nil => exact Nat.le_refl 0
    | cons piece pieces ih =>
        rw [List.map_cons, List.map_cons, List.sum_cons, List.filter_cons]
        cases piece with
        | nil => exact ih.trans (Nat.le_add_left _ _)
        | cons c piece =>
            rw [List.length_cons]
            split
            · rw [List.length_cons]
              omega
            · omega
  exact (call _).trans (Text.sum_length_splitOn_le ',' _)

variable {source : Source} {tokens : List Token}

/-- An entry has at most as many actions as its tokens have room for. -/
theorem length_le_of_read {actions : List Primitive}
    (h : (read source tokens).value? = some actions) : actions.length ≤ room tokens := by
  unfold read at h
  split at h
  · obtain rfl := Option.some.inj h
    exact Nat.le_refl 0
  next text place =>
    obtain rfl := Option.some.inj h
    calc ((calls text).filterMap Primitive.ofText?).length
        ≤ (calls text).length := List.length_filterMap_le _ _
      _ ≤ text.toList.length := length_calls_le text
      _ ≤ room [⟨.quoted text, place⟩] := Nat.le_succ _
  · obtain rfl := Option.some.inj h
    exact Nat.le_of_ble_eq_true rfl
  · obtain rfl := Option.some.inj h
    exact Nat.zero_le _

theorem length_le_of_readAll {entries : List (List Token)} {body : List Primitive}
    (h : (readAll source entries).value? = some body) :
    body.length ≤ (entries.map room).sum := by
  induction entries generalizing body with
  | nil =>
      obtain rfl := Option.some.inj h
      exact Nat.le_refl 0
  | cons entry entries ih =>
      simp only [readAll, Reading.value?_bind_eq_some_iff] at h
      obtain ⟨actions, first, more, others, done⟩ := h
      obtain rfl := Option.some.inj done
      rw [List.length_append, List.map_cons, List.sum_cons]
      exact Nat.add_le_add (length_le_of_read first) (ih others)

end Entry

/-- The entries of a command list find room in it. -/
theorem Listing.room_entries_le (depth : Nat) (tokens : List Token) :
    ((ofTokens depth tokens).entries.map room).sum ≤ room tokens := by
  induction tokens generalizing depth with
  | nil => exact Nat.le_refl 0
  | cons token rest ih =>
      rw [ofTokens, Token.room_cons]
      split
      · dsimp only
        rw [List.map_cons, List.sum_cons, Token.room_nil, Nat.zero_add]
        exact (ih 0).trans (Nat.le_add_left _ _)
      · split
        · exact Nat.zero_le _
        · have others := ih (Entry.depthAfter depth token.kind)
          dsimp only
          cases entries : (ofTokens (Entry.depthAfter depth token.kind) rest).entries with
          | nil => exact Nat.zero_le _
          | cons entry entries' =>
              rw [entries, List.map_cons, List.sum_cons] at others
              rw [List.modifyHead_cons, List.map_cons, List.sum_cons, Token.room_cons]
              omega

namespace Line

variable {source : Source} {stop first : Token} {tokens rest : List Token} {command : Command}

theorem length_le_of_readBody {body : List Primitive}
    (h : (readBody source stop tokens).value? = some (body, rest)) :
    body.length ≤ room tokens := by
  obtain ⟨actions, read, closed⟩ := Reading.value?_bind_eq_some_iff.1 h
  have bound := (Entry.length_le_of_readAll read).trans (Listing.room_entries_le 0 tokens)
  split at closed
  · obtain ⟨rfl, -⟩ := Prod.mk.inj (Option.some.inj closed)
    exact bound
  · cases closed

theorem named_lt_of_readLoop (h : (readLoop source stop tokens).value? = some (command, rest)) :
    command.named < room tokens := by
  simp only [readLoop, Reading.value?_bind_eq_some_iff] at h
  obtain ⟨_, opened, ⟨count, _⟩, counted, _, parted, _, listed, ⟨body, _⟩, read, _, closed,
    done⟩ := h
  obtain ⟨opening, rfl, -⟩ := value?_expect.1 opened
  obtain ⟨digits, rfl, -⟩ := exists_readCount_append counted
  obtain ⟨comma, rfl, -⟩ := value?_expect.1 parted
  obtain ⟨bracket, rfl, -⟩ := value?_expect.1 listed
  obtain ⟨rfl, -⟩ := Prod.mk.inj (Option.some.inj done)
  have bound := length_le_of_readBody read
  have first := opening.kind.leastLength_pos
  simp only [Command.named, Token.room_cons, Token.room_append]
  omega

/-- The actions that a statement names find room on its line, and its words besides. -/
theorem named_lt_of_read {line : Line} {statement : Statement}
    (h : (read source line).value? = some statement) :
    statement.command.named < room line.tokens := by
  unfold read at h
  split at h
  · cases h
  next first rest tokens =>
    obtain ⟨⟨command, _⟩, commanded, ended⟩ := Reading.value?_bind_eq_some_iff.1 h
    obtain ⟨_, -, stated⟩ := Reading.value?_bind_eq_some_iff.1 ended
    obtain rfl := Option.some.inj stated
    rw [tokens, Token.room_cons]
    dsimp only
    unfold readCommand at commanded
    split at commanded
    next p action =>
      obtain ⟨_, called, done⟩ := Reading.value?_bind_eq_some_iff.1 commanded
      obtain ⟨_, opened, -⟩ := Reading.value?_bind_eq_some_iff.1 called
      obtain ⟨opening, rfl, -⟩ := value?_expect.1 opened
      obtain ⟨rfl, -⟩ := Prod.mk.inj (Option.some.inj done)
      have name := first.kind.leastLength_pos
      have bracket := opening.kind.leastLength_pos
      rw [Command.named, Token.room_cons]
      omega
    next =>
      exact (named_lt_of_readLoop commanded).trans_le (Nat.le_add_left _ _)
    next => cases commanded
    next => cases commanded

/-- The tokens of consecutive lines find room on them. -/
theorem sum_room_ofLines_le (n : Nat) (lines : List (List Char)) :
    ((ofLines n lines).map fun line => room line.tokens).sum ≤ (lines.map List.length).sum := by
  fun_induction ofLines n lines with
  | case1 => exact Nat.le_refl 0
  | case2 n chars =>
      simp only [List.map_cons, List.map_nil, List.sum_cons, List.sum_nil, Nat.add_zero]
      exact Scanned.room_ofLine_le n chars
  | case3 n chars rest more ih =>
      simp only [List.map_cons, List.sum_cons] at ih ⊢
      exact Nat.add_le_add (Scanned.room_ofLine_le n chars) ih

end Line

/-- What is made of some elements of a list weighs no more than the list, if nothing weighs
more than what it is made of. -/
theorem sum_filterMap_le {α β : Type} {f : α → Option β} {weight : β → Nat} {bound : α → Nat}
    {xs : List α} (each : ∀ x b, f x = some b → weight b ≤ bound x) :
    ((xs.filterMap f).map weight).sum ≤ (xs.map bound).sum := by
  induction xs with
  | nil => exact Nat.le_refl 0
  | cons x xs ih =>
      rw [List.filterMap_cons, List.map_cons, List.sum_cons]
      split
      next => exact ih.trans (Nat.le_add_left _ _)
      next b made =>
        rw [List.map_cons, List.sum_cons]
        exact Nat.add_le_add (each x b made) ih

namespace Program

/-- How many actions the statements of a program name, all together. -/
def named (program : Program) : Nat :=
  (program.statements.map (·.command.named)).sum

theorem actionCount_le (program : Program) :
    program.actionCount ≤ (2 ^ 32 - 1) * program.named := by
  obtain ⟨statements⟩ := program
  induction statements with
  | nil => exact Nat.le_refl 0
  | cons statement rest ih =>
      have first := statement.command.actionCount_le
      rw [actionCount_cons, named, List.map_cons, List.sum_cons, Nat.mul_add]
      exact Nat.add_le_add first ih

end Program

namespace Parsed

variable {source : Source}

/-- A statement of a source names fewer actions than the source has characters. -/
theorem named_lt_of_mem_kept {statement : Statement} (h : statement ∈ kept source) :
    statement.command.named < source.text.toList.length := by
  rw [kept_eq, List.mem_filterMap] at h
  obtain ⟨line, there, read⟩ := h
  have bound := (Line.sum_room_ofLines_le 1 source.lines).trans source.sum_length_lines_le
  calc statement.command.named
      < room line.tokens := Line.named_lt_of_read read
    _ ≤ (source.tokenLines.map fun line => room line.tokens).sum :=
        List.le_sum_of_mem (List.mem_map_of_mem there)
    _ ≤ source.text.toList.length := bound

/-- The statements of a source name no more actions than the source has characters. -/
theorem named_kept_le (source : Source) :
    Program.named ⟨kept source⟩ ≤ source.text.toList.length := by
  rw [Program.named, kept_eq]
  calc ((source.tokenLines.filterMap fun line => (Line.read source line).value?).map
        (·.command.named)).sum
      ≤ (source.tokenLines.map fun line => room line.tokens).sum :=
        sum_filterMap_le fun _ _ read => (Line.named_lt_of_read read).le
    _ ≤ (source.lines.map List.length).sum := Line.sum_room_ofLines_le 1 source.lines
    _ ≤ source.text.toList.length := source.sum_length_lines_le

end Parsed

end Rocket
