import Rocket.Proofs.Reading.Recovery

/-!
# Reading stops at the end of input

Whatever the tokens of a list are and wherever they are said to stand, reading the list comes
to an end at its first end of input. No part of the reading goes past it, so what stands
behind it is not read.

## Implementation notes

A loop gives up on a round that has not moved on. `Rounds` is a loop without this: it has a
result only if the rounds themselves come to an end. That the loops of the reader are such
loops is what makes their giving up idle.
-/

namespace Rocket

namespace Parser

open Token (Kind)

variable {α β σ : Type} {tokens : Array Token} {stop place after : Nat}

/-- Whether the first end of input of a token list is at a place. -/
structure IsFirstEnd (tokens : Array Token) (stop : Nat) : Prop where
  inside : stop < tokens.size
  before : ∀ place < stop, (tokenAt tokens place).kind ≠ .endOfInput
  ends : (tokenAt tokens stop).kind = .endOfInput

namespace IsFirstEnd

theorem of_append {front back : List Token} {last : Token}
    (others : ∀ token ∈ front, token.kind ≠ .endOfInput) (ends : last.kind = .endOfInput) :
    IsFirstEnd (front ++ last :: back).toArray front.length := by
  have ahead : (front ++ last :: back).toArray.toList.drop front.length = last :: back :=
    List.drop_left
  refine ⟨lt_size_of_ahead ahead, ?_, by rw [tokenAt_of_ahead ahead, ends]⟩
  intro place before
  have here : (front ++ last :: back).toArray[place]? = some front[place] := by
    rw [List.getElem?_toArray, List.getElem?_append_left before, List.getElem?_eq_getElem before]
  rw [tokenAt, here]
  exact others _ (List.getElem_mem before)

theorem lt_size (first : IsFirstEnd tokens stop) (bound : place ≤ stop) : place < tokens.size :=
  Nat.lt_of_le_of_lt bound first.inside

/-- A place up to the end of input with another token is before the end of input. -/
theorem lt (first : IsFirstEnd tokens stop) (bound : place ≤ stop)
    (other : (tokenAt tokens place).kind ≠ .endOfInput) : place < stop := by
  refine Nat.lt_of_le_of_ne bound ?_
  rintro rfl
  exact other first.ends

theorem lt_of_isLineEnd (first : IsFirstEnd tokens stop) (bound : place ≤ stop)
    (inner : ¬ (tokenAt tokens place).kind.isLineEnd = true) : place < stop := by
  apply first.lt bound
  intro last
  exact inner (Kind.isLineEnd_iff.2 (.inr last))

/-- Of the places up to the end of input, only this one has the end of input. -/
theorem eq (first : IsFirstEnd tokens stop) (bound : place ≤ stop)
    (ends : (tokenAt tokens place).kind = .endOfInput) : place = stop := by
  apply Decidable.byContradiction
  intro other
  exact first.before place (Nat.lt_of_le_of_ne bound other) ends

end IsFirstEnd

/-! ## Parts that stay before the end of input -/

/-- Whether a parser that starts at a place ends there or behind, up to `stop`. -/
structure StaysAt (tokens : Array Token) (stop place : Nat) (p : Parser α) : Prop where
  onward : place ≤ (p.run tokens place).2
  within : (p.run tokens place).2 ≤ stop

/-- Whether a parser that starts anywhere up to `stop` ends there or behind, up to `stop`. -/
def Stays (tokens : Array Token) (stop : Nat) (p : Parser α) : Prop :=
  ∀ place ≤ stop, StaysAt tokens stop place p

theorem StaysAt.of_run {p : Parser α} {reading : Reading α} (h : StaysAt tokens stop place p)
    (run : p.run tokens place = (reading, after)) : place ≤ after ∧ after ≤ stop := by
  obtain ⟨onward, within⟩ := h
  rw [run] at onward within
  exact ⟨onward, within⟩

theorem StaysAt.bind {p : Parser α} {f : α → Parser β} (first : StaysAt tokens stop place p)
    (second : ∀ a, Stays tokens stop (f a)) : StaysAt tokens stop place (p >>= f) := by
  generalize run : p.run tokens place = result
  obtain ⟨⟨remarks, value?⟩, middle⟩ := result
  obtain ⟨onward, within⟩ := first.of_run run
  cases value? with
  | none =>
      have whole := run_bind_of_fail run f
      constructor <;> rw [whole]
      · exact onward
      · exact within
  | some a =>
      have whole := run_bind_of_tell run f
      have next := second a middle within
      constructor <;> rw [whole]
      · exact Nat.le_trans onward next.onward
      · exact next.within

theorem Stays.bind {p : Parser α} {f : α → Parser β} (first : Stays tokens stop p)
    (second : ∀ a, Stays tokens stop (f a)) : Stays tokens stop (p >>= f) :=
  fun place bound => (first place bound).bind second

/-- Looking at the next token does not move. -/
theorem StaysAt.token_bind {f : Token → Parser β}
    (next : StaysAt tokens stop place (f (tokenAt tokens place))) :
    StaysAt tokens stop place (token >>= f) :=
  ⟨next.onward, next.within⟩

theorem stays_ofReading (reading : Reading α) : Stays tokens stop (ofReading reading) :=
  fun place bound => ⟨Nat.le_refl place, bound⟩

theorem stays_pure (a : α) : Stays tokens stop (pure a : Parser α) :=
  stays_ofReading (pure a)

theorem stays_fail (remarks : List Remark) : Stays tokens stop (fail remarks : Parser α) :=
  stays_ofReading (.fail remarks)

theorem stays_token : Stays tokens stop token :=
  fun place bound => ⟨Nat.le_refl place, bound⟩

theorem stays_previous : Stays tokens stop previous :=
  fun place bound => ⟨Nat.le_refl place, bound⟩

theorem Stays.recover {p : Parser α} (h : Stays tokens stop p) : Stays tokens stop (recover p) :=
  fun place bound => ⟨(h place bound).onward, (h place bound).within⟩

/-- A composite that has a value is made of parts that have one. -/
theorem exists_of_run_bind {p : Parser α} {f : α → Parser β} {remarks : List Remark} {b : β}
    (h : (p >>= f).run tokens place = (⟨remarks, some b⟩, after)) :
    ∃ told a middle more, p.run tokens place = (⟨told, some a⟩, middle) ∧
      (f a).run tokens middle = (⟨more, some b⟩, after) := by
  generalize run : p.run tokens place = result
  obtain ⟨⟨told, value?⟩, middle⟩ := result
  cases value? with
  | none =>
      rw [run_bind_of_fail run] at h
      cases h
  | some a =>
      generalize second : (f a).run tokens middle = result
      obtain ⟨⟨more, value?⟩, last⟩ := result
      rw [run_bind_of_tell run, second] at h
      have value : value? = some b := congrArg (·.1.value?) h
      have place : last = after := congrArg Prod.snd h
      subst value place
      exact ⟨told, a, middle, more, rfl, second⟩

/-! ## Loops -/

/-- What the rounds of a loop come to, from a place up to `stop` on: no round moves back,
and one that asks for another one moves on. A loop whose rounds do not end comes to
nothing. -/
inductive Rounds (round : σ → Parser (σ ⊕ α)) (tokens : Array Token) (stop : Nat) :
    σ → Nat → Reading α × Nat → Prop
  | fail {s : σ} {place after : Nat} {remarks : List Remark}
      (run : (round s).run tokens place = (⟨remarks, none⟩, after))
      (onward : place ≤ after) (within : after ≤ stop) :
      Rounds round tokens stop s place (⟨remarks, none⟩, after)
  | result {s : σ} {place after : Nat} {remarks : List Remark} {a : α}
      (run : (round s).run tokens place = (⟨remarks, some (.inr a)⟩, after))
      (onward : place ≤ after) (within : after ≤ stop) :
      Rounds round tokens stop s place (⟨remarks, some a⟩, after)
  | next {s s' : σ} {place after last : Nat} {remarks : List Remark} {reading : Reading α}
      (run : (round s).run tokens place = (⟨remarks, some (.inl s')⟩, after))
      (moves : place < after) (within : after ≤ stop)
      (others : Rounds round tokens stop s' after (reading, last)) :
      Rounds round tokens stop s place (⟨remarks ++ reading.remarks, reading.value?⟩, last)

namespace Rounds

variable {round : σ → Parser (σ ⊕ α)} {s : σ} {result : Reading α × Nat}

theorem onward (h : Rounds round tokens stop s place result) : place ≤ result.2 := by
  induction h with
  | fail run onward within => exact onward
  | result run onward within => exact onward
  | next run moves within others ih => exact Nat.le_trans (Nat.le_of_lt moves) ih

theorem within (h : Rounds round tokens stop s place result) : result.2 ≤ stop := by
  induction h with
  | fail run onward within => exact within
  | result run onward within => exact within
  | next run moves within others ih => exact ih

/-- The value of a loop is the result of its last round. -/
theorem exists_last (h : Rounds round tokens stop s place result) {a : α}
    (value : result.1.value? = some a) :
    ∃ s' before remarks, place ≤ before ∧ before ≤ result.2 ∧
      (round s').run tokens before = (⟨remarks, some (.inr a)⟩, result.2) := by
  induction h with
  | fail run onward within => cases value
  | @result s place after remarks b run onward within =>
      obtain rfl := Option.some.inj value
      exact ⟨s, place, remarks, Nat.le_refl place, onward, run⟩
  | next run moves within others ih =>
      obtain ⟨s', before, remarks, onward, behind, run⟩ := ih value
      exact ⟨s', before, remarks, Nat.le_trans (Nat.le_of_lt moves) onward, behind, run⟩

end Rounds

/-- Whether the rounds of a loop stay before the end of input, and move on if they ask for
another one. -/
structure Proceeds (tokens : Array Token) (stop : Nat) (round : σ → Parser (σ ⊕ α)) : Prop where
  stays : ∀ s, Stays tokens stop (round s)
  moves : ∀ {s s' place after remarks}, place ≤ stop →
    (round s).run tokens place = (⟨remarks, some (.inl s')⟩, after) → place < after

/-- A loop whose rounds proceed never gives up. -/
theorem Proceeds.rounds_iterateFrom {round : σ → Parser (σ ⊕ α)}
    (proceeds : Proceeds tokens stop round) (inside : stop < tokens.size) (s : σ)
    (bound : place ≤ stop) :
    Rounds round tokens stop s place (iterateFrom round tokens s place) := by
  -- The places up to the end of input become fewer with each round that is not the last.
  induction left : stop - place using Nat.strongRecOn generalizing s place with
  | ind n ih =>
      generalize run : (round s).run tokens place = result
      obtain ⟨⟨remarks, value?⟩, after⟩ := result
      obtain ⟨onward, within⟩ := (proceeds.stays s place bound).of_run run
      match value? with
      | none =>
          rw [iterateFrom_of_fail run]
          exact .fail run onward within
      | some (.inr a) =>
          rw [iterateFrom_of_result run]
          exact .result run onward within
      | some (.inl s') =>
          have moves := proceeds.moves bound run
          rw [iterateFrom_of_next run moves (Nat.lt_of_le_of_lt bound inside)]
          exact .next run moves within (ih (stop - after) (by omega) s' within rfl)

theorem Proceeds.stays_iterate {round : σ → Parser (σ ⊕ α)}
    (proceeds : Proceeds tokens stop round) (inside : stop < tokens.size) (s : σ) :
    Stays tokens stop (iterate round s) := by
  intro place bound
  have rounds := proceeds.rounds_iterateFrom inside s bound
  exact ⟨rounds.onward, rounds.within⟩

/-! ## The parts of a line -/

theorem stays_lineEnd : Stays tokens stop lineEnd := by
  refine stays_token.bind fun next => ?_
  split
  · exact stays_pure ()
  · exact stays_fail _

section

variable (first : IsFirstEnd tokens stop)
include first

/-- Passing over a token that is not the end of input. -/
theorem staysAt_advance (before : place < stop) : StaysAt tokens stop place advance := by
  have run := run_advance (first.lt_size (Nat.le_of_lt before))
  constructor <;> rw [run]
  · exact Nat.le_succ place
  · exact before

theorem stays_eat {kind : Kind} (inner : kind ≠ .endOfInput) : Stays tokens stop (eat kind) := by
  intro place bound
  apply StaysAt.token_bind
  split
  next same =>
    have before : place < stop := first.lt bound (by rwa [same])
    exact (staysAt_advance first before).bind fun _ => stays_pure true
  next => exact stays_pure false place bound

/-- A token that is passed over is behind. -/
theorem lt_of_run_eat {kind : Kind} {told : List Remark} (bound : place ≤ stop)
    (run : (eat kind).run tokens place = (⟨told, some true⟩, after)) : place < after := by
  by_cases same : (tokenAt tokens place).kind = kind
  · rw [run_eat_of_eq same (first.lt_size bound)] at run
    have behind : place + 1 = after := congrArg Prod.snd run
    exact Nat.lt_of_succ_le (Nat.le_of_eq behind)
  · rw [run_eat_of_ne same] at run
    cases run

theorem stays_expect {kind : Kind} (inner : kind ≠ .endOfInput) (remark : Token → List Remark) :
    Stays tokens stop (expect kind remark) := by
  refine (stays_eat first inner).bind fun found => ?_
  cases found with
  | true => exact stays_pure ()
  | false => exact stays_token.bind fun _ => stays_fail _

theorem stays_semicolon : Stays tokens stop semicolon := by
  refine (stays_eat first (by decide)).bind fun found => ?_
  cases found with
  | true => exact stays_pure ()
  | false =>
      refine stays_token.bind fun next => ?_
      split
      · exact stays_previous.bind fun _ => stays_fail _
      · exact stays_fail _

theorem stays_call {p : Primitive} (bound : place ≤ stop)
    (action : (tokenAt tokens place).kind = .primitive p) : StaysAt tokens stop place call := by
  have before : place < stop := first.lt bound (by rw [action]; nofun)
  refine (staysAt_advance first before).bind fun token => ?_
  split
  · exact stays_fail _
  · refine (stays_expect first (by decide) _).bind fun _ => ?_
    exact (stays_expect first (by decide) _).bind fun _ => stays_pure _

theorem stays_count : Stays tokens stop count := by
  intro place bound
  apply StaysAt.token_bind
  split
  next text digits =>
    have before : place < stop := first.lt bound (by rw [digits]; nofun)
    refine (staysAt_advance first before).bind fun _ => ?_
    split
    · exact stays_pure _
    · exact stays_fail _
  next => exact stays_fail _ place bound

/-! ## Loops -/

theorem proceeds_entryRound : Proceeds tokens stop entryRound := by
  constructor
  · rintro ⟨depth, front⟩ place bound
    apply StaysAt.token_bind
    split
    · exact stays_pure _ place bound
    · split
      · exact stays_fail _ place bound
      next inner =>
        have before := first.lt_of_isLineEnd bound inner
        exact (staysAt_advance first before).bind fun _ => stays_pure _
  · rintro ⟨depth, front⟩ s' place after remarks bound run
    rw [run_entryRound depth front (first.lt_size bound)] at run
    dsimp only at run
    split at run
    · cases run
    · split at run
      · cases run
      · exact Nat.lt_of_succ_le (Nat.le_of_eq (congrArg Prod.snd run))

theorem stays_entry : Stays tokens stop entry :=
  (proceeds_entryRound first).stays_iterate first.inside (0, #[])

theorem proceeds_bodyRound (source : Source) : Proceeds tokens stop (bodyRound source) := by
  constructor
  · intro actions
    refine (stays_entry first).bind fun entry => ?_
    refine (stays_ofReading _).bind fun more => (stays_eat first (by decide)).bind fun found => ?_
    cases found with
    | true => exact stays_pure _
    | false =>
        refine (stays_eat first (by decide)).bind fun found => ?_
        cases found with
        | true => exact stays_pure _
        | false => exact stays_token.bind fun _ => stays_fail _
  · intro actions actions' place after remarks bound run
    -- Another round is asked for behind a comma only.
    rw [bodyRound] at run
    obtain ⟨_, entry, middle, _, entered, run⟩ := exists_of_run_bind run
    obtain ⟨onward, within⟩ := (stays_entry first place bound).of_run entered
    obtain ⟨_, more, middle', _, read, run⟩ := exists_of_run_bind run
    obtain rfl : middle = middle' := congrArg Prod.snd read
    obtain ⟨_, found, behind, _, comma, run⟩ := exists_of_run_bind run
    cases found with
    | true =>
        obtain rfl : behind = after := congrArg Prod.snd run
        exact Nat.lt_of_le_of_lt onward (lt_of_run_eat first within comma)
    | false =>
        obtain ⟨_, found, last, _, _, run⟩ := exists_of_run_bind run
        cases found <;> cases run

theorem stays_body (source : Source) : Stays tokens stop (body source) :=
  (proceeds_bodyRound first source).stays_iterate first.inside #[]

theorem proceeds_newlineRound : Proceeds tokens stop newlineRound := by
  constructor
  · intro _
    refine (stays_eat first (by decide)).bind fun found => ?_
    cases found <;> exact stays_pure _
  · intro _ _ place after remarks bound run
    rw [newlineRound] at run
    obtain ⟨_, found, behind, _, newline, run⟩ := exists_of_run_bind run
    cases found with
    | true =>
        obtain rfl : behind = after := congrArg Prod.snd run
        exact lt_of_run_eat first bound newline
    | false => cases run

theorem stays_newlines : Stays tokens stop newlines :=
  (proceeds_newlineRound first).stays_iterate first.inside ()

theorem proceeds_lineRound : Proceeds tokens stop lineRound := by
  constructor
  · intro _ place bound
    apply StaysAt.token_bind
    split
    · exact stays_pure _ place bound
    next inner =>
      have before := first.lt_of_isLineEnd bound inner
      exact (staysAt_advance first before).bind fun _ => stays_pure _
  · intro _ _ place after remarks bound run
    rw [run_lineRound (first.lt_size bound)] at run
    split at run
    · cases run
    · exact Nat.lt_of_succ_le (Nat.le_of_eq (congrArg Prod.snd run))

theorem stays_lineRounds : Stays tokens stop (iterate lineRound ()) :=
  (proceeds_lineRound first).stays_iterate first.inside ()

theorem stays_loop (source : Source) (bound : place ≤ stop)
    (opens : (tokenAt tokens place).kind = .loop) : StaysAt tokens stop place (loop source) := by
  have before : place < stop := first.lt bound (by rw [opens]; decide)
  refine (staysAt_advance first before).bind fun _ => ?_
  refine (stays_expect first (by decide) _).bind fun _ => (stays_count first).bind fun count => ?_
  refine (stays_expect first (by decide) _).bind fun _ => ?_
  refine (stays_expect first (by decide) _).bind fun _ => ?_
  refine (stays_body first source).bind fun body => ?_
  exact (stays_expect first (by decide) _).bind fun _ => stays_pure _

/-! ## Lines -/

theorem stays_statement (source : Source) : Stays tokens stop (statement source) := by
  intro place bound
  apply StaysAt.token_bind
  have command : StaysAt tokens stop place (command source (tokenAt tokens place)) := by
    rw [Parser.command]
    split
    next action => exact (stays_call first bound action).bind fun _ => stays_pure _
    next opens => exact stays_loop first source bound opens
    next => exact stays_fail _ place bound
    next => exact stays_fail _ place bound
  refine command.bind fun command => (stays_semicolon first).bind fun _ => ?_
  exact stays_lineEnd.bind fun _ => stays_previous.bind fun _ => stays_pure _

theorem stays_restOfLine : Stays tokens stop restOfLine := by
  refine (stays_lineRounds first).bind fun _ => ?_
  exact (stays_eat first (by decide)).bind fun _ => stays_pure ()

/-- Passing over the tokens of a line ends at the token that ends the line. -/
theorem isLineEnd_of_run_lineRounds {remarks : List Remark} (bound : place ≤ stop)
    (run : (iterate lineRound ()).run tokens place = (⟨remarks, some ()⟩, after)) :
    (tokenAt tokens after).kind.isLineEnd = true := by
  have rounds := (proceeds_lineRound first).rounds_iterateFrom first.inside () bound
  change iterateFrom lineRound tokens () place = _ at run
  rw [run] at rounds
  obtain ⟨_, last, _, -, behind, ended⟩ := rounds.exists_last rfl
  have within := Nat.le_trans behind rounds.within
  rw [run_lineRound (first.lt_size within)] at ended
  split at ended
  next isEnd =>
    obtain rfl : last = after := congrArg Prod.snd ended
    exact isEnd
  next => cases ended

/-- Passing over a line moves on, since a line that does not end at the end of input ends
with a newline. -/
theorem lt_of_run_restOfLine {remarks : List Remark} (before : place < stop)
    (run : restOfLine.run tokens place = (⟨remarks, some ()⟩, after)) : place < after := by
  have bound := Nat.le_of_lt before
  rw [restOfLine] at run
  obtain ⟨_, _, middle, _, passed, run⟩ := exists_of_run_bind run
  obtain ⟨onward, within⟩ := (stays_lineRounds first place bound).of_run passed
  obtain ⟨_, found, behind, _, eaten, run⟩ := exists_of_run_bind run
  obtain rfl : behind = after := congrArg Prod.snd run
  obtain newline | last :=
    Kind.isLineEnd_iff.1 (isLineEnd_of_run_lineRounds first bound passed)
  · rw [run_eat_of_eq newline (first.lt_size within)] at eaten
    have next : middle + 1 = behind := congrArg Prod.snd eaten
    omega
  · have atStop := first.eq within last
    have onward' := ((stays_eat first (by decide) middle within).of_run eaten).1
    omega

theorem proceeds_statementRound (source : Source) :
    Proceeds tokens stop (statementRound source) := by
  constructor
  · intro read
    refine (stays_newlines first).bind fun _ => stays_token.bind fun next => ?_
    split
    · exact stays_pure _
    · refine (stays_statement first source).recover.bind fun statement? => ?_
      exact (stays_restOfLine first).bind fun _ => stays_pure _
  · intro read read' place after remarks bound run
    rw [statementRound] at run
    obtain ⟨_, _, start, _, passed, run⟩ := exists_of_run_bind run
    obtain ⟨onward, within⟩ := (stays_newlines first place bound).of_run passed
    rw [run_bind_of_pure rfl] at run
    split at run
    next => cases run
    next other =>
      obtain ⟨_, statement?, middle, _, done, run⟩ := exists_of_run_bind run
      obtain ⟨onward', within'⟩ :=
        ((stays_statement first source).recover start within).of_run done
      obtain ⟨_, _, behind, _, rest, run⟩ := exists_of_run_bind run
      obtain rfl : behind = after := congrArg Prod.snd run
      -- A statement that ends at the end of input has moved there from another token.
      have before := first.lt within other
      by_cases atStop : middle < stop
      · have moves := lt_of_run_restOfLine first atStop rest
        omega
      · have onward'' := ((stays_restOfLine first middle within').of_run rest).1
        omega

end

/-! ## Reading the whole list -/

/-- Whether every loop of the reader, from each place up to the end of input on, comes to
what its rounds come to. -/
structure Halts (source : Source) (tokens : Array Token) (stop : Nat) : Prop where
  newlines : ∀ place ≤ stop,
    Rounds newlineRound tokens stop () place (newlines.run tokens place)
  restOfLine : ∀ place ≤ stop,
    Rounds lineRound tokens stop () place ((iterate lineRound ()).run tokens place)
  entry : ∀ place ≤ stop,
    Rounds entryRound tokens stop (0, #[]) place (entry.run tokens place)
  body : ∀ place ≤ stop,
    Rounds (bodyRound source) tokens stop #[] place ((body source).run tokens place)
  statements : ∀ place ≤ stop,
    Rounds (statementRound source) tokens stop #[] place ((statements source).run tokens place)

theorem IsFirstEnd.halts (first : IsFirstEnd tokens stop) (source : Source) :
    Halts source tokens stop where
  newlines _ := (proceeds_newlineRound first).rounds_iterateFrom first.inside ()
  restOfLine _ := (proceeds_lineRound first).rounds_iterateFrom first.inside ()
  entry _ := (proceeds_entryRound first).rounds_iterateFrom first.inside (0, #[])
  body _ := (proceeds_bodyRound first source).rounds_iterateFrom first.inside #[]
  statements _ := (proceeds_statementRound first source).rounds_iterateFrom first.inside #[]

/-- There are no more statements when the end of input is next. -/
theorem isLast_of_run_statementRound {source : Source} {read : Array Statement}
    {remarks : List Remark} {all : List Statement}
    (run : (statementRound source read).run tokens place = (⟨remarks, some (.inr all)⟩, after)) :
    (tokenAt tokens after).kind = .endOfInput := by
  rw [statementRound] at run
  obtain ⟨_, _, start, _, _, run⟩ := exists_of_run_bind run
  rw [run_bind_of_pure rfl] at run
  split at run
  next last =>
    obtain rfl : start = after := congrArg Prod.snd run
    exact last
  next =>
    obtain ⟨_, _, _, _, _, run⟩ := exists_of_run_bind run
    obtain ⟨_, _, _, _, _, run⟩ := exists_of_run_bind run
    cases run

/-- At the end of input there is nothing to read. -/
theorem run_statements_of_isLast (source : Source)
    (last : (tokenAt tokens place).kind = .endOfInput) :
    (statements source).run tokens place = (pure [], place) := by
  have other : (tokenAt tokens place).kind ≠ .newline := by simp [last]
  have passed : newlines.run tokens place = (pure (), place) :=
    iterateFrom_of_result (run_newlineRound_of_ne other)
  apply iterateFrom_of_result
  rw [statementRound, run_bind_of_pure passed, run_bind_of_pure rfl, if_pos last]
  rfl

theorem IsFirstEnd.hasEnd (first : IsFirstEnd tokens stop) : HasEnd tokens.toList := by
  have inside := first.inside
  have here : tokenAt tokens stop = tokens[stop] := by
    rw [tokenAt, Array.getElem?_eq_getElem inside]
    rfl
  exact ⟨tokens[stop], Array.getElem_mem_toList inside, here ▸ first.ends⟩

/-- The list is read up to its first end of input, which stays next. -/
theorem IsFirstEnd.run_statements (first : IsFirstEnd tokens stop) (source : Source) :
    ∃ remarks read, (statements source).run tokens 0 = (.tell remarks read, stop) := by
  have ahead : tokens.toList.drop 0 = tokens.toList := rfl
  obtain ⟨after, run⟩ := run_statementRounds source ahead first.hasEnd #[]
  rw [Line.readLines_eq] at run
  have rounds := (first.halts source).statements 0 (Nat.zero_le stop)
  change iterateFrom (statementRound source) tokens #[] 0 = _ at run
  change Rounds _ _ _ _ _ (iterateFrom (statementRound source) tokens #[] 0) at rounds
  rw [run] at rounds
  obtain ⟨_, _, _, _, _, ended⟩ := rounds.exists_last rfl
  have atStop : after = stop := first.eq rounds.within (isLast_of_run_statementRound ended)
  exact ⟨_, _, atStop ▸ run⟩

end Parser

/-- What stands behind the first end of input belongs to no line. -/
theorem Line.ofTokens_append_end {last : Token} (ends : last.kind = .endOfInput)
    (front back : List Token) :
    ofTokens (front ++ last :: back) = ofTokens (front ++ [last]) := by
  induction front with
  | nil => simp only [List.nil_append, ofTokens, ends]
  | cons token front ih => simp only [List.cons_append, ofTokens, ih]

namespace Parsed

open Rocket.Parser (IsFirstEnd Halts)

/-- The tokens behind the first end of input play no part. -/
theorem ofTokens_append_end {last : Token} (ends : last.kind = .endOfInput)
    (front back : List Token) (source : Source) (mode : Mode) :
    ofTokens source mode (front ++ last :: back) = ofTokens source mode (front ++ [last]) := by
  have long : HasEnd (front ++ last :: back) := ⟨last, by simp, ends⟩
  have short : HasEnd (front ++ [last]) := ⟨last, by simp, ends⟩
  have same : reading source (front ++ last :: back) = reading source (front ++ [last]) := by
    rw [reading_eq source long, reading_eq source short, Line.ofTokens_append_end ends]
  rw [ofTokens, ofTokens, same]

/-- Where the end of input is next there is no statement. -/
theorem ofTokens_of_isLast {tokens : List Token}
    (last : (Parser.tokenAt tokens.toArray 0).kind = .endOfInput) (source : Source)
    (mode : Mode) : ofTokens source mode tokens = ⟨some .empty, .empty⟩ := by
  rw [ofTokens, reading, Parser.run_statements_of_isLast source last]
  cases mode <;> rfl

/-- Any token list with an end of input is read up to the first one and no further: every
loop of the reader ends by its rounds, none of which goes past the end of input, and a list
that breaks off behind it reads the same. A list without tokens reads as one that consists
of an end of input, as the empty program with nothing to remark. -/
theorem ofTokens_stops_at_end (source : Source) (mode : Mode) :
    (∀ tokens, HasEnd tokens → ∃ stop, IsFirstEnd tokens.toArray stop ∧
      Halts source tokens.toArray stop ∧
      (∃ remarks read,
        (Parser.statements source).run tokens.toArray 0 = (.tell remarks read, stop)) ∧
      ofTokens source mode tokens = ofTokens source mode (tokens.take (stop + 1))) ∧
    ofTokens source mode [] = ⟨some .empty, .empty⟩ ∧
    ∀ span, ofTokens source mode [⟨.endOfInput, span⟩] = ⟨some .empty, .empty⟩ := by
  refine ⟨?_, ofTokens_of_isLast rfl source mode, fun span => ofTokens_of_isLast rfl source mode⟩
  intro tokens ends
  obtain ⟨front, last, back, rfl, others, ends⟩ := exists_first ends
  have first : IsFirstEnd (front ++ last :: back).toArray front.length :=
    IsFirstEnd.of_append others ends
  refine ⟨front.length, first, first.halts source, first.run_statements source, ?_⟩
  rw [List.take_length_add_append, ofTokens_append_end ends]
  rfl

/-- A list with the end of input in the middle, and what it says of places not in order. -/
theorem ofTokens_stops_at_end_reference :
    let tokens : List Token := [⟨.primitive .move, .point 9 4⟩, ⟨.endOfInput, .point 7 3⟩,
      ⟨.newline, .point 1 5⟩]
    HasEnd tokens ∧ Halts (.ofText "" "move") tokens.toArray 1 ∧
      ofTokens (.ofText "" "move") .strict tokens =
        ofTokens (.ofText "" "move") .strict (tokens.take 2) := by
  intro tokens
  have ends : HasEnd tokens := ⟨⟨.endOfInput, .point 7 3⟩, by decide, rfl⟩
  obtain ⟨stop, first, halts, -, same⟩ :=
    (ofTokens_stops_at_end (.ofText "" "move") .strict).1 tokens ends
  have atStop : stop = 1 := by
    match stop with
    | 0 => exact absurd first.ends (by decide)
    | 1 => rfl
    | stop + 2 => exact absurd rfl (first.before 1 (by omega))
  subst atStop
  exact ⟨ends, halts, same⟩

end Parsed

end Rocket
