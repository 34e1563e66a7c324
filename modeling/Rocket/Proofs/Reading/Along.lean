import Rocket.Proofs.Reading.Line
import Rocket.Proofs.Reading.Parser

/-!
# Parsers along a line

A parser of a part of a statement that starts on a line stays on that line, whatever
stands above and below. It reads what the tokens left on the line say.

## Implementation notes

`Site.Gives` compares the run of a parser with a reading of the tokens that are left on
the line. It says where the parser is only as far as this is needed: on the line, and
before the tokens that the reading leaves if the reading has a value. Recovery from a
line that is not understood needs no more than that.
-/

namespace Rocket

open Token (Kind)

/-- A line within a token list. -/
structure Site where
  /-- The tokens of the lines above. -/
  above : List Token
  line : Line
  /-- What follows the token that ends the line. -/
  below : List Token
  last : line.stop.kind.isLineEnd = true
  inner : ∀ token ∈ line.tokens, token.kind.isLineEnd = false

namespace Site

/-- The whole token list. -/
def tokens (site : Site) : Array Token :=
  (site.above ++ (site.line.tokens ++ site.line.stop :: site.below)).toArray

/-- The place where a part of the line is left. -/
def IsAt (site : Site) (place : Nat) (left : List Token) : Prop :=
  ∃ done, site.line.tokens = done ++ left ∧ place = site.above.length + done.length

variable {site : Site} {place : Nat} {token : Token} {left : List Token}

theorem isAt_start (site : Site) : site.IsAt site.above.length site.line.tokens :=
  ⟨[], rfl, rfl⟩

theorem drop_tokens (h : site.IsAt place left) :
    site.tokens.toList.drop place = left ++ site.line.stop :: site.below := by
  obtain ⟨done, split, rfl⟩ := h
  rw [tokens, split, List.append_assoc, ← List.drop_drop, List.drop_left, List.drop_left]

/-- The fewer tokens are left on the line, the farther a place is. -/
theorem le_of_isAt {after : Nat} {rest : List Token} (h : site.IsAt place left)
    (h' : site.IsAt after rest) (fewer : rest.length ≤ left.length) : place ≤ after := by
  obtain ⟨done, split, rfl⟩ := h
  obtain ⟨done', split', rfl⟩ := h'
  have same := congrArg List.length (split.symm.trans split')
  simp only [List.length_append] at same
  omega

/-- On a line that is not used up, the next token is the first that is left. -/
theorem tokenAt_cons (h : site.IsAt place (token :: left)) :
    Parser.tokenAt site.tokens place = token :=
  Parser.tokenAt_of_ahead (drop_tokens h)

/-- Behind the tokens of a line comes the one that ends it. -/
theorem tokenAt_nil (h : site.IsAt place []) :
    Parser.tokenAt site.tokens place = site.line.stop :=
  Parser.tokenAt_of_ahead (drop_tokens h)

theorem lt_size (h : site.IsAt place left) : place < site.tokens.size := by
  have ahead := drop_tokens h
  cases left with
  | nil => exact Parser.lt_size_of_ahead ahead
  | cons token left => exact Parser.lt_size_of_ahead ahead

theorem IsAt.advance (h : site.IsAt place (token :: left)) : site.IsAt (place + 1) left := by
  obtain ⟨done, split, rfl⟩ := h
  refine ⟨done ++ [token], by rw [split, List.append_assoc, List.singleton_append], ?_⟩
  rw [List.length_append, List.length_singleton, Nat.add_assoc]

theorem isLineEnd_of_isAt (h : site.IsAt place (token :: left)) : token.kind.isLineEnd = false := by
  obtain ⟨done, split, -⟩ := h
  apply site.inner
  rw [split]
  exact List.mem_append_right done List.mem_cons_self

/-- The token before the end of a line is its last. -/
theorem spanBefore_nil {last : Token} (h : site.IsAt place [])
    (ends : site.line.tokens.getLast? = some last) :
    Parser.spanBefore site.tokens place = last.span := by
  obtain ⟨done, split, rfl⟩ := h
  rw [List.append_nil] at split
  obtain ⟨front, rfl⟩ : ∃ front, done = front ++ [last] := by
    rw [← split]
    exact List.getLast?_eq_some_iff.1 ends
  have before : site.IsAt (site.above.length + front.length) [last] := ⟨front, split, rfl⟩
  rw [List.length_append, List.length_singleton, ← Nat.add_assoc, Parser.spanBefore,
    Parser.getElem?_of_ahead (drop_tokens before)]
  rfl

/-! ## Parts of a line -/

variable {α β : Type}

/-- A parser has come to what a reading of the tokens left on the line says, and it is
on the line still. -/
structure Gives (site : Site) (result : Reading α × Nat) (reading : Reading (α × List Token)) :
    Prop where
  remarks : result.1.remarks = reading.remarks
  values : result.1.value? = reading.value?.map Prod.fst
  onLine : ∃ left, site.IsAt result.2 left ∧
    ∀ a rest, reading.value? = some (a, rest) → rest = left

theorem gives_pure (h : site.IsAt place left) (a : α) :
    site.Gives ((pure a : Parser α).run site.tokens place) (pure (a, left)) := by
  refine ⟨rfl, rfl, left, h, ?_⟩
  rintro _ _ ⟨⟩
  rfl

theorem gives_fail (h : site.IsAt place left) (remarks : List Remark) :
    site.Gives ((Parser.fail remarks : Parser α).run site.tokens place) (.fail remarks) :=
  ⟨rfl, rfl, left, h, nofun⟩

/-- Reading on behind a part of the line. -/
theorem Gives.bind {p : Parser α} {f : α → Parser β} {r : Reading (α × List Token)}
    {g : α × List Token → Reading (β × List Token)}
    (first : site.Gives (p.run site.tokens place) r)
    (second : ∀ a left place, r.value? = some (a, left) → site.IsAt place left →
      site.Gives ((f a).run site.tokens place) (g (a, left))) :
    site.Gives ((p >>= f).run site.tokens place) (r >>= g) := by
  change site.Gives ((p.andThen f).run site.tokens place) (r.andThen g)
  obtain ⟨remarks, values, left, isAt, rest⟩ := first
  dsimp only [Parser.andThen, Reading.andThen]
  generalize p.run site.tokens place = result at remarks values isAt ⊢
  obtain ⟨⟨told, value?⟩, after⟩ := result
  obtain ⟨asked, found⟩ := r
  dsimp only at remarks values isAt rest second ⊢
  subst remarks values
  cases found with
  | none => exact ⟨rfl, rfl, left, isAt, nofun⟩
  | some found =>
      obtain ⟨a, behind⟩ := found
      obtain rfl := rest a behind rfl
      obtain ⟨remarks, values, onLine⟩ := second a behind after rfl isAt
      exact ⟨congrArg _ remarks, values, onLine⟩

/-- Reading on behind a part of the line that has no value of its own. -/
theorem Gives.bind_unit {p : Parser Unit} {f : Unit → Parser β} {r : Reading (List Token)}
    {g : List Token → Reading (β × List Token)}
    (first : site.Gives (p.run site.tokens place) ((fun rest => ((), rest)) <$> r))
    (second : ∀ left place, site.IsAt place left →
      site.Gives ((f ()).run site.tokens place) (g left)) :
    site.Gives ((p >>= f).run site.tokens place) (r >>= g) := by
  have both := first.bind (g := fun part => g part.2) (f := f)
    fun _ left place _ isAt => second left place isAt
  rwa [bind_map_left] at both

theorem stop_kind_ne {kind : Kind} (inner : kind.isLineEnd = false) :
    site.line.stop.kind ≠ kind := by
  intro same
  have last := site.last
  rw [same, inner] at last
  cases last

/-- Passing over a token of a kind that does not end a line. -/
theorem gives_expect {kind : Kind} (inner : kind.isLineEnd = false)
    (remark : Token → List Remark) (h : site.IsAt place left) :
    site.Gives ((Parser.expect kind remark).run site.tokens place)
      ((fun rest => ((), rest)) <$> Line.expect site.line.stop kind remark left) := by
  cases left with
  | nil =>
      have next := tokenAt_nil h
      have differ : (Parser.tokenAt site.tokens place).kind ≠ kind := by
        rw [next]
        exact stop_kind_ne inner
      rw [Parser.expect, Parser.run_bind_of_pure (Parser.run_eat_of_ne differ),
        if_neg Bool.false_ne_true, Parser.run_bind_of_pure rfl, next]
      exact gives_fail h _
  | cons token rest =>
      have next := tokenAt_cons h
      rw [Line.expect]
      by_cases same : token.kind = kind
      · have eats := Parser.run_eat_of_eq (next.symm ▸ same) (lt_size h)
        rw [Parser.expect, Parser.run_bind_of_pure eats, if_pos rfl, if_pos same, map_pure]
        exact gives_pure h.advance ()
      · have differ : (Parser.tokenAt site.tokens place).kind ≠ kind := by rwa [next]
        rw [Parser.expect, Parser.run_bind_of_pure (Parser.run_eat_of_ne differ), if_neg same,
          if_neg Bool.false_ne_true, Parser.run_bind_of_pure rfl, next]
        exact gives_fail h _

theorem gives_call {p : Primitive} (action : token.kind = .primitive p)
    (h : site.IsAt place (token :: left)) :
    site.Gives (Parser.call.run site.tokens place)
      ((fun rest => (p, rest)) <$> Line.readCall site.line.stop left) := by
  have first : (Parser.tokenAt site.tokens place).kind.primitive? = some p := by
    rw [tokenAt_cons h, action]
    rfl
  rw [Parser.call, Parser.run_bind_of_pure (Parser.run_advance (lt_size h)), first, Line.readCall,
    map_eq_pure_bind, bind_assoc]
  apply (gives_expect rfl _ h.advance).bind_unit
  intro left place opened
  apply (gives_expect rfl _ opened).bind_unit
  intro left place closed
  exact gives_pure closed p

theorem gives_count (h : site.IsAt place left) :
    site.Gives (Parser.count.run site.tokens place) (Line.readCount site.line.stop left) := by
  rw [Parser.count, Parser.run_bind_of_pure rfl]
  cases left with
  | nil =>
      have last := site.last
      rw [tokenAt_nil h, Line.readCount]
      generalize site.line.stop = stop at last
      obtain ⟨kind, span⟩ := stop
      cases kind with
      | digits text => cases last
      | _ => exact gives_fail h _
  | cons token rest =>
      obtain ⟨kind, span⟩ := token
      rw [tokenAt_cons h]
      cases kind with
      | digits text =>
          dsimp only
          rw [Parser.run_bind_of_pure (Parser.run_advance (lt_size h)), Line.readCount]
          cases Token.count? text with
          | some count => exact gives_pure h.advance count
          | none => exact gives_fail h.advance _
      | _ => exact gives_fail h _

end Site

namespace Parser

variable {tokens : Array Token} {place : Nat}

theorem run_entryRound (depth : Nat) (front : Array Token) (inside : place < tokens.size) :
    (entryRound (depth, front)).run tokens place =
      let next := tokenAt tokens place
      if depth = 0 ∧ (next.kind = .comma ∨ next.kind = .closeBracket) then
        (pure (.inr front.toList), place)
      else if next.kind.isLineEnd then (.fail (next.malformed .listClose), place)
      else (pure (.inl (Entry.depthAfter depth next.kind, front.push next)), place + 1) := by
  rw [entryRound, run_bind_of_pure rfl]
  dsimp only
  split
  · rfl
  · split
    · rfl
    · rw [run_bind_of_pure (run_advance inside)]
      rfl

theorem run_semicolon (inside : place < tokens.size) :
    semicolon.run tokens place =
      if (tokenAt tokens place).kind = .semicolon then (pure (), place + 1)
      else if (tokenAt tokens place).kind.isLineEnd then
        (.fail [⟨.missingSemicolon, spanBefore tokens place⟩], place)
      else (.fail ((tokenAt tokens place).unexpected .semicolon), place) := by
  rw [semicolon]
  split
  next same =>
    rw [run_bind_of_pure (run_eat_of_eq same inside), if_pos rfl]
    rfl
  next differ =>
    rw [run_bind_of_pure (run_eat_of_ne differ), if_neg Bool.false_ne_true, run_bind_of_pure rfl]
    split
    · rw [run_bind_of_pure rfl]
      rfl
    · rfl

theorem run_lineEnd :
    lineEnd.run tokens place =
      if (tokenAt tokens place).kind.isLineEnd then (pure (), place)
      else
        (.fail [⟨.trailingTokens (tokenAt tokens place).kind, (tokenAt tokens place).span⟩],
          place) := by
  rw [lineEnd, run_bind_of_pure rfl]
  split <;> rfl

end Parser

/-! ## Entries -/

namespace Listing

/-- How a command list begins, with what is left where its first entry ends: the end of
the line cuts the entry short, or a comma and other entries follow, or it is the last. -/
inductive Begins : Listing → (finished? : Option (List Token)) → (left : List Token) → Prop
  | cut : Begins ⟨[], none⟩ none []
  | more {entry rest : List Token} {token : Token} (comma : token.kind = .comma) :
      Begins ⟨entry :: (ofTokens 0 rest).entries, (ofTokens 0 rest).rest?⟩ (some entry)
        (token :: rest)
  | last {entry rest : List Token} {token : Token} (bracket : token.kind = .closeBracket) :
      Begins ⟨[entry], some rest⟩ (some entry) (token :: rest)

/-- One more token in the first entry. -/
theorem Begins.cons {listing : Listing} {finished? : Option (List Token)} {left : List Token}
    (h : Begins listing finished? left) (token : Token) :
    Begins ⟨listing.entries.modifyHead (token :: ·), listing.rest?⟩ (finished?.map (token :: ·))
      left := by
  cases h with
  | cut => exact .cut
  | more comma => exact .more comma
  | last bracket => exact .last bracket

/-- A comma or a closing bracket outside of an entry's own brackets ends the entry. -/
theorem begins_of_separator {depth : Nat} {token : Token}
    (separator : depth = 0 ∧ (token.kind = .comma ∨ token.kind = .closeBracket))
    (rest : List Token) : (ofTokens depth (token :: rest)).Begins (some []) (token :: rest) := by
  rw [ofTokens]
  obtain ⟨outside, comma | bracket⟩ := separator
  · rw [if_pos ⟨outside, comma⟩]
    exact .more comma
  · have other : ¬ (depth = 0 ∧ token.kind = .comma) := by simp [bracket]
    rw [if_neg other, if_pos ⟨outside, bracket⟩]
    exact .last bracket

/-- Any other token belongs to the first entry. -/
theorem begins_of_inner {depth : Nat} {token : Token} {rest left : List Token}
    {finished? : Option (List Token)}
    (inner : ¬ (depth = 0 ∧ (token.kind = .comma ∨ token.kind = .closeBracket)))
    (h : (ofTokens (Entry.depthAfter depth token.kind) rest).Begins finished? left) :
    (ofTokens depth (token :: rest)).Begins (finished?.map (token :: ·)) left := by
  rw [and_or_left, not_or] at inner
  rw [ofTokens, if_neg inner.1, if_neg inner.2]
  exact h.cons token

end Listing

namespace Site

variable {site : Site} {place : Nat} {token : Token} {left : List Token}

/-- What a parser makes of an entry that it has read in part. -/
def entryReading (site : Site) (front : List Token) : Option (List Token) → Reading (List Token)
  | none => .fail (site.line.stop.malformed .listClose)
  | some entry => pure (front ++ entry)

/-- An entry is read up to where the listing cuts it off. -/
theorem run_entry (h : site.IsAt place left) (depth : Nat) (front : Array Token) :
    ∃ finished? rest after, (Listing.ofTokens depth left).Begins finished? rest ∧
      site.IsAt after rest ∧ rest.length ≤ left.length ∧
      Parser.iterateFrom Parser.entryRound site.tokens (depth, front) place =
        (site.entryReading front.toList finished?, after) := by
  induction left generalizing place depth front with
  | nil =>
      have inner : ¬ (depth = 0 ∧
          (site.line.stop.kind = .comma ∨ site.line.stop.kind = .closeBracket)) := by
        rintro ⟨-, comma | bracket⟩
        · exact stop_kind_ne rfl comma
        · exact stop_kind_ne rfl bracket
      have round := Parser.run_entryRound depth front (lt_size h)
      rw [tokenAt_nil h] at round
      dsimp only at round
      rw [if_neg inner, if_pos site.last] at round
      exact ⟨none, [], place, .cut, h, Nat.le_refl _, Parser.iterateFrom_of_fail round⟩
  | cons token rest ih =>
      have round := Parser.run_entryRound depth front (lt_size h)
      rw [tokenAt_cons h] at round
      dsimp only at round
      by_cases separator : depth = 0 ∧ (token.kind = .comma ∨ token.kind = .closeBracket)
      · refine ⟨some [], token :: rest, place, Listing.begins_of_separator separator rest, h,
          Nat.le_refl _, ?_⟩
        rw [if_pos separator] at round
        rw [Parser.iterateFrom_of_result round, entryReading, List.append_nil]
        rfl
      · obtain ⟨finished?, behind, after, begins, isAt, fewer, run⟩ :=
          ih h.advance (Entry.depthAfter depth token.kind) (front.push token)
        refine ⟨finished?.map (token :: ·), behind, after,
          Listing.begins_of_inner separator begins, isAt, Nat.le_succ_of_le fewer, ?_⟩
        have inner : ¬ token.kind.isLineEnd = true := by
          rw [isLineEnd_of_isAt h]
          exact Bool.false_ne_true
        rw [if_neg separator, if_neg inner] at round
        rw [Parser.iterateFrom_of_next round (Nat.lt_succ_self place) (lt_size h), run]
        cases finished? with
        | none => rfl
        | some entry =>
            rw [Option.map_some, entryReading, entryReading, Array.toList_push,
              List.append_assoc, List.singleton_append]
            rfl

/-! ## Command lists -/

/-- The actions of an entry are found whatever it holds. -/
theorem exists_read_eq (source : Source) (entry : List Token) :
    ∃ remarks actions, Entry.read source entry = .tell remarks actions := by
  unfold Entry.read
  split
  · exact ⟨[], [], rfl⟩
  · exact ⟨_, _, rfl⟩
  · exact ⟨[], _, rfl⟩
  · exact ⟨_, [], rfl⟩

variable {source : Source}

theorem readBody_of_cut {stop : Token} {tokens : List Token}
    (cut : Listing.ofTokens 0 tokens = ⟨[], none⟩) :
    Line.readBody source stop tokens = .fail (stop.malformed .listClose) := by
  rw [Line.readBody, cut]
  rfl

theorem readBody_of_last {stop : Token} {tokens entry rest : List Token}
    (last : Listing.ofTokens 0 tokens = ⟨[entry], some rest⟩) :
    Line.readBody source stop tokens =
      Entry.read source entry >>= fun actions => pure (actions, rest) := by
  rw [Line.readBody, last]
  simp [Entry.readAll]

theorem readBody_of_more {stop : Token} {tokens entry rest : List Token}
    (more : Listing.ofTokens 0 tokens =
      ⟨entry :: (Listing.ofTokens 0 rest).entries, (Listing.ofTokens 0 rest).rest?⟩) :
    Line.readBody source stop tokens =
      Entry.read source entry >>= fun actions =>
        (fun part => (actions ++ part.1, part.2)) <$> Line.readBody source stop rest := by
  rw [Line.readBody, Line.readBody, more]
  simp only [Entry.readAll, bind_assoc, pure_bind, map_eq_pure_bind]
  cases (Listing.ofTokens 0 rest).rest? with
  | none => rfl
  | some behind => simp only [pure_bind]

/-- A remark before what a parser comes to. -/
theorem Gives.tell {result : Reading α × Nat} {r : Reading (α × List Token)}
    (h : site.Gives result r) (remarks : List Remark) :
    site.Gives (⟨remarks ++ result.1.remarks, result.1.value?⟩, result.2)
      ⟨remarks ++ r.remarks, r.value?⟩ :=
  ⟨congrArg _ h.remarks, h.values, h.onLine⟩

/-- Up to the token behind an entry, which decides how to go on. -/
theorem run_bodyRound (front : Array Primitive) {entry : List Token} {after : Nat}
    {remarks : List Remark} {actions : List Primitive}
    (run : Parser.entry.run site.tokens place = (pure entry, after))
    (read : Entry.read source entry = .tell remarks actions)
    (isAt : site.IsAt after (token :: left)) :
    (token.kind = .comma → (Parser.bodyRound source front).run site.tokens place =
        (⟨remarks, some (.inl (front ++ actions))⟩, after + 1)) ∧
      (token.kind = .closeBracket → (Parser.bodyRound source front).run site.tokens place =
        (⟨remarks, some (.inr (front.toList ++ actions))⟩, after + 1)) := by
  have next := tokenAt_cons isAt
  have told : (Parser.ofReading (Entry.read source entry)).run site.tokens after =
      (.tell remarks actions, after) := by
    rw [read]
    rfl
  rw [Parser.bodyRound, Parser.run_bind_of_pure run, Parser.run_bind_of_tell told]
  constructor
  · intro comma
    have eats := Parser.run_eat_of_eq (next ▸ comma) (lt_size isAt)
    rw [Parser.run_bind_of_pure eats, if_pos rfl]
    exact congrArg (·, after + 1) (congrArg (Reading.mk · _) (List.append_nil remarks))
  · intro bracket
    have other : (Parser.tokenAt site.tokens after).kind ≠ .comma := by
      simp [next, bracket]
    have eats := Parser.run_eat_of_eq (next ▸ bracket) (lt_size isAt)
    rw [Parser.run_bind_of_pure (Parser.run_eat_of_ne other), if_neg Bool.false_ne_true,
      Parser.run_bind_of_pure eats, if_pos rfl, Array.toList_appendList]
    exact congrArg (·, after + 1) (congrArg (Reading.mk · _) (List.append_nil remarks))

/-- A command list is read entry by entry. -/
theorem gives_bodyRounds (source : Source) (h : site.IsAt place left) (front : Array Primitive) :
    site.Gives (Parser.iterateFrom (Parser.bodyRound source) site.tokens front place)
      ((fun part => (front.toList ++ part.1, part.2)) <$>
        Line.readBody source site.line.stop left) := by
  induction size : left.length using Nat.strongRecOn generalizing place left front with
  | ind n ih =>
      obtain ⟨finished?, rest, after, begins, isAt, fewer, run⟩ := run_entry h 0 #[]
      generalize listing : Listing.ofTokens 0 left = list at begins
      cases begins with
      | cut =>
          have round : (Parser.bodyRound source front).run site.tokens place =
              (.fail (site.line.stop.malformed .listClose), after) :=
            Parser.run_bind_of_fail run _
          rw [Parser.iterateFrom_of_fail round, readBody_of_cut listing]
          exact ⟨rfl, rfl, [], isAt, nofun⟩
      | @more entry rest token comma =>
          obtain ⟨remarks, actions, read⟩ := exists_read_eq source entry
          have round := (run_bodyRound front run read isAt).1 comma
          have moved : place < after + 1 := Nat.lt_succ_of_le (le_of_isAt h isAt fewer)
          have onward := (ih rest.length (by rw [← size]; exact fewer) isAt.advance
            (front ++ actions) rfl).tell remarks
          rw [Parser.iterateFrom_of_next round moved (lt_size h), readBody_of_more listing, read,
            map_bind, Reading.tell_bind, Functor.map_map]
          simpa only [Array.toList_appendList, List.append_assoc] using onward
      | @last entry rest token bracket =>
          obtain ⟨remarks, actions, read⟩ := exists_read_eq source entry
          have round := (run_bodyRound front run read isAt).2 bracket
          have whole := (gives_pure isAt.advance (front.toList ++ actions)).tell remarks
          rw [Parser.iterateFrom_of_result round, readBody_of_last listing, read, map_bind,
            Reading.tell_bind, map_pure]
          simpa only [Parser.run_pure, Reading.remarks_pure, Reading.value?_pure, List.append_nil]
            using whole

theorem gives_body (source : Source) (h : site.IsAt place left) :
    site.Gives ((Parser.body source).run site.tokens place)
      (Line.readBody source site.line.stop left) := by
  have body := gives_bodyRounds source h #[]
  simp only [List.nil_append, id_map'] at body
  exact body

/-! ## Statements -/

theorem gives_loop (source : Source) (h : site.IsAt place (token :: left)) :
    site.Gives ((Parser.loop source).run site.tokens place)
      (Line.readLoop source site.line.stop left) := by
  rw [Parser.loop, Parser.run_bind_of_pure (Parser.run_advance (lt_size h)), Line.readLoop]
  apply (gives_expect rfl _ h.advance).bind_unit
  intro left place opened
  apply (gives_count opened).bind
  intro count left place _ counted
  apply (gives_expect rfl _ counted).bind_unit
  intro left place parted
  apply (gives_expect rfl _ parted).bind_unit
  intro left place listed
  apply (gives_body source listed).bind
  intro body left place _ inside
  apply (gives_expect rfl _ inside).bind_unit
  intro left place closed
  exact gives_pure closed (Command.loop count body)

theorem gives_command (source : Source) (h : site.IsAt place (token :: left)) :
    site.Gives ((Parser.command source token).run site.tokens place)
      (Line.readCommand source site.line.stop token left) := by
  obtain ⟨kind, span⟩ := token
  cases kind with
  | primitive p =>
      have call := (gives_call rfl h).bind (f := fun p => pure (Command.primitive p))
        (g := fun part => pure (.primitive part.1, part.2))
        fun p _ _ _ behind => gives_pure behind _
      rw [bind_map_left] at call
      exact call
  | loop => exact gives_loop source h
  | word name => exact gives_fail h _
  | _ => exact gives_fail h _

/-- The end of a statement: a semicolon and then the end of the line. -/
theorem gives_end {last : Token} (ends : site.line.tokens.getLast? = some last)
    (h : site.IsAt place left) :
    site.Gives ((Parser.semicolon >>= fun _ => Parser.lineEnd).run site.tokens place)
      ((fun _ => ((), [])) <$> Line.readEnd last left) := by
  have first := Parser.run_semicolon (lt_size h)
  cases left with
  | nil =>
      rw [tokenAt_nil h, if_neg (stop_kind_ne rfl), if_pos site.last, spanBefore_nil h ends]
        at first
      rw [Parser.run_bind_of_fail first]
      exact gives_fail h _
  | cons token rest =>
      rw [tokenAt_cons h] at first
      by_cases semicolon : token.kind = .semicolon
      · rw [if_pos semicolon] at first
        rw [Parser.run_bind_of_pure first, Parser.run_lineEnd]
        cases rest with
        | nil =>
            rw [tokenAt_nil h.advance, if_pos site.last, Line.readEnd, if_pos semicolon]
            exact gives_pure h.advance ()
        | cons token' rest =>
            rw [tokenAt_cons h.advance, isLineEnd_of_isAt h.advance, if_neg Bool.false_ne_true,
              Line.readEnd, if_pos semicolon]
            exact gives_fail h.advance _
      · have read : Line.readEnd last (token :: rest) = .fail (token.unexpected .semicolon) := by
          cases rest <;> exact if_neg semicolon
        rw [if_neg semicolon, isLineEnd_of_isAt h, if_neg Bool.false_ne_true] at first
        rw [Parser.run_bind_of_fail first, read]
        exact gives_fail h _

/-- Behind the end of a statement, the span of the whole is known. -/
theorem gives_spanned {first last : Token} (ends : site.line.tokens.getLast? = some last)
    (command : Command) (h : site.IsAt place left) :
    site.Gives
      ((Parser.semicolon >>= fun _ => Parser.lineEnd >>= fun _ => do
        return (⟨command, first.span.merge (← Parser.previous)⟩ : Statement)).run site.tokens place)
      (Line.readEnd last left >>= fun _ =>
        pure (⟨command, first.span.merge last.span⟩, [])) := by
  rw [← Parser.run_bind_assoc]
  have ended := (gives_end ends h).bind
    (f := fun _ => do return (⟨command, first.span.merge (← Parser.previous)⟩ : Statement))
    (g := fun part => pure (⟨command, first.span.merge last.span⟩, part.2))
    fun _ left place found isAt => by
      obtain ⟨-, -, same⟩ : ∃ a, (Line.readEnd last _).value? = some a ∧ ((), []) = ((), left) := by
        simpa only [Reading.value?_map, Option.map_eq_some_iff] using found
      obtain rfl : [] = left := congrArg Prod.snd same
      rw [Parser.run_bind_of_pure rfl, spanBefore_nil isAt ends]
      exact gives_pure isAt _
  rwa [bind_map_left] at ended

/-- A statement is what its line is read as. -/
theorem gives_statement (source : Source) {first : Token} {others : List Token}
    (line : site.line.tokens = first :: others) :
    site.Gives ((Parser.statement source).run site.tokens site.above.length)
      ((fun statement => (statement, [])) <$> Line.read source site.line) := by
  have start := site.isAt_start
  rw [line] at start
  have ends : site.line.tokens.getLast? = some (others.getLast?.getD first) := by
    rw [line, List.getLast?_cons]
  rw [Parser.statement, Parser.run_bind_of_pure rfl, tokenAt_cons start, Line.read, line]
  dsimp only
  rw [Line.readStatement, map_bind]
  apply (gives_command source start).bind
  intro command left place _ behind
  dsimp only
  rw [map_bind]
  simpa only [map_pure] using gives_spanned ends command behind

/-- Reading a statement ends on the line that it starts on. -/
theorem run_statement (source : Source) {first : Token} {others : List Token}
    (line : site.line.tokens = first :: others) :
    ∃ left after, site.IsAt after left ∧
      (Parser.statement source).run site.tokens site.above.length =
        (Line.read source site.line, after) := by
  obtain ⟨remarks, values, left, isAt, -⟩ := gives_statement source line
  rw [Reading.remarks_map] at remarks
  rw [Reading.value?_map, Option.map_map, Function.comp_def, Option.map_id'] at values
  refine ⟨left, _, isAt, ?_⟩
  generalize (Parser.statement source).run site.tokens site.above.length = result
    at remarks values ⊢
  obtain ⟨⟨told, value?⟩, after⟩ := result
  dsimp only at remarks values
  rw [remarks, values]

end Site

end Rocket
