import Rocket.Proofs.Reading.Clean
import Rocket.Proofs.Text.Numeral
import Rocket.Proofs.Text.Trim
import Rocket.Proofs.Reading.Line

/-!
# The grammar of a line

What the kinds of a line's tokens may be, and the command they stand for:

* `move` `(` `)` `;`, and the same for the other actions;
* `repeat` `(` count `,` `[` entries `]` `)` `;`, where commas stand between the
  entries and an entry may be empty.

An entry is a call, or a string literal that lists calls between commas.

## Implementation notes

The relations speak of kinds only. Neither the places of the tokens nor the end of
the line have a part in what a line means.
-/

namespace Rocket.Grammar

open Token (Kind)

/-- Whether a piece of a string literal is `inside` with white space around it, quotes
around that, and white space around the quotes. Any of these may be missing. -/
def IsWrapped (piece inside : List Char) : Prop :=
  ∃ quoted spaced, Text.IsTrimmed Text.IsWhiteSpace piece quoted ∧
    Text.IsTrimmed (· ∈ ['"', '\'']) quoted spaced ∧
    Text.IsTrimmed Text.IsWhiteSpace spaced inside

/-- The calls that the pieces of a string literal stand for. There may be nothing inside
a piece. -/
inductive IsPieces : List (List Char) → List Primitive → Prop
  | nil : IsPieces [] []
  | blank {piece pieces body} (empty : IsWrapped piece []) (rest : IsPieces pieces body) :
      IsPieces (piece :: pieces) body
  | call {piece pieces body} {p : Primitive} (name : IsWrapped piece p.text.toList)
      (rest : IsPieces pieces body) : IsPieces (piece :: pieces) (p :: body)

/-- The actions that the kinds of an entry stand for. -/
inductive IsEntry : List Kind → List Primitive → Prop
  | empty : IsEntry [] []
  | call (p : Primitive) : IsEntry [.primitive p, .openParen, .closeParen] [p]
  | quoted {text body} (pieces : IsPieces (text.toList.splitOn ',') body) :
      IsEntry [.quoted text] body

/-- The actions that one or more entries with commas between them stand for. -/
inductive IsEntries : List Kind → List Primitive → Prop
  | last {kinds body} (entry : IsEntry kinds body) : IsEntries kinds body
  | more {kinds body others more} (entry : IsEntry kinds body) (rest : IsEntries others more) :
      IsEntries (kinds ++ .comma :: others) (body ++ more)

/-- The command that the kinds of a line stand for. -/
inductive IsStatement : List Kind → Command → Prop
  | primitive (p : Primitive) :
      IsStatement [.primitive p, .openParen, .closeParen, .semicolon] (.primitive p)
  | loop {digits entries body} {count : UInt32}
      (numeral : Text.IsNumeral digits.toList count.toNat) (list : IsEntries entries body) :
      IsStatement
        ([.loop, .openParen, .digits digits, .comma, .openBracket] ++ entries
          ++ [.closeBracket, .closeParen, .semicolon])
        (.loop count body)

/-! ## Pieces of a string literal -/

theorem text_ne_nil (p : Primitive) : p.text.toList ≠ [] := by
  match p with
  | .move | .turn .right | .turn .left => decide

/-- The reader finds what is inside a piece. -/
theorem isWrapped_iff {piece inside : List Char} :
    IsWrapped piece inside ↔ Entry.bare piece = inside := by
  have blank : Text.IsWhiteSpace = (Text.isBlank · = true) :=
    funext fun _ => propext Text.isBlank_iff.symm
  have quote : (· ∈ ['"', '\'']) = (Text.isQuote · = true) :=
    funext fun _ => propext Text.isQuote_iff.symm
  rw [IsWrapped, blank, quote]
  simp only [Text.isTrimmed_iff]
  constructor
  · rintro ⟨_, _, rfl, rfl, rfl⟩
    rfl
  · rintro rfl
    exact ⟨_, _, rfl, rfl, rfl⟩

/-- An empty piece stands for no call. -/
theorem isPieces_blank_iff {piece : List Char} {pieces : List (List Char)} {body : List Primitive}
    (empty : Entry.bare piece = []) : IsPieces (piece :: pieces) body ↔ IsPieces pieces body := by
  constructor
  · intro list
    cases list with
    | blank _ rest => exact rest
    | call name _ => exact absurd ((isWrapped_iff.1 name).symm.trans empty) (text_ne_nil _)
  · exact .blank (isWrapped_iff.2 empty)

/-- A piece that is not empty stands for the call it names. -/
theorem isPieces_call_iff {piece : List Char} {pieces : List (List Char)} {body : List Primitive}
    (nonempty : Entry.bare piece ≠ []) :
    IsPieces (piece :: pieces) body ↔
      ∃ p rest, Primitive.ofText? (Entry.bare piece) = some p ∧ body = p :: rest ∧
        IsPieces pieces rest := by
  constructor
  · intro list
    cases list with
    | blank empty _ => exact absurd (isWrapped_iff.1 empty) nonempty
    | call name rest =>
        exact ⟨_, _, Primitive.ofText?_eq_some_iff.2 (isWrapped_iff.1 name), rfl, rest⟩
  · rintro ⟨p, rest, known, rfl, tail⟩
    exact .call (isWrapped_iff.2 (Primitive.ofText?_eq_some_iff.1 known)) tail

/-- The pieces stand for what their nonempty ones name, if all of these name an action. -/
theorem isPieces_iff {pieces : List (List Char)} {body : List Primitive} :
    IsPieces pieces body ↔
      (((pieces.map Entry.bare).filter (!·.isEmpty)).filter fun call =>
          (Primitive.ofText? call).isNone) = [] ∧
        ((pieces.map Entry.bare).filter (!·.isEmpty)).filterMap Primitive.ofText? = body := by
  induction pieces generalizing body with
  | nil =>
      constructor
      · rintro ⟨⟩
        exact ⟨rfl, rfl⟩
      · rintro ⟨-, rfl⟩
        exact .nil
  | cons piece pieces ih =>
      by_cases empty : Entry.bare piece = []
      · rw [isPieces_blank_iff empty, ih]
        simp [empty]
      · rw [isPieces_call_iff empty]
        cases known : Primitive.ofText? (Entry.bare piece) with
        | none => simp [empty, known]
        | some p =>
            have kept : (((piece :: pieces).map Entry.bare).filter (!·.isEmpty)) =
                Entry.bare piece :: (pieces.map Entry.bare).filter (!·.isEmpty) := by
              simp [empty]
            rw [kept, List.filter_cons_of_neg (by simp [known]), List.filterMap_cons_some known]
            constructor
            · rintro ⟨_, rest, ⟨⟩, rfl, tail⟩
              obtain ⟨clean, values⟩ := ih.1 tail
              exact ⟨clean, by rw [values]⟩
            · rintro ⟨clean, rfl⟩
              exact ⟨p, _, rfl, rfl, ih.2 ⟨clean, rfl⟩⟩

/-- A string literal is read without a remark exactly if its pieces are calls. -/
theorem ofQuoted_eq_pure_iff {place : Span} {text : String} {body : List Primitive} :
    Entry.ofQuoted place text = pure body ↔ IsPieces (text.toList.splitOn ',') body := by
  rw [isPieces_iff, Entry.ofQuoted, Reading.tell_eq_pure_iff, List.map_eq_nil_iff]
  rfl

/-! ## Entries -/

/-- No kind is a stray character. -/
def IsClear (kinds : List Kind) : Prop :=
  ∀ kind ∈ kinds, kind.isStray = false

theorem isClear_append {front back : List Kind} :
    IsClear (front ++ back) ↔ IsClear front ∧ IsClear back :=
  List.forall_mem_append

theorem isClear_cons {kind : Kind} {kinds : List Kind} :
    IsClear (kind :: kinds) ↔ kind.isStray = false ∧ IsClear kinds :=
  List.forall_mem_cons

/-- Tokens are determined by their kinds up to their places. -/
theorem exists_cons_of_kinds {tokens : List Token} {kind : Kind} {kinds : List Kind}
    (h : tokens.map (·.kind) = kind :: kinds) :
    ∃ place rest, tokens = ⟨kind, place⟩ :: rest ∧ rest.map (·.kind) = kinds := by
  cases tokens with
  | nil => simp at h
  | cons token rest =>
      obtain ⟨rfl, tail⟩ := List.cons.inj h
      exact ⟨token.span, rest, rfl, tail⟩

/-- The tokens of an entry of the grammar. -/
theorem tokens_of_isEntry {entry : List Token} {body : List Primitive}
    (h : IsEntry (entry.map (·.kind)) body) :
    entry = [] ∧ body = [] ∨
      (∃ p a b c, entry = [⟨.primitive p, a⟩, ⟨.openParen, b⟩, ⟨.closeParen, c⟩] ∧ body = [p]) ∨
      ∃ text place, entry = [⟨.quoted text, place⟩] ∧ IsPieces (text.toList.splitOn ',') body := by
  generalize shape : entry.map (·.kind) = kinds at h
  cases h with
  | empty => exact .inl ⟨List.map_eq_nil_iff.1 shape, rfl⟩
  | call p =>
      obtain ⟨a, _, rfl, afterName⟩ := exists_cons_of_kinds shape
      obtain ⟨b, _, rfl, afterOpen⟩ := exists_cons_of_kinds afterName
      obtain ⟨c, _, rfl, afterClose⟩ := exists_cons_of_kinds afterOpen
      obtain rfl := List.map_eq_nil_iff.1 afterClose
      exact .inr (.inl ⟨p, a, b, c, rfl, rfl⟩)
  | quoted pieces =>
      obtain ⟨place, _, rfl, afterText⟩ := exists_cons_of_kinds shape
      obtain rfl := List.map_eq_nil_iff.1 afterText
      exact .inr (.inr ⟨_, place, rfl, pieces⟩)

/-- An entry of the grammar is read as what it stands for. -/
theorem read_of_isEntry (source : Source) {entry : List Token} {body : List Primitive}
    (h : IsEntry (entry.map (·.kind)) body) : Entry.read source entry = pure body := by
  obtain ⟨rfl, rfl⟩ | ⟨p, a, b, c, rfl, rfl⟩ | ⟨text, place, rfl, pieces⟩ := tokens_of_isEntry h
  · rfl
  · rfl
  · exact ofQuoted_eq_pure_iff.2 pieces

/-- An entry that is read without a remark is one of the grammar, unless a stray
character has kept the reader silent. -/
theorem isEntry_of_read {source : Source} {entry : List Token} {body : List Primitive}
    (clear : IsClear (entry.map (·.kind))) (h : Entry.read source entry = pure body) :
    IsEntry (entry.map (·.kind)) body := by
  unfold Entry.read at h
  split at h
  · obtain rfl := Reading.pure_inj.1 h
    exact .empty
  · exact .quoted (ofQuoted_eq_pure_iff.1 h)
  · obtain rfl := Reading.pure_inj.1 h
    exact .call _
  next first others _ _ =>
    obtain ⟨silent, -⟩ := Reading.tell_eq_pure_iff.1 h
    have known : ((first :: others).any fun token => token.kind.isStray) = false := by
      rw [List.any_eq_false]
      intro token member
      simp [clear token.kind (List.mem_map_of_mem member)]
    rw [Entry.remarks, known, if_neg (by simp)] at silent
    split at silent <;> simp at silent

/-- A list whose inside starts with an entry of the grammar goes on behind that entry
as if it started there: the entry closes the brackets it opens. -/
theorem ofTokens_entry_append {entry : List Token} {body : List Primitive}
    (h : IsEntry (entry.map (·.kind)) body) (tail : List Token) :
    Listing.ofTokens 0 (entry ++ tail) =
      ⟨(Listing.ofTokens 0 tail).entries.modifyHead (entry ++ ·),
        (Listing.ofTokens 0 tail).rest?⟩ := by
  obtain ⟨rfl, -⟩ | ⟨p, a, b, c, rfl, -⟩ | ⟨text, place, rfl, -⟩ := tokens_of_isEntry h
  · have same : (Listing.ofTokens 0 tail).entries.modifyHead ([] ++ ·) =
        (Listing.ofTokens 0 tail).entries := by
      cases (Listing.ofTokens 0 tail).entries <;> rfl
    rw [same, List.nil_append]
  · simp [Listing.ofTokens, Entry.depthAfter, Function.comp_def]
  · simp [Listing.ofTokens, Entry.depthAfter]

/-! ## Command lists -/

/-- Reading consecutive entries without a remark is reading each of them so. -/
theorem readAll_cons_eq_pure_iff {source : Source} {entry : List Token}
    {entries : List (List Token)} {body : List Primitive} :
    Entry.readAll source (entry :: entries) = pure body ↔
      ∃ actions more, Entry.read source entry = pure actions ∧
        Entry.readAll source entries = pure more ∧ actions ++ more = body := by
  simp only [Entry.readAll, Reading.bind_eq_pure_iff, Reading.pure_inj]
  constructor
  · rintro ⟨actions, first, more, others, same⟩
    exact ⟨actions, more, first, others, same⟩
  · rintro ⟨actions, more, first, others, same⟩
    exact ⟨actions, first, more, others, same⟩

/-- A command list of the grammar is cut into entries that are read as what the list
stands for. -/
theorem listing_of_isEntries (source : Source) {kinds : List Kind} {body : List Primitive}
    (h : IsEntries kinds body) {front : List Token} (shape : front.map (·.kind) = kinds)
    (place : Span) (rest : List Token) :
    ∃ entries, Listing.ofTokens 0 (front ++ ⟨.closeBracket, place⟩ :: rest) =
        ⟨entries, some rest⟩ ∧
      Entry.readAll source entries = pure body := by
  induction h generalizing front with
  | last entry =>
      subst shape
      refine ⟨[front], ?_, ?_⟩
      · rw [ofTokens_entry_append entry]
        simp [Listing.ofTokens]
      · rw [readAll_cons_eq_pure_iff]
        exact ⟨_, [], read_of_isEntry source entry, rfl, List.append_nil _⟩
  | @more kinds actions others more entry _ ih =>
      obtain ⟨first, tail, rfl, rfl, afterFirst⟩ := List.map_eq_append_iff.1 shape
      obtain ⟨comma, back, rfl, afterComma⟩ := exists_cons_of_kinds afterFirst
      obtain ⟨entries, cut, read⟩ := ih afterComma
      refine ⟨first :: entries, ?_, ?_⟩
      · rw [List.append_assoc, ofTokens_entry_append entry]
        simp [Listing.ofTokens, cut]
      · rw [readAll_cons_eq_pure_iff]
        exact ⟨_, _, read_of_isEntry source entry, read, rfl⟩

/-- A command list that is closed consists of its entries, with commas between them,
and the bracket that closes it. -/
theorem tokens_of_listing {depth : Nat} {tokens rest : List Token} {entries : List (List Token)}
    (h : Listing.ofTokens depth tokens = ⟨entries, some rest⟩) :
    ∃ front place, tokens = front ++ ⟨.closeBracket, place⟩ :: rest ∧
      entries ≠ [] ∧
      front.map (·.kind) = [Kind.comma].intercalate (entries.map (·.map (·.kind))) := by
  induction tokens generalizing depth entries with
  | nil => simp [Listing.ofTokens] at h
  | cons token tokens ih =>
      obtain ⟨kind, place⟩ := token
      rw [Listing.ofTokens] at h
      split at h
      next comma =>
        obtain ⟨-, rfl⟩ := comma
        generalize split : Listing.ofTokens 0 tokens = others at h
        obtain ⟨entries', rest'⟩ := others
        obtain ⟨rfl, rfl⟩ := Listing.mk.inj h
        obtain ⟨front, close, rfl, nonempty, shape⟩ := ih split
        refine ⟨⟨.comma, place⟩ :: front, close, rfl, List.cons_ne_nil _ _, ?_⟩
        rw [List.map_cons, List.map_cons, shape,
          List.intercalate_cons_of_ne_nil (by simpa using nonempty)]
        rfl
      next =>
        split at h
        next close =>
          obtain ⟨-, rfl⟩ := close
          obtain ⟨rfl, same⟩ := Listing.mk.inj h
          obtain rfl := Option.some.inj same
          exact ⟨[], place, rfl, List.cons_ne_nil _ _, rfl⟩
        next =>
          generalize split : Listing.ofTokens (Entry.depthAfter depth kind) tokens = others at h
          obtain ⟨entries', rest'⟩ := others
          obtain ⟨rfl, rfl⟩ := Listing.mk.inj h
          obtain ⟨front, close, rfl, nonempty, shape⟩ := ih split
          obtain ⟨entry, others, rfl⟩ := List.exists_cons_of_ne_nil nonempty
          refine ⟨⟨kind, place⟩ :: front, close, rfl, by simp, ?_⟩
          rw [List.map_cons, shape, List.modifyHead_cons, List.map_cons, List.map_cons,
            List.map_cons, List.intercalate_cons_cons_left]

/-- Entries that are read without a remark make up a command list of the grammar. -/
theorem isEntries_of_readAll {source : Source} {entries : List (List Token)}
    {body : List Primitive} (nonempty : entries ≠ [])
    (clear : IsClear ([Kind.comma].intercalate (entries.map (·.map (·.kind)))))
    (h : Entry.readAll source entries = pure body) :
    IsEntries ([Kind.comma].intercalate (entries.map (·.map (·.kind)))) body := by
  induction entries generalizing body with
  | nil => exact absurd rfl nonempty
  | cons entry entries ih =>
      obtain ⟨actions, more, first, others, rfl⟩ := readAll_cons_eq_pure_iff.1 h
      by_cases single : entries = []
      · subst single
        obtain rfl := Reading.pure_inj.1 others
        rw [List.map_cons, List.map_nil, List.intercalate_singleton] at clear ⊢
        rw [List.append_nil]
        exact .last (isEntry_of_read clear first)
      · rw [List.map_cons, List.intercalate_cons_of_ne_nil (by simpa using single),
          List.append_assoc, List.singleton_append] at clear ⊢
        obtain ⟨clearFirst, clearRest⟩ := isClear_append.1 clear
        exact .more (isEntry_of_read clearFirst first)
          (ih single (isClear_cons.1 clearRest).2 others)

/-- The inside of a command list is read without a remark exactly if it is one of the
grammar and closed. -/
theorem readBody_eq_pure_iff {source : Source} {stop : Token} {tokens rest : List Token}
    {body : List Primitive} (clear : IsClear (tokens.map (·.kind))) :
    Line.readBody source stop tokens = pure (body, rest) ↔
      ∃ front place, tokens = front ++ ⟨.closeBracket, place⟩ :: rest ∧
        IsEntries (front.map (·.kind)) body := by
  rw [Line.readBody, Reading.bind_eq_pure_iff]
  constructor
  · rintro ⟨actions, read, closed⟩
    generalize cut : Listing.ofTokens 0 tokens = listing at read closed
    obtain ⟨entries, rest?⟩ := listing
    cases rest? with
    | none => exact absurd closed Reading.fail_ne_pure
    | some behind =>
        obtain ⟨rfl, rfl⟩ := Prod.mk.inj (Reading.pure_inj.1 closed)
        obtain ⟨front, place, rfl, nonempty, shape⟩ := tokens_of_listing cut
        refine ⟨front, place, rfl, ?_⟩
        rw [List.map_append] at clear
        rw [shape] at clear ⊢
        exact isEntries_of_readAll nonempty (isClear_append.1 clear).1 read
  · rintro ⟨front, place, rfl, list⟩
    obtain ⟨entries, cut, read⟩ := listing_of_isEntries source list rfl place rest
    exact ⟨body, by rw [cut]; exact read, by rw [cut]⟩

end Rocket.Grammar
