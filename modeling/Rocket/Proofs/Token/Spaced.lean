import Rocket.Proofs.Token.Layout
import Rocket.Proofs.Token.Scan

/-!
# Tokens between blanks

Tokens that are written the way reports show them, with blanks between any two, are scanned
back to the same tokens. They may be spread over any number of lines, where a newline is
written as itself.

## Implementation notes

No token goes on with a gap character, so each one ends where it was meant to, whatever it
is. A string literal is looked for on all of its line, but it is shown in double quotes and
so closed by the first one that comes.
-/

namespace Rocket

namespace Token.Kind

/-- Kinds of tokens that can be written between blanks. -/
def IsWritable : Kind → Prop
  | .newline => True
  | .quoted text => '"' ∉ text.toList ∧ '\n' ∉ text.toList
  | kind => kind.IsSpelled

/-- The characters a token is written as: those of its text, but a newline is itself. -/
def written : Kind → List Char
  | .newline => ['\n']
  | kind => kind.text.toList

variable {kind : Kind}

theorem isSpelled_of_isWritable (writable : kind.IsWritable) (other : kind ≠ .newline) :
    kind.IsSpelled ∧ kind.written = kind.text.toList := by
  cases kind with
  | newline => exact absurd rfl other
  | quoted text => exact ⟨writable.1, rfl⟩
  | _ => exact ⟨writable, rfl⟩

/-- Only a newline is written with one. -/
theorem newline_notMem_text (writable : kind.IsWritable) (other : kind ≠ .newline) :
    '\n' ∉ kind.text.toList := by
  have words : ∀ {chars : List Char}, IsWord chars → '\n' ∉ chars := by
    rintro _ ⟨c, run, rfl, first, all⟩ member
    obtain rfl | member := List.mem_cons.1 member
    · exact absurd first (by decide)
    · exact absurd (all _ member) (by decide)
  cases kind with
  | primitive p => exact words (isWord_name p)
  | word name => exact words writable.2
  | digits text =>
      intro member
      cases writable.2 _ member
  | quoted text => simpa [Kind.text] using writable.2
  | newline => exact absurd rfl other
  | stray c => exact writable.elim
  | endOfInput => exact writable.elim
  | _ => decide

/-- No token goes on with a gap. -/
theorem endsBefore_of_isGap {rest : List Char} (gap : ∀ c ∈ rest.head?, Scanner.isGap c = true) :
    kind.EndsBefore rest := by
  have stops : ∀ c ∈ rest.head?, c.isAlpha = false ∧ c.isDigit = false ∧ c ≠ '_' := by
    intro c first
    have blank := gap c first
    simp only [Scanner.isGap, decide_eq_true_eq] at blank
    obtain rfl | rfl | rfl := blank <;> decide
  unfold EndsBefore
  split
  · exact stops
  · exact stops
  · exact stops
  · exact fun c first => (stops c first).2.1
  · trivial

end Token.Kind

namespace Layout

/-- The characters of a layout that may go over several lines. -/
def written (layout : Layout) : List Char :=
  layout.flatMap fun (kind, gap) => kind.written ++ gap

/-- Whether the kinds of a layout can be written between blanks and have blanks between any
two of them. Behind the last one there need not be any. -/
def IsSpaced : Layout → Prop
  | [] => True
  | (kind, gap) :: rest =>
      kind.IsWritable ∧ (∀ c ∈ gap, Scanner.isGap c = true) ∧ (gap = [] → rest = []) ∧
        IsSpaced rest

end Layout

namespace Scanner

variable {place : Scanner} {rest : List Char}

/-- A gap only moves the place. -/
theorem scanAll_of_gap {gap : List Char} (ahead : place.ahead = gap ++ rest)
    (blank : ∀ c ∈ gap, isGap c = true) : place.scanAll = (place.along gap.length).scanAll := by
  induction gap generalizing place with
  | nil => rfl
  | cons c gap ih =>
      rw [List.forall_mem_cons] at blank
      have onward : (place.along 1).ahead = gap ++ rest := by
        rw [ahead_along, ahead, List.cons_append, List.drop_succ_cons, List.drop_zero]
      rw [scanAll_of_skipGaps (skipGaps_of_isGap ahead blank.1), ih onward blank.2, along_along,
        List.length_cons, Nat.add_comm 1]

/-- The text of a token is scanned to that token if a gap follows, or the end of the text. -/
theorem scanAll_of_text {kind : Token.Kind} (ahead : place.ahead = kind.text.toList ++ rest)
    (writable : kind.IsWritable) (other : kind ≠ .newline)
    (gap : ∀ c ∈ rest.head?, isGap c = true) :
    ∃ span, place.scanAll =
      ⟨⟨kind, span⟩, none⟩ :: (place.along kind.text.toList.length).scanAll := by
  -- a token is looked for on what is left of its line
  let line := rest.takeWhile (· != '\n')
  let tail := rest.dropWhile (· != '\n')
  have split : rest = line ++ tail := List.takeWhile_append_dropWhile.symm
  have ended : tail.head?.all (· = '\n') = true := by
    have first := List.head?_dropWhile_not (· != '\n') rest
    dsimp only [tail]
    generalize (rest.dropWhile (· != '\n')).head? = head? at first ⊢
    cases head? with
    | none => rfl
    | some c => simpa using first
  have ends : kind.EndsBefore line := by
    refine Token.Kind.endsBefore_of_isGap fun c first => gap c ?_
    rw [List.head?_takeWhile] at first
    exact (Option.mem_filter_iff.1 first).1
  have free := Token.Kind.newline_notMem_text writable other
  obtain ⟨c, run, text, clear, slash, found⟩ := Token.Kind.isScanned_text
    (Token.Kind.isSpelled_of_isWritable writable other).1 ends
  rw [text] at ahead free
  rw [split, List.cons_append, ← List.append_assoc] at ahead
  have inLine : '\n' ∉ c :: (run ++ line) := by
    rw [← List.cons_append, List.mem_append, not_or]
    refine ⟨free, fun member => ?_⟩
    simpa using List.mem_takeWhile_imp member
  have scanned := scanAll_of_start ahead inLine ended (by simp [clear])
    (by simp [Layout.startsComment_of_ne slash])
  rw [found] at scanned
  rw [text]
  exact ⟨_, scanned⟩

/-- What a token is written as is scanned to that token if a gap follows, or the end of the
text. -/
theorem exists_scanAll_of_written {kind : Token.Kind}
    (ahead : place.ahead = kind.written ++ rest) (writable : kind.IsWritable)
    (gap : ∀ c ∈ rest.head?, isGap c = true) :
    ∃ span after, place.scanAll = ⟨⟨kind, span⟩, none⟩ :: scanAll after ∧ after.ahead = rest := by
  by_cases newline : kind = .newline
  · subst newline
    refine ⟨_, place.advance, scanAll_of_newline ahead, ?_⟩
    rw [ahead_advance, ahead]
    rfl
  · rw [(Token.Kind.isSpelled_of_isWritable writable newline).2] at ahead
    obtain ⟨span, scanned⟩ := scanAll_of_text ahead writable newline gap
    refine ⟨span, _, scanned, ?_⟩
    rw [ahead_along, ahead, List.drop_left]

/-- What is written with blanks between any two tokens is scanned to these tokens, and none
of them is a problem. -/
theorem scanAll_of_isSpaced {layout : Layout} (ahead : place.ahead = layout.written)
    (spaced : layout.IsSpaced) :
    ∃ tokens : List Token, place.scanAll = tokens.map (⟨·, none⟩) ∧
      tokens.map (·.kind) = layout.kinds ++ [.endOfInput] := by
  induction layout generalizing place with
  | nil => exact ⟨[_], scanAll_of_end ahead, rfl⟩
  | cons piece rest ih =>
      obtain ⟨kind, gap⟩ := piece
      obtain ⟨writable, blank, closes, tail⟩ := spaced
      have written : place.ahead = kind.written ++ (gap ++ Layout.written rest) := by
        rw [ahead, Layout.written, List.flatMap_cons, List.append_assoc]
        rfl
      have behind : ∀ c ∈ (gap ++ Layout.written rest).head?, isGap c = true := by
        intro c first
        cases gap with
        | nil =>
            rw [closes rfl] at first
            cases first
        | cons d gap =>
            obtain rfl := Option.some.inj first
            exact blank d List.mem_cons_self
      obtain ⟨span, after, scanned, onward⟩ :=
        exists_scanAll_of_written written writable behind
      have below : (after.along gap.length).ahead = Layout.written rest := by
        rw [ahead_along, onward, List.drop_left]
      obtain ⟨tokens, more, kinds⟩ := ih below tail
      refine ⟨⟨kind, span⟩ :: tokens, ?_, congrArg (kind :: ·) kinds⟩
      rw [scanned, scanAll_of_gap onward blank, more, List.map_cons]

end Scanner

/-- Tokens that are shown with blanks between any two of them are scanned back to themselves,
with nothing to remark. There may be blanks in front and behind. -/
theorem Source.kinds_tokens_of_isSpaced (name : String) {blank : List Char} {layout : Layout}
    (front : ∀ c ∈ blank, Scanner.isGap c = true) (spaced : layout.IsSpaced) :
    let source := Source.ofText name (String.ofList (blank ++ layout.written))
    source.tokens.map (·.kind) = layout.kinds ++ [.endOfInput] ∧ source.scanRemarks = [] := by
  intro source
  have start : (Scanner.start source.text.toList).ahead = blank ++ layout.written :=
    String.toList_ofList
  have behind : ((Scanner.start source.text.toList).along blank.length).ahead = layout.written := by
    rw [Scanner.ahead_along, start, List.drop_left]
  obtain ⟨tokens, scanned, kinds⟩ := Scanner.scanAll_of_isSpaced behind spaced
  rw [← Scanner.scanAll_of_gap start front] at scanned
  constructor
  · rw [Source.tokens, scan, scanned, List.map_map, List.map_map, ← kinds]
    rfl
  · rw [scanRemarks, scan, scanned, List.filterMap_map]
    exact List.filterMap_none tokens

/-- Two lines with tokens of every class, one of them a literal with a comment and another
kind of quote in it. -/
theorem Source.kinds_tokens_of_isSpaced_reference :
    let layout : Layout := [(.loop, [' ']), (.word "_x1", ['\t', ' ']), (.newline, ['\r']),
      (.digits "007", [' ']), (.quoted "it's // far", [' ', ' ']), (.semicolon, [])]
    let source := Source.ofText "star.pilot" (String.ofList (['\t'] ++ layout.written))
    layout.IsSpaced ∧ source.text = "\trepeat _x1\t \n\r007 \"it's // far\"  ;" ∧
      source.tokens.map (·.kind) =
        [.loop, .word "_x1", .newline, .digits "007", .quoted "it's // far", .semicolon,
          .endOfInput] ∧
      source.scanRemarks = [] := by
  intro layout source
  have word : (Token.Kind.word "_x1").IsWritable :=
    ⟨by decide +kernel, Token.Kind.isWord_of_all '_' ['x', '1'] (by decide +kernel)
      (by decide +kernel) (by decide +kernel)⟩
  have digits : (Token.Kind.digits "007").IsWritable :=
    ⟨by decide +kernel, List.all_eq_true.1 (by decide +kernel)⟩
  have literal : (Token.Kind.quoted "it's // far").IsWritable :=
    ⟨by decide +kernel, by decide +kernel⟩
  have gaps : (layout.all fun piece => piece.2.all Scanner.isGap) = true := by decide +kernel
  have blank : ∀ piece ∈ layout, ∀ c ∈ piece.2, Scanner.isGap c = true :=
    fun piece member => List.all_eq_true.1 (List.all_eq_true.1 gaps piece member)
  have spaced : layout.IsSpaced := by
    have gap (i : Nat) (inside : i < layout.length) := blank layout[i] (List.getElem_mem inside)
    exact ⟨trivial, gap 0 (by decide), nofun, word, gap 1 (by decide), nofun, trivial,
      gap 2 (by decide), nofun, digits, gap 3 (by decide), nofun, literal, gap 4 (by decide),
      nofun, trivial, gap 5 (by decide), fun _ => rfl, trivial⟩
  have front : ∀ c ∈ ['\t'], Scanner.isGap c = true := List.all_eq_true.1 (by decide +kernel)
  obtain ⟨kinds, silent⟩ := kinds_tokens_of_isSpaced "star.pilot" front spaced
  exact ⟨spaced, by decide +kernel, kinds, silent⟩

end Rocket
