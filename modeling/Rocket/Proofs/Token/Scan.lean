import Mathlib
import Rocket.Proofs.Token.Lexeme

/-!
# Scanning line by line

A scanner that starts on a line comes to the end of that line, with the tokens that
the characters of the line alone determine. The tokens of a text are therefore those of
its lines, each line followed by the token that ends it.

## Implementation notes

Everything a scanner does on a line is described by the number of characters it has
come along the line; in particular the place a string literal makes it return to.
-/

namespace Rocket

/-! ## Along a line -/

namespace Scanner

/-- The place `k` characters further on the same line. -/
def along (place : Scanner) (k : Nat) : Scanner :=
  ⟨place.ahead.drop k, place.pos + k, place.line, place.col + k⟩

@[simp]
theorem along_zero (place : Scanner) : place.along 0 = place := rfl

@[simp]
theorem ahead_along (place : Scanner) (k : Nat) : (place.along k).ahead = place.ahead.drop k := rfl

@[simp]
theorem along_along (place : Scanner) (j k : Nat) :
    (place.along j).along k = place.along (j + k) := by
  simp only [along, List.drop_drop, Nat.add_assoc]

variable {place : Scanner} {c : Char} {rest : List Char}

theorem advance_eq_along (more : place.ahead = c :: rest) (inLine : c ≠ '\n') :
    place.advance = place.along 1 := by
  simp only [advance, more, if_neg inLine, along, List.drop_succ_cons, List.drop_zero]

theorem advance_along {chars tail : List Char} (ahead : place.ahead = chars ++ tail)
    (inLine : '\n' ∉ chars) {i : Nat} (inside : i < chars.length) :
    (place.along i).advance = place.along (i + 1) := by
  have here : (place.along i).ahead = chars[i] :: (chars.drop (i + 1) ++ tail) := by
    rw [ahead_along, ahead, List.drop_append_of_le_length (Nat.le_of_lt inside),
      List.drop_eq_getElem_cons inside, List.cons_append]
  have different : chars[i] ≠ '\n' := ne_of_mem_of_not_mem (List.getElem_mem inside) inLine
  rw [advance_eq_along here different, along_along]

/-- A run of characters that are no newlines lies along the line. -/
theorem skipWhile_eq_along {p : Char → Bool} (newline : p '\n' = false) (place : Scanner) :
    place.skipWhile p = place.along (place.ahead.takeWhile p).length := by
  fun_induction skipWhile p place with
  | case1 place more ih =>
      obtain ⟨c, rest, ahead⟩ : ∃ c rest, place.ahead = c :: rest := by
        cases ahead : place.ahead with
        | nil => simp [ahead] at more
        | cons c rest => exact ⟨c, rest, rfl⟩
      have inside : p c = true := by simpa [ahead] using more
      have inLine : c ≠ '\n' := by
        rintro rfl
        simp [newline] at inside
      rw [ih, advance_eq_along ahead inLine, along_along, ahead_along, ahead, List.drop_succ_cons,
        List.drop_zero, List.takeWhile_cons_of_pos inside, List.length_cons, Nat.add_comm 1]
  | case2 place none =>
      cases ahead : place.ahead with
      | nil => rfl
      | cons c rest =>
          have outside : ¬ p c = true := by simpa [ahead] using none
          rw [List.takeWhile_cons_of_neg outside, List.length_nil, along_zero]

theorem textTo_along (place : Scanner) (k : Nat) :
    place.textTo (place.along k) = String.ofList (place.ahead.take k) := by
  rw [textTo, along, Nat.add_sub_cancel_left]

/-- The text of a string literal, from behind its quote. -/
theorem textTo_along_one (place : Scanner) (k : Nat) :
    (place.along 1).textTo (place.along (k + 1)) =
      String.ofList ((place.along 1).ahead.take k) := by
  rw [Nat.add_comm, ← along_along, textTo_along]

theorem spanTo_along (place : Scanner) (k : Nat) :
    place.spanTo (place.along (k + 1)) = ⟨place.line, place.col, place.col + k⟩ := by
  have last : max (place.col + (k + 1) - 1) place.col = place.col + k := by omega
  rw [spanTo, along, last]

/-! ## Tokens -/

/-- A lexeme that is found at a place, and the place behind it. -/
def took (place : Scanner) (found : Lexeme) : Scanned × Scanner :=
  (⟨⟨found.kind, ⟨place.line, place.col, place.col + found.more⟩⟩, found.problem?⟩,
    place.along (found.more + 1))

theorem took_mk (place : Scanner) (kind : Token.Kind) (more : Nat) (problem? : Option Problem) :
    place.took ⟨kind, more, problem?⟩ =
      (⟨place.token kind (place.along (more + 1)), problem?⟩, place.along (more + 1)) := by
  rw [took, token, spanTo_along]

/-- The first quote among the first characters behind a place. -/
def firstQuote? (inner : Scanner) (chars : List Char) : Option Scanner :=
  (chars.findIdx? Text.isQuote).map inner.along

/-- One more character on the way of a string literal. -/
theorem firstQuote?_concat (inner : Scanner) (chars : List Char) (c : Char) :
    firstQuote? inner (chars ++ [c]) =
      if (firstQuote? inner chars).isNone ∧ Text.isQuote c then some (inner.along chars.length)
      else firstQuote? inner chars := by
  cases found : chars.findIdx? Text.isQuote <;> cases quote : Text.isQuote c <;>
    simp [firstQuote?, List.findIdx?_append, found, quote]

/-- The end of a string literal whose quote does not come again on its line. -/
theorem ofQuote_of_notMem {quote : Char} {chars : List Char} (notMem : quote ∉ chars) :
    Lexeme.ofQuote quote chars =
      match chars.findIdx? Text.isQuote with
      | some i => ⟨.quoted (String.ofList (chars.take i)), i + 1, none⟩
      | none => ⟨.quoted (String.ofList chars), chars.length, some .unterminatedString⟩ := by
  have content : chars.takeWhile (!Text.isQuote ·) = chars.take (chars.findIdx Text.isQuote) := by
    rw [List.takeWhile_eq_take_findIdx_not]
    simp only [Bool.not_not]
  have size : (chars.take (chars.findIdx Text.isQuote)).length = chars.findIdx Text.isQuote :=
    List.length_take_of_le List.findIdx_le_length
  rw [Lexeme.ofQuote, if_neg notMem]
  dsimp only
  rw [content, size]
  cases found : chars.findIdx? Text.isQuote with
  | some i =>
      obtain ⟨inside, rfl⟩ := List.findIdx?_eq_some_iff_findIdx_eq.1 found
      rw [if_pos inside]
  | none => rw [List.findIdx?_eq_none_iff_findIdx_eq.1 found, if_neg (Nat.lt_irrefl _)]

/-- The end of a string literal at the next quote of its kind. -/
theorem ofQuote_append_cons {quote : Char} {front : List Char} (notMem : quote ∉ front)
    (back : List Char) :
    Lexeme.ofQuote quote (front ++ quote :: back) =
      ⟨.quoted (String.ofList front), front.length + 1, none⟩ := by
  have content : (front ++ quote :: back).takeWhile (· != quote) = front := by
    have inside : ∀ c ∈ front, (c != quote) = true := by
      intro c member
      simpa using ne_of_mem_of_not_mem member notMem
    rw [List.takeWhile_append_of_pos inside, List.takeWhile_cons_of_neg (by simp), List.append_nil]
  have member : quote ∈ front ++ quote :: back := by simp
  rw [Lexeme.ofQuote, if_pos member]
  dsimp only
  rw [content]

theorem ahead_along_length (done : List Char) {more : List Char}
    (ahead : place.ahead = c :: (done ++ more)) :
    (place.along (done.length + 1)).ahead = more := by
  rw [ahead_along, ahead, List.drop_succ_cons, List.drop_left]

/-- At the end of the line, a string literal goes back to its first quote of the other
kind. -/
theorem scanQuoted_of_ended {quote : Char} {done : List Char} {tail : List Char}
    (ahead : place.ahead = c :: (done ++ tail)) (inLine : '\n' ∉ done)
    (ended : tail.head?.all (· = '\n') = true) (unclosed : quote ∉ done) :
    scanQuoted quote place (place.along 1) (firstQuote? (place.along 1) done)
        (place.along (done.length + 1)) =
      place.took (Lexeme.ofQuote quote done) := by
  have inner : (place.along 1).ahead = done ++ tail := ahead_along_length [] ahead
  have here : (place.along (done.length + 1)).ahead = tail := ahead_along_length done ahead
  rw [scanQuoted, dif_pos (by rw [here]; exact ended), ofQuote_of_notMem unclosed, firstQuote?]
  cases found : done.findIdx? Text.isQuote with
  | some i =>
      have inside : i < done.length := (List.findIdx?_eq_some_iff_findIdx_eq.1 found).1
      have text : (place.along 1).ahead.take i = done.take i := by
        rw [inner, List.take_append_of_le_length (Nat.le_of_lt inside)]
      dsimp only [Option.map_some]
      rw [endQuoted, textTo_along, text, advance_along inner inLine inside, along_along,
        took_mk, Nat.add_comm 1]
  | none =>
      have text : (place.along 1).ahead.take done.length = done := by
        rw [inner, List.take_left]
      dsimp only [Option.map_none]
      rw [endQuoted, textTo_along_one, text, took_mk]

/-- A string literal is looked for along its line only, and found where the line says. -/
theorem scanQuoted_eq (quote : Char) (done : List Char) {todo tail : List Char}
    (ahead : place.ahead = c :: (done ++ (todo ++ tail))) (inLine : '\n' ∉ done ++ todo)
    (ended : tail.head?.all (· = '\n') = true) (unclosed : quote ∉ done) :
    scanQuoted quote place (place.along 1) (firstQuote? (place.along 1) done)
        (place.along (done.length + 1)) =
      place.took (Lexeme.ofQuote quote (done ++ todo)) := by
  induction todo generalizing done with
  | nil =>
      rw [List.append_nil] at inLine ⊢
      exact scanQuoted_of_ended ahead inLine ended unclosed
  | cons d todo ih =>
      have inner : (place.along 1).ahead = done ++ (d :: todo ++ tail) :=
        ahead_along_length [] ahead
      have here : (place.along (done.length + 1)).ahead = d :: (todo ++ tail) :=
        ahead_along_length done ahead
      have different : d ≠ '\n' := by
        rintro rfl
        simp at inLine
      rw [scanQuoted, dif_neg (by rw [here]; simpa using different), here, List.head?_cons,
        advance_eq_along here different, along_along]
      by_cases closes : d = quote
      · have text : (place.along 1).ahead.take done.length = done := by
          rw [inner, List.take_left]
        rw [if_pos (congrArg some closes), closes, ofQuote_append_cons unclosed, textTo_along_one,
          text, took_mk]
      · have shift : done ++ d :: todo = done ++ [d] ++ todo := by simp
        have unclosed' : quote ∉ done ++ [d] := by simp [unclosed, Ne.symm closes]
        have onward := ih (done ++ [d]) (by simpa using ahead) (by rwa [shift] at inLine) unclosed'
        rw [if_neg (fun same => closes (Option.some.inj same)), shift, ← onward,
          firstQuote?_concat, along_along, List.length_append, List.length_singleton,
          Nat.add_comm 1]
        rfl

/-- A run of characters that are no newlines ends with its line. -/
theorem takeWhile_append_of_ended {p : Char → Bool} (newline : p '\n' = false)
    (chars : List Char) {tail : List Char} (ended : tail.head?.all (· = '\n') = true) :
    (chars ++ tail).takeWhile p = chars.takeWhile p := by
  have none : tail.takeWhile p = [] := by
    cases tail with
    | nil => rfl
    | cons d tail =>
        obtain rfl : d = '\n' := by simpa using ended
        exact List.takeWhile_cons_of_neg (by simp [newline])
  rw [List.takeWhile_append, none, List.append_nil]
  split
  next whole => exact ((List.takeWhile_prefix p).eq_of_length whole).symm
  next => rfl

section Line

variable {chars tail : List Char} (ahead : place.ahead = c :: (chars ++ tail))
  (inLine : '\n' ∉ c :: chars) (ended : tail.head?.all (· = '\n') = true)
include ahead inLine ended

/-- A token that goes on with a run of characters of a class. -/
theorem run_eq {p : Char → Bool} (newline : p '\n' = false) :
    place.advance.skipWhile p = place.along ((chars.takeWhile p).length + 1) ∧
      place.textTo (place.along ((chars.takeWhile p).length + 1)) =
        String.ofList (c :: chars.takeWhile p) := by
  have behind : (place.along 1).ahead = chars ++ tail := by
    rw [ahead_along, ahead, List.drop_succ_cons, List.drop_zero]
  have run := takeWhile_append_of_ended newline chars ended
  have front : (chars ++ tail).take (chars.takeWhile p).length = chars.takeWhile p := by
    rw [← run]
    exact (List.prefix_iff_eq_take.1 (List.takeWhile_prefix p)).symm
  constructor
  · rw [advance_eq_along ahead (List.ne_of_not_mem_cons inLine).symm, skipWhile_eq_along newline,
      along_along, behind, run, Nat.add_comm]
  · rw [textTo_along, ahead, List.take_succ_cons, front]

/-- The token that starts at a place is the lexeme at the first of its characters. -/
theorem scanFrom_eq : place.scanFrom c = place.took (Lexeme.start c chars) := by
  have different : c ≠ '\n' := (List.ne_of_not_mem_cons inLine).symm
  have next := advance_eq_along ahead different
  have digits := run_eq ahead inLine ended (p := Char.isDigit) rfl
  have word := run_eq ahead inLine ended (p := isWordChar) rfl
  unfold scanFrom Lexeme.start
  dsimp only
  rw [if_neg different]
  split
  · have quoted := scanQuoted_eq c [] ahead
      (fun member => inLine (List.mem_cons_of_mem c member)) ended List.not_mem_nil
    rw [next]
    exact quoted
  · split
    · rw [digits.1, digits.2]
      exact (took_mk place _ _ _).symm
    · split
      · rw [word.1, word.2]
        exact (took_mk place _ _ _).symm
      · rw [next]
        exact (took_mk place _ _ _).symm

end Line

/-! ## Whole lines -/

theorem skipWhile_of_head {p : Char → Bool} (more : place.ahead.head?.any p = true) :
    place.skipWhile p = place.advance.skipWhile p := by
  rw [skipWhile, dif_pos more]

theorem skipWhile_of_not_head {p : Char → Bool} (none : ¬ place.ahead.head?.any p = true) :
    place.skipWhile p = place := by
  rw [skipWhile, dif_neg none]

/-- A gap is passed over. -/
theorem skipGaps_of_isGap (ahead : place.ahead = c :: rest) (gap : isGap c = true) :
    place.skipGaps = (place.along 1).skipGaps := by
  have inLine : c ≠ '\n' := by
    rintro rfl
    cases gap
  have skip : place.skipWhile isGap = (place.along 1).skipWhile isGap := by
    rw [skipWhile_of_head (by simpa [ahead] using gap), advance_eq_along ahead inLine]
  rw [skipGaps.eq_def place, skip, ← skipGaps.eq_def]

/-- A comment is passed over, up to the end of its line. -/
theorem skipGaps_of_startsComment {chars tail : List Char} (ahead : place.ahead = chars ++ tail)
    (inLine : '\n' ∉ chars) (ended : tail.head?.all (· = '\n') = true)
    (comment : startsComment chars = true) :
    place.skipGaps = (place.along chars.length).skipGaps := by
  have start : startsComment place.ahead = true ∧ ¬ place.ahead.head?.any isGap = true := by
    rw [ahead]
    unfold startsComment at comment
    split at comment
    next => exact ⟨rfl, Bool.false_ne_true⟩
    next => cases comment
  have inside : ∀ c ∈ chars, (c != '\n') = true := by
    intro c member
    simpa using ne_of_mem_of_not_mem member inLine
  have whole : place.ahead.takeWhile (· != '\n') = chars := by
    rw [ahead, takeWhile_append_of_ended rfl chars ended, List.takeWhile_eq_self_iff]
    exact inside
  have skip := skipWhile_of_not_head start.2
  rw [skipGaps.eq_def place, skip, dif_pos start.1, skipComment, skipWhile_eq_along rfl, whole]

/-- A comment does not start with the end of a line. -/
theorem startsComment_append (chars : List Char) {tail : List Char}
    (ended : tail.head?.all (· = '\n') = true) :
    startsComment (chars ++ tail) = startsComment chars := by
  match chars, tail with
  | [], [] => rfl
  | [], d :: tail =>
      obtain rfl : d = '\n' := by simpa using ended
      rfl
  | [c], [] => rfl
  | [c], d :: tail =>
      obtain rfl : d = '\n' := by simpa using ended
      unfold startsComment
      simp
  | c :: d :: chars, tail =>
      unfold startsComment
      split <;> split <;> simp_all

/-- At any other character the scanner stays. -/
theorem skipGaps_of_start (ahead : place.ahead = c :: rest) (gap : ¬ isGap c = true)
    (comment : ¬ startsComment (c :: rest) = true) : place.skipGaps = place := by
  have skip : place.skipWhile isGap = place :=
    skipWhile_of_not_head (by simpa [ahead] using gap)
  rw [skipGaps, skip, dif_neg (by rwa [ahead])]

theorem scanAll_of_scanToken {scanned : Scanned} {after : Scanner}
    (h : place.scanToken = (scanned, after)) :
    place.scanAll =
      if scanned.token.kind = .endOfInput then [scanned] else scanned :: after.scanAll := by
  rw [scanAll]
  split
  next found place' same =>
    obtain ⟨rfl, rfl⟩ := Prod.mk.inj (same.symm.trans h)
    exact dite_eq_ite

/-- What is passed over does not matter. -/
theorem scanAll_of_skipGaps {other : Scanner} (same : place.skipGaps = other.skipGaps) :
    place.scanAll = other.scanAll := by
  have token : place.scanToken = other.scanToken := by
    rw [scanToken, scanToken, same]
  rw [scanAll_of_scanToken token, ← scanAll_of_scanToken rfl]

/-- Where a token starts, the lexeme at its first character is scanned. -/
theorem scanAll_of_start {chars tail : List Char} (ahead : place.ahead = c :: (chars ++ tail))
    (inLine : '\n' ∉ c :: chars) (ended : tail.head?.all (· = '\n') = true)
    (gap : ¬ isGap c = true) (comment : ¬ startsComment (c :: chars) = true) :
    place.scanAll =
      (place.took (Lexeme.start c chars)).1
        :: (place.along ((Lexeme.start c chars).more + 1)).scanAll := by
  have here : ¬ startsComment (c :: (chars ++ tail)) = true := by
    rwa [← startsComment_append (c :: chars) ended] at comment
  have token : place.scanToken = place.took (Lexeme.start c chars) := by
    rw [← scanFrom_eq ahead inLine ended, scanToken, skipGaps_of_start ahead gap here]
    simp only [ahead]
  have other : (Lexeme.start c chars).kind ≠ .endOfInput := by
    intro last
    have inner := (Lexeme.isSound_start c chars).isLineEnd
    rw [last] at inner
    cases inner
  rw [scanAll_of_scanToken token]
  exact if_neg other

/-- A line is scanned by its own characters. -/
theorem scanAll_line {chars tail : List Char} (ahead : place.ahead = chars ++ tail)
    (inLine : '\n' ∉ chars) (ended : tail.head?.all (· = '\n') = true) :
    place.scanAll =
      Scanned.ofChars place.line place.col 0 chars ++ (place.along chars.length).scanAll := by
  induction size : chars.length using Nat.strongRecOn generalizing place chars with
  | ind n ih =>
      cases chars with
      | nil => simp [Scanned.ofChars, ← size]
      | cons c chars =>
          -- Part of the line is done; the rest of it is shorter.
          have onward : ∀ k, k ≤ chars.length →
              (place.along (k + 1)).scanAll =
                Scanned.ofChars place.line (place.col + (k + 1)) 0 (chars.drop k)
                  ++ (place.along n).scanAll := by
            intro k inside
            have left : (place.along (k + 1)).ahead = chars.drop k ++ tail := by
              rw [ahead_along, ahead, List.cons_append, List.drop_succ_cons,
                List.drop_append_of_le_length inside]
            have inLine' : '\n' ∉ chars.drop k :=
              fun member => inLine (List.mem_cons_of_mem c (List.mem_of_mem_drop member))
            have count : (chars.drop k).length < n := by
              rw [List.length_drop, ← size, List.length_cons]
              omega
            have total : k + 1 + (chars.drop k).length = n := by
              rw [List.length_drop, ← size, List.length_cons]
              omega
            rw [ih _ count left inLine' rfl, along_along, total]
            rfl
          rw [Scanned.ofChars]
          by_cases gap : isGap c = true
          · rw [if_pos gap, scanAll_of_skipGaps (skipGaps_of_isGap ahead gap)]
            exact onward 0 (Nat.zero_le _)
          · by_cases comment : startsComment (c :: chars) = true
            · rw [if_neg gap, if_pos comment, List.nil_append, ← size,
                scanAll_of_skipGaps (skipGaps_of_startsComment ahead inLine ended comment)]
            · have short := Lexeme.more_start_le c chars
              have column : place.col + 1 + (Lexeme.start c chars).more =
                  place.col + ((Lexeme.start c chars).more + 1) := by omega
              rw [if_neg gap, if_neg comment, scanAll_of_start ahead inLine ended gap comment,
                onward _ short]
              dsimp only [took]
              rw [Scanned.ofChars_skip place.line _ (Lexeme.start c chars).more, column,
                List.cons_append]

/-! ## Whole texts -/

theorem scanAll_of_end (ahead : place.ahead = []) :
    place.scanAll = [⟨⟨.endOfInput, .point place.line place.col⟩, none⟩] := by
  have stays : place.skipGaps = place := by
    have skip : place.skipWhile isGap = place := skipWhile_of_not_head (by simp [ahead])
    rw [skipGaps, skip, dif_neg (by simp [ahead, startsComment])]
  have token : place.scanToken =
      (⟨⟨.endOfInput, .point place.line place.col⟩, none⟩, place) := by
    rw [scanToken, stays]
    simp only [ahead]
  rw [scanAll_of_scanToken token, if_pos rfl]

theorem scanAll_of_newline (ahead : place.ahead = '\n' :: rest) :
    place.scanAll =
      ⟨⟨.newline, .point place.line place.col⟩, none⟩ :: place.advance.scanAll := by
  have stays : place.skipGaps = place :=
    skipGaps_of_start ahead Bool.false_ne_true Bool.false_ne_true
  have token : place.scanToken =
      (⟨⟨.newline, .point place.line place.col⟩, none⟩, place.advance) := by
    rw [scanToken, stays]
    simp only [ahead]
    rfl
  rw [scanAll_of_scanToken token, if_neg nofun]

/-- The tokens from the start of a line on are those of the lines from there on. -/
theorem scanAll_eq_ofLines (chars : List Char) (pos line : Nat) :
    scanAll ⟨chars, pos, line, 1⟩ = Scanned.ofLines line (chars.splitOn '\n') := by
  induction size : chars.length using Nat.strongRecOn generalizing chars pos line with
  | ind n ih =>
      by_cases more : '\n' ∈ chars
      · obtain ⟨front, rest, rfl, inLine⟩ := List.eq_append_cons_of_mem more
        obtain ⟨next, others, split⟩ := List.exists_cons_of_ne_nil (List.splitOn_ne_nil '\n' rest)
        have here : (along ⟨front ++ '\n' :: rest, pos, line, 1⟩ front.length).ahead =
            '\n' :: rest := by
          rw [ahead_along, List.drop_left]
        have below : (along ⟨front ++ '\n' :: rest, pos, line, 1⟩ front.length).advance =
            ⟨rest, pos + front.length + 1, line + 1, 1⟩ := by
          rw [advance]
          simp only [here]
          rfl
        have shorter : rest.length < n := by
          rw [← size, List.length_append, List.length_cons]
          omega
        have onward := ih rest.length shorter rest (pos + front.length + 1) (line + 1) rfl
        rw [scanAll_line rfl inLine rfl, scanAll_of_newline here, below,
          List.splitOn_append_cons_self, List.splitOn_eq_singleton inLine, split,
          List.singleton_append, Scanned.ofLines_cons_cons, ← split, ← onward, Scanned.lineEnd,
          Nat.add_comm front.length 1]
        rfl
      · have whole : (⟨chars, pos, line, 1⟩ : Scanner).ahead = chars ++ [] :=
          (List.append_nil chars).symm
        have here : (along ⟨chars, pos, line, 1⟩ chars.length).ahead = [] := by
          rw [ahead_along, List.drop_length]
        rw [scanAll_line whole more rfl, scanAll_of_end here, List.splitOn_eq_singleton more,
          Scanned.ofLines, Scanned.lineEnd, Nat.add_comm chars.length 1]
        rfl

end Scanner

/-- The tokens of a source are those of its lines. -/
theorem Source.scan_eq (source : Source) : source.scan = Scanned.ofLines 1 source.lines := by
  rw [scan, source.lines_eq]
  exact Scanner.scanAll_eq_ofLines source.text.toList 0 1

end Rocket
