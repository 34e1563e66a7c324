import Rocket.Json.Reader

/-!
# The grammar of JSON

Which texts write which values. The grammar is that of RFC 8259, and says nothing of how
a text is read.

## Implementation notes

Values, elements of documents and lists of them are written in terms of each other. They
are the forms of one relation, so that statements about texts are proved by one induction.
The comma between two items, and all blanks, belong to the lists.
-/

namespace Rocket.Json

/-- Whether there is nothing but blanks. -/
def IsBlank (cs : List Char) : Prop :=
  ∀ c ∈ cs, isSpace c = true

/-! ## Strings -/

/-- Whether a string literal with a given inside stands for some code points and units. -/
inductive Units : List Char → List Nat → Prop where
  | nil : Units [] []
  | char {c : Char} {inside : List Char} {codes : List Nat} (printable : 0x20 ≤ c.toNat)
      (quote : c ≠ '"') (backslash : c ≠ '\\') (rest : Units inside codes) :
      Units (c :: inside) (c.toNat :: codes)
  | letter {letter : Char} {code : Nat} {inside : List Char} {codes : List Nat}
      (escape : shortEscape? letter = some code) (rest : Units inside codes) :
      Units ('\\' :: letter :: inside) (code :: codes)
  | unit {a b c d : Char} {code : Nat} {inside : List Char} {codes : List Nat}
      (escape : unit? a b c d = some code) (rest : Units inside codes) :
      Units ('\\' :: 'u' :: a :: b :: c :: d :: inside) (code :: codes)

/-- Whether code points and units stand for some characters. Surrogates do in pairs. -/
inductive Assembles : List Nat → List Char → Prop where
  | nil : Assembles [] []
  | char {code : Nat} {codes : List Nat} {cs : List Char} (high : isHighSurrogate code = false)
      (low : isLowSurrogate code = false) (rest : Assembles codes cs) :
      Assembles (code :: codes) (Char.ofNat code :: cs)
  | pair {high low : Nat} {codes : List Nat} {cs : List Char} (isHigh : isHighSurrogate high = true)
      (isLow : isLowSurrogate low = true) (rest : Assembles codes cs) :
      Assembles (high :: low :: codes) (Char.ofNat (pair high low) :: cs)

/-- Whether a string literal with a given inside has a text, or none if its surrogates do
not pair up. -/
def WritesText (inside : List Char) (text? : Option String) : Prop :=
  ∃ codes, Units inside codes ∧ ∀ text, text? = some text ↔ Assembles codes text.toList

/-! ## Numbers -/

/-- Whether there are digits and nothing else. -/
def IsDigits (digits : List Char) : Prop :=
  digits ≠ [] ∧ ∀ c ∈ digits, c.isDigit = true

/-- The part of a number from its point on, if it has one. -/
inductive IsFraction : List Char → Prop where
  | none : IsFraction []
  | some {digits : List Char} (h : IsDigits digits) : IsFraction ('.' :: digits)

/-- The exponent of a number, if it has one. -/
inductive IsExponent : List Char → Prop where
  | none : IsExponent []
  | some {mark : Char} {sign digits : List Char} (marked : mark = 'e' ∨ mark = 'E')
      (signed : sign = [] ∨ sign = ['+'] ∨ sign = ['-']) (h : IsDigits digits) :
      IsExponent (mark :: (sign ++ digits))

/-- The value of a number with the given parts. It is an integer if there are digits only,
but a negative zero is none. -/
def ofNumber (sign digits fraction exponent : List Char) : Json :=
  let magnitude := Nat.ofDigitChars 10 digits 0
  if fraction ++ exponent = [] ∧ ¬(sign = ['-'] ∧ magnitude = 0) then
    .integer (if sign = ['-'] then -(magnitude : Int) else magnitude)
  else .decimal (String.ofList (sign ++ (digits ++ (fraction ++ exponent))))

/-- Whether a text is a number of a given value. No zero stands in front of other digits. -/
inductive WritesNumber : List Char → Json → Prop where
  | intro {sign digits fraction exponent : List Char} (signed : sign = [] ∨ sign = ['-'])
      (whole : IsDigits digits) (plain : digits.head? = some '0' → digits = ['0'])
      (point : IsFraction fraction) (power : IsExponent exponent) :
      WritesNumber (sign ++ (digits ++ (fraction ++ exponent)))
        (ofNumber sign digits fraction exponent)

/-! ## Values -/

/-- What a text can write. -/
inductive Form where
  | value (value : Json)
  /-- A value, and blanks around it. -/
  | element (value : Json)
  /-- The items of an array that has some. -/
  | items (items : List Json)
  /-- The members of an object that has some. -/
  | members (members : List (Option String × Json))

/-- Whether a text writes something. -/
inductive Written : Form → List Char → Prop where
  | null : Written (.value .null) ['n', 'u', 'l', 'l']
  | true : Written (.value (.bool true)) ['t', 'r', 'u', 'e']
  | false : Written (.value (.bool false)) ['f', 'a', 'l', 's', 'e']
  | number {text : List Char} {value : Json} (h : WritesNumber text value) :
      Written (.value value) text
  | string {inside : List Char} {text? : Option String} (h : WritesText inside text?) :
      Written (.value (.string text?)) ('"' :: (inside ++ ['"']))
  | emptyArray {blanks : List Char} (h : IsBlank blanks) :
      Written (.value (.array [])) ('[' :: (blanks ++ [']']))
  | array {items : List Json} {text : List Char} (h : Written (.items items) text) :
      Written (.value (.array items)) ('[' :: (text ++ [']']))
  | emptyObject {blanks : List Char} (h : IsBlank blanks) :
      Written (.value (.object [])) ('{' :: (blanks ++ ['}']))
  | object {members : List (Option String × Json)} {text : List Char}
      (h : Written (.members members) text) :
      Written (.value (.object members)) ('{' :: (text ++ ['}']))
  | element {value : Json} {before text after : List Char} (front : IsBlank before)
      (h : Written (.value value) text) (back : IsBlank after) :
      Written (.element value) (before ++ (text ++ after))
  | lastItem {item : Json} {text : List Char} (h : Written (.element item) text) :
      Written (.items [item]) text
  | item {item : Json} {items : List Json} {text more : List Char}
      (first : Written (.element item) text) (rest : Written (.items items) more) :
      Written (.items (item :: items)) (text ++ ',' :: more)
  | lastMember {key : Option String} {value : Json} {before inside after text : List Char}
      (front : IsBlank before) (name : WritesText inside key) (back : IsBlank after)
      (h : Written (.element value) text) :
      Written (.members [(key, value)])
        (before ++ '"' :: (inside ++ '"' :: (after ++ ':' :: text)))
  | member {key : Option String} {value : Json} {members : List (Option String × Json)}
      {before inside after text more : List Char}
      (front : IsBlank before) (name : WritesText inside key) (back : IsBlank after)
      (first : Written (.element value) text) (rest : Written (.members members) more) :
      Written (.members ((key, value) :: members))
        (before ++ '"' :: (inside ++ '"' :: (after ++ ':' :: (text ++ ',' :: more))))

/-- Whether a document writes a value. -/
def IsDocument (value : Json) (document : String) : Prop :=
  Written (.element value) document.toList

end Rocket.Json
