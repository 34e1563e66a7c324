import Mathlib
import Rocket.Proofs.Level.Document

/-!
# Forms of a level

A level may be written as an object or as an array of the same values, and so may a position.
It makes no difference which: the same levels are read and the same documents refused.

## Implementation notes

A part of a level is looked up by its name in one form and by its place in the other. Both
find the same value, since the names have their places and each is there once.
-/

namespace Rocket

/-- Whether two values are the same, or write one position in the two ways there are: as an
object of both coordinates, in any order, and as an array. -/
inductive Json.Respelled : Json → Json → Prop where
  | same (value : Json) : Respelled value value
  | toArray {x y : Json} {members : List (Option String × Json)}
      (h : members.Perm [(some "x", x), (some "y", y)]) :
      Respelled (.object members) (.array [x, y])
  | toObject {x y : Json} {members : List (Option String × Json)}
      (h : members.Perm [(some "x", x), (some "y", y)]) :
      Respelled (.array [x, y]) (.object members)

namespace Level

/-- Whether two values differ in nothing but how positions are written in their items or
members. -/
inductive Respelled : Json → Json → Prop where
  | array {values others : List Json} (h : List.Forall₂ Json.Respelled values others) :
      Respelled (.array values) (.array others)
  | object {members others : List (Option String × Json)}
      (h : List.Forall₂ (fun member other =>
        member.1 = other.1 ∧ Json.Respelled member.2 other.2) members others) :
      Respelled (.object members) (.object others)

variable {α : Type} {values others : List Json} {members : List (Option String × Json)}
  {name : String} {place : Nat} {decode : Json → Option α} {level : Level}

/-! ## Values under a name -/

/-- What is there under a name does not hang on the order of the members. -/
theorem perm_valuesOf {members others : List (Option String × Json)} (perm : members.Perm others)
    (name : String) : (valuesOf members name).Perm (valuesOf others name) :=
  (perm.filter _).map _

/-- Under the name at a place there is the value at that place. -/
theorem valuesOf_zip {names : List String} (nodup : names.Nodup)
    (named : names[place]? = some name) (values : List Json) :
    valuesOf ((names.zip values).map fun (name, value) => (some name, value)) name =
      values[place]?.toList := by
  induction names generalizing values place with
  | nil => cases named
  | cons first names ih =>
      cases values with
      | nil => rfl
      | cons value values =>
          obtain ⟨new, nodup⟩ := List.nodup_cons.1 nodup
          cases place with
          | zero =>
              obtain rfl := Option.some.inj named
              have others : ∀ pair ∈ (names.zip values).map fun (name, value) =>
                  (some name, value), ¬ pair.1 = some first := by
                refine List.forall_mem_map.2 fun pair member same => new ?_
                obtain rfl := Option.some.inj same
                exact (List.of_mem_zip member).1
              rw [valuesOf, List.zip_cons_cons, List.map_cons, List.filter_cons_of_pos (by simp),
                List.filter_eq_nil_iff.2 fun pair member => by simpa using others pair member]
              rfl
          | succ place =>
              have other : first ≠ name := by
                rintro rfl
                exact new (List.mem_of_getElem? named)
              rw [valuesOf, List.zip_cons_cons, List.map_cons,
                List.filter_cons_of_neg (by simpa using other)]
              exact ih nodup named values

/-- An object has the value of an array at each place under the name of that place. -/
theorem valuesOf_of_perm
    (perm : members.Perm ((memberNames.zip values).map fun (name, value) => (some name, value)))
    (named : memberNames[place]? = some name) : valuesOf members name = values[place]?.toList := by
  have found := perm_valuesOf perm name
  rw [valuesOf_zip (by decide) named] at found
  cases there : values[place]? with
  | none =>
      rw [there] at found
      exact found.eq_nil
  | some value =>
      rw [there] at found
      exact List.perm_singleton.1 found

/-! ## Parts of a level -/

/-- Whether a decoder makes no difference between the two ways to write a position. -/
def IgnoresSpelling (decode : Json → Option α) : Prop :=
  ∀ {value other : Json}, value.Respelled other → decode value = decode other

/-- A decoder that knows neither arrays nor objects of two members decodes no position. -/
theorem ignoresSpelling_of_none (array : ∀ x y, decode (.array [x, y]) = none)
    (object : ∀ first second, decode (.object [first, second]) = none) :
    IgnoresSpelling decode := by
  have none : ∀ {x y : Json} {members : List (Option String × Json)},
      members.Perm [(some "x", x), (some "y", y)] → decode (.object members) = none := by
    intro x y members perm
    obtain ⟨first, second, rfl⟩ := List.length_eq_two.1 perm.length_eq
    exact object first second
  intro value other h
  cases h with
  | same value => rfl
  | toArray h => rw [none h, array]
  | toObject h => rw [none h, array]

theorem ignoresSpelling_word32? : IgnoresSpelling word32? :=
  ignoresSpelling_of_none (fun _ _ => rfl) fun _ _ => rfl

theorem ignoresSpelling_word64? : IgnoresSpelling word64? :=
  ignoresSpelling_of_none (fun _ _ => rfl) fun _ _ => rfl

theorem ignoresSpelling_heading? : IgnoresSpelling heading? :=
  ignoresSpelling_of_none (fun _ _ => rfl) fun _ _ => by simp [heading?, Json.choice?]

theorem ignoresSpelling_mode? : IgnoresSpelling mode? :=
  ignoresSpelling_of_none (fun _ _ => rfl) fun _ _ => by simp [mode?, Json.choice?]

/-- The coordinates of an object in any order are those of the array. -/
theorem position?_of_perm {x y : Json} (perm : members.Perm [(some "x", x), (some "y", y)]) :
    position? (.object members) = position? (.array [x, y]) := by
  have readable : ∀ member ∈ members, member.1.isSome = true := by
    intro member inside
    have known := perm.subset inside
    simp only [List.mem_cons, List.not_mem_nil, or_false] at known
    obtain rfl | rfl := known <;> rfl
  have xs : valuesOf members "x" = [x] := List.perm_singleton.1 (perm_valuesOf perm "x")
  have ys : valuesOf members "y" = [y] := List.perm_singleton.1 (perm_valuesOf perm "y")
  rw [position?, if_pos (keysReadable_eq_true_iff.2 readable), member?_of_values xs,
    member?_of_values ys, position?]

theorem ignoresSpelling_position? : IgnoresSpelling position? := by
  intro value other h
  cases h with
  | same value => rfl
  | toArray h => exact position?_of_perm h
  | toObject h => exact (position?_of_perm h).symm

/-- Levels are read alike from parts that are found alike, by decoders that do not look at
how a position is written. -/
theorem ofParts?_congr
    {part part' : {α : Type} → String → Nat → (Json → Option α) → α → Option α}
    (alike : ∀ {α : Type} {name : String} {place : Nat} {decode : Json → Option α} (default : α),
      memberNames[place]? = some name → IgnoresSpelling decode →
        part name place decode default = part' name place decode default) :
    ofParts? part = ofParts? part' := by
  dsimp only [ofParts?]
  rw [alike reference.gridSize rfl ignoresSpelling_word32?,
    alike reference.start rfl ignoresSpelling_position?,
    alike reference.startHeading rfl ignoresSpelling_heading?,
    alike reference.target rfl ignoresSpelling_position?,
    alike reference.stepDelay rfl ignoresSpelling_word64?,
    alike reference.maxSteps rfl ignoresSpelling_word64?,
    alike reference.mode rfl ignoresSpelling_mode?]

/-! ## Objects and arrays -/

/-- A part is found under its name as it is found at its place. -/
theorem member?_eq_item? {absent : Option α}
    (found : valuesOf members name = values[place]?.toList) :
    member? members name decode absent = item? values place decode absent := by
  rw [member?, item?, found]
  cases values[place]? <;> rfl

/-- A level is read off an object with the values of an array as it is read off the array. -/
theorem ofJson?_of_perm (short : values.length ≤ memberNames.length)
    (perm : members.Perm ((memberNames.zip values).map fun (name, value) => (some name, value))) :
    ofJson? (.object members) = ofJson? (.array values) := by
  have readable : ∀ member ∈ members, member.1.isSome = true := by
    intro member inside
    obtain ⟨pair, -, rfl⟩ := List.mem_map.1 (perm.subset inside)
    rfl
  rw [ofJson?, if_pos (keysReadable_eq_true_iff.2 readable), ofJson?, if_pos short]
  apply ofParts?_congr
  intro α name place decode default named _
  exact member?_eq_item? (valuesOf_of_perm perm named)

/-- A part whose place is behind the end of an array is that of the reference level. -/
theorem eq_of_item? {default a : α} (behind : values.length ≤ place)
    (h : item? values place decode (some default) = some a) : a = default := by
  rw [item?, List.getElem?_eq_none behind] at h
  exact (Option.some.inj h).symm

/-- Behind the values of an array, the parts of a level are those of the reference level. -/
theorem drop_members_of_array (h : ofJson? (.array values) = some level) :
    level.members.drop values.length = reference.members.drop values.length := by
  rw [ofJson?] at h
  split at h
  next =>
    obtain ⟨gridSize, start, heading, target, delay, budget, mode⟩ := ofParts?_eq_some_iff.1 h
    have same : ∀ place, values.length ≤ place →
        level.members[place]? = reference.members[place]? := by
      intro place behind
      rcases place with _ | _ | _ | _ | _ | _ | _ | _
      · rw [members, eq_of_item? behind gridSize]
        rfl
      · rw [members, eq_of_item? behind start]
        rfl
      · rw [members, eq_of_item? behind heading]
        rfl
      · rw [members, eq_of_item? behind target]
        rfl
      · rw [members, eq_of_item? behind delay]
        rfl
      · rw [members, eq_of_item? behind budget]
        rfl
      · rw [members, eq_of_item? behind mode]
        rfl
      · rfl
    refine List.ext_getElem? fun i => ?_
    rw [List.getElem?_drop, List.getElem?_drop]
    exact same _ (Nat.le_add_right _ i)
  next => cases h

/-! ## Ways to write a position -/

theorem item?_of_respelled (h : List.Forall₂ Json.Respelled values others)
    (ignores : IgnoresSpelling decode) (place : Nat) (absent : Option α) :
    item? values place decode absent = item? others place decode absent := by
  induction h generalizing place with
  | nil => rfl
  | cons first _ ih =>
      cases place with
      | zero => exact ignores first
      | succ place => exact ih place

section Members

variable {others : List (Option String × Json)}
  (h : List.Forall₂ (fun member other =>
    member.1 = other.1 ∧ Json.Respelled member.2 other.2) members others)
include h

theorem respelled_valuesOf (name : String) :
    List.Forall₂ Json.Respelled (valuesOf members name) (valuesOf others name) := by
  induction h with
  | nil => exact .nil
  | @cons member other members others first _ ih =>
      obtain ⟨key, value⟩ := first
      by_cases named : other.1 = some name
      · rw [valuesOf, valuesOf, List.filter_cons_of_pos (by simpa [key] using named),
          List.filter_cons_of_pos (by simpa using named)]
        exact .cons value ih
      · rw [valuesOf, valuesOf, List.filter_cons_of_neg (by simpa [key] using named),
          List.filter_cons_of_neg (by simpa using named)]
        exact ih

theorem member?_of_respelled (ignores : IgnoresSpelling decode) (name : String)
    (absent : Option α) :
    member? members name decode absent = member? others name decode absent := by
  have found := respelled_valuesOf h name
  unfold member?
  generalize valuesOf members name = values at found ⊢
  generalize valuesOf others name = values' at found ⊢
  cases found with
  | nil => rfl
  | cons first rest =>
      cases rest with
      | nil => exact ignores first
      | cons => rfl

theorem keysReadable_of_respelled : keysReadable members = keysReadable others := by
  induction h with
  | nil => rfl
  | cons first _ ih =>
      rw [keysReadable, List.all_cons, first.1]
      exact congrArg (_ && ·) ih

end Members

/-- How positions are written in it makes no difference to what level a value describes. -/
theorem Respelled.ofJson?_eq {value other : Json} (h : Respelled value other) :
    ofJson? value = ofJson? other := by
  cases h with
  | array h =>
      rw [ofJson?, ofJson?, h.length_eq]
      congr 1
      apply ofParts?_congr
      intro α name place decode default _ ignores
      exact item?_of_respelled h ignores place _
  | object h =>
      rw [ofJson?, ofJson?, keysReadable_of_respelled h]
      congr 1
      apply ofParts?_congr
      intro α name place decode default _ ignores
      exact member?_of_respelled h ignores name _

/-! ## Documents -/

theorem read_of_isDocument {value : Json} {document : String}
    (written : Json.IsDocument value document) :
    read document = ((ofJson? value).elim (.error .notALevel) .ok : Except LevelError Level) := by
  rw [read, Json.read?_eq_some_iff.2 written, Option.bind_some]
  cases ofJson? value <;> rfl

/-- A level may be written in either form. An array of the values of its first members and an
object of these members in any order are both read as one level, with the other members of
the reference level, or both refused. How a position is written makes no difference, and an
array with more values than there are members is refused. -/
theorem read_in_either_form :
    (∀ (values : List Json) members array object, values.length ≤ memberNames.length →
        members.Perm ((memberNames.zip values).map fun (name, value) => (some name, value)) →
          Json.IsDocument (.array values) array → Json.IsDocument (.object members) object →
            read array = .error .notALevel ∧ read object = .error .notALevel ∨
              ∃ level : Level, read array = .ok level ∧ read object = .ok level ∧
                level.members.drop values.length = reference.members.drop values.length) ∧
      (∀ value other document document', Respelled value other →
        Json.IsDocument value document → Json.IsDocument other document' →
          read document = read document') ∧
      ∀ (values : List Json) document, memberNames.length < values.length →
        Json.IsDocument (.array values) document → read document = .error .notALevel := by
  refine ⟨?_, ?_, ?_⟩
  · intro values members array object short perm array' object'
    rw [read_of_isDocument array', read_of_isDocument object', ofJson?_of_perm short perm]
    cases found : ofJson? (.array values) with
    | none => exact .inl ⟨rfl, rfl⟩
    | some level => exact .inr ⟨level, rfl, rfl, drop_members_of_array found⟩
  · intro value other document document' respelled written written'
    rw [read_of_isDocument written, read_of_isDocument written', respelled.ofJson?_eq]
  · intro values document long written
    rw [read_of_isDocument written, ofJson?, if_neg (Nat.not_le.2 long)]
    rfl

/-- A grid size and a start in either form, the start as an object and as an array, and eight
values. -/
theorem read_in_either_form_reference :
    let level : Level := { reference with gridSize := 3, start := ⟨1, 2⟩ }
    let array := "[3,\x7b\"y\":2,\"x\":1\x7d]"
    let object := "\x7b\"start\":\x7b\"y\":2,\"x\":1\x7d,\"grid_size\":3\x7d"
    let nested := "[3,[1,2]]"
    read array = .ok level ∧ read object = .ok level ∧ read nested = .ok level ∧
      read "[1,1,1,1,1,1,1,1]" = .error .notALevel := by
  intro level array object nested
  obtain ⟨either, respelled, long⟩ := read_in_either_form
  let place : List (Option String × Json) := [(some "y", .integer 2), (some "x", .integer 1)]
  let values : List Json := [.integer 3, .object place]
  let others : List Json := [.integer 3, .array [.integer 1, .integer 2]]
  have written : Json.IsDocument (.array values) array := Json.read?_eq_some_iff.1 (by cbv)
  have written' : Json.IsDocument
      (.object [(some "start", .object place), (some "grid_size", .integer 3)]) object :=
    Json.read?_eq_some_iff.1 (by cbv)
  have written'' : Json.IsDocument (.array others) nested := Json.read?_eq_some_iff.1 (by cbv)
  have eight : Json.IsDocument (.array (List.replicate 8 (.integer 1))) "[1,1,1,1,1,1,1,1]" :=
    Json.read?_eq_some_iff.1 (by cbv)
  have found : read nested = .ok level := by
    rw [read_of_isDocument written'']
    rfl
  have same : read array = read nested :=
    respelled _ _ _ _ (.array (.cons (.same _) (.cons (.toArray (.swap _ _ _)) .nil))) written
      written''
  refine ⟨same.trans found, ?_, found, long _ _ (by decide) eight⟩
  obtain ⟨refused, -⟩ | ⟨read, array', object', -⟩ :=
    either values _ array object (by decide) (.swap _ _ _) written written'
  · rw [same, found] at refused
    cases refused
  · rw [object', ← array', same, found]

end Level

end Rocket
