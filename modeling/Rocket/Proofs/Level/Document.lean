import Mathlib
import Rocket.Encoding.Board
import Rocket.Proofs.Json.Exact

/-!
# Documents of levels

Reading a document that writes a level finds the level, however the document is laid out.
A document that has a member twice, or more than an object, is refused.

## Implementation notes

A document is taken apart into its members by the grammar of JSON. What is left to say of
them is which values there are under a name, and in this the order of the members and what
is there under other names do not show.
-/

namespace Rocket

open Level (valuesOf member?)

/-- Whether an object has some members: each of their keys once, with the same value. It may
have others. -/
structure Json.Extends (members : List (Option String × Json)) (known : List (String × Json)) :
    Prop where
  readable : ∀ member ∈ members, member.1.isSome = true
  known : ∀ p ∈ known, valuesOf members p.1 = [p.2]

/-- Whether a value conveys what another one does: it is the same, or an object that has the
other's members. -/
inductive Json.Conveys : Json → Json → Prop where
  | same (value : Json) : Conveys value value
  | object {members : List (Option String × Json)} {known : List (String × Json)}
      (h : Json.Extends members known) : Conveys (.object members) (.ofMembers known)

theorem Json.ofMembers_injective : Function.Injective Json.ofMembers := by
  intro first second same
  refine List.map_injective_iff.2 ?_ (Json.object.inj same)
  rintro ⟨key, value⟩ ⟨key', value'⟩ same
  obtain ⟨⟨⟩, ⟨⟩⟩ := same
  rfl

namespace Level

/-- The members of a level's document. -/
def members (level : Level) : List (String × Json) :=
  [("grid_size", .ofNat level.gridSize.toNat),
    ("start", level.start.toJson),
    ("start_heading", level.startHeading.toJson),
    ("target", level.target.toJson),
    ("step_delay_ms", .ofNat level.stepDelay.toNat),
    ("max_steps", .ofNat level.maxSteps.toNat),
    ("parse_mode", .ofText (modeName level.mode))]

theorem toJson_eq (level : Level) : level.toJson = .ofMembers level.members := rfl

/-- Whether some members write a level. Of the level's own members, each is there once, with
a value that conveys what its value does, or is left out and is that of the reference level. -/
structure IsWrittenBy (level : Level) (members : List (Option String × Json)) : Prop where
  readable : ∀ member ∈ members, member.1.isSome = true
  known : ∀ p ∈ level.members,
    (∃ value, valuesOf members p.1 = [value] ∧ value.Conveys p.2) ∨
      valuesOf members p.1 = [] ∧ p ∈ reference.members

/-- Whether one of some names is there twice. -/
def Repeats (members : List (Option String × Json)) (names : List String) : Prop :=
  ∃ name ∈ names, 1 < (valuesOf members name).length

variable {members : List (Option String × Json)} {name : String} {level : Level}

section Members

variable {α : Type} {decode : Json → Option α} {absent : Option α} {a : α}

theorem member?_of_values {value : Json} (values : valuesOf members name = [value]) :
    member? members name decode absent = decode value := by
  rw [member?, values]

theorem member?_of_nil (values : valuesOf members name = []) :
    member? members name decode absent = absent := by
  rw [member?, values]

theorem length_values_of_member? (h : member? members name decode absent = some a) :
    (valuesOf members name).length ≤ 1 := by
  unfold member? at h
  split at h
  next values => rw [values]; exact Nat.zero_le 1
  next values => rw [values]; exact Nat.le_refl 1
  next => cases h

/-- A member is found that is written, or left out where it may be. -/
theorem member?_of_conveys {encode : α → Json} {default : α}
    (decodes : ∀ a value, value.Conveys (encode a) → decode value = some a)
    (known : (∃ value, valuesOf members name = [value] ∧ value.Conveys (encode a)) ∨
      valuesOf members name = [] ∧ encode a = encode default) :
    member? members name decode (some default) = some a := by
  obtain ⟨value, values, conveys⟩ | ⟨none, same⟩ := known
  · rw [member?_of_values values, decodes a value conveys]
  · rw [member?_of_nil none, ← decodes default _ (.same _), ← same, decodes a _ (.same _)]

end Members

/-! ## Values -/

theorem keysReadable_eq_true_iff :
    keysReadable members = true ↔ ∀ member ∈ members, member.1.isSome = true :=
  List.all_eq_true

theorem intIn?_of_mem {low high n : Int} (above : low ≤ n) (below : n ≤ high) :
    (Json.integer n).intIn? low high = some n :=
  if_pos ⟨above, below⟩

theorem word32?_of_conveys (n : UInt32) (value : Json) (conveys : value.Conveys (.ofNat n.toNat)) :
    word32? value = some n := by
  cases conveys
  have below : (n.toNat : Int) ≤ UInt32.size - 1 := Int.le_sub_one_of_lt (mod_cast n.toNat_lt)
  rw [word32?, Json.ofNat, intIn?_of_mem (Int.natCast_nonneg _) below, Option.map_some,
    Int.toNat_natCast, UInt32.ofNat_toNat]

theorem word64?_of_conveys (n : UInt64) (value : Json) (conveys : value.Conveys (.ofNat n.toNat)) :
    word64? value = some n := by
  cases conveys
  have below : (n.toNat : Int) ≤ UInt64.size - 1 := Int.le_sub_one_of_lt (mod_cast n.toNat_lt)
  rw [word64?, Json.ofNat, intIn?_of_mem (Int.natCast_nonneg _) below, Option.map_some,
    Int.toNat_natCast, UInt64.ofNat_toNat]

theorem coordinate?_toInt (n : Int32) : coordinate? (.integer n.toInt) = some n := by
  rw [coordinate?, intIn?_of_mem n.minValue_le_toInt n.toInt_le, Option.map_some,
    Int32.ofInt_toInt]

theorem heading?_of_conveys (h : Heading) (value : Json) (conveys : value.Conveys h.toJson) :
    heading? value = some h := by
  cases conveys
  cases h <;> rfl

theorem mode?_of_conveys (mode : Mode) (value : Json)
    (conveys : value.Conveys (.ofText (modeName mode))) : mode? value = some mode := by
  cases conveys
  cases mode <;> rfl

/-- A position is read off an object that has its coordinates. -/
theorem position?_of_extends {p : Position}
    (h : Json.Extends members [("x", .integer p.x.toInt), ("y", .integer p.y.toInt)]) :
    position? (.object members) = some p := by
  obtain ⟨x, y, -⟩ := List.forall_mem_cons.1 h.known |>.imp_right List.forall_mem_cons.1
  rw [position?, if_pos (keysReadable_eq_true_iff.2 h.readable), member?_of_values x,
    member?_of_values y, coordinate?_toInt, coordinate?_toInt]
  rfl

theorem position?_of_conveys (p : Position) (value : Json) (conveys : value.Conveys p.toJson) :
    position? value = some p := by
  generalize same : p.toJson = written at conveys
  cases conveys with
  | same value =>
      subst same
      exact position?_of_extends ⟨by simp, by simp [valuesOf]⟩
  | @object members known h =>
      obtain rfl := Json.ofMembers_injective same
      exact position?_of_extends h

/-! ## Levels -/

/-- A level is read if each of its parts is. -/
theorem ofParts?_eq_some_iff
    {part : {α : Type} → String → Nat → (Json → Option α) → α → Option α} :
    ofParts? part = some level ↔
      part "grid_size" 0 word32? reference.gridSize = some level.gridSize ∧
        part "start" 1 position? reference.start = some level.start ∧
        part "start_heading" 2 heading? reference.startHeading = some level.startHeading ∧
        part "target" 3 position? reference.target = some level.target ∧
        part "step_delay_ms" 4 word64? reference.stepDelay = some level.stepDelay ∧
        part "max_steps" 5 word64? reference.maxSteps = some level.maxSteps ∧
        part "parse_mode" 6 mode? reference.mode = some level.mode := by
  obtain ⟨gridSize, start, startHeading, target, stepDelay, maxSteps, mode⟩ := level
  simp only [ofParts?, Option.bind_eq_bind, Option.bind_eq_some_iff, Option.pure_def,
    Option.some.injEq, Level.mk.injEq]
  constructor
  · rintro ⟨_, g, _, s, _, h, _, t, _, d, _, b, _, m, rfl, rfl, rfl, rfl, rfl, rfl, rfl⟩
    exact ⟨g, s, h, t, d, b, m⟩
  · rintro ⟨g, s, h, t, d, b, m⟩
    exact ⟨_, g, _, s, _, h, _, t, _, d, _, b, _, m, rfl, rfl, rfl, rfl, rfl, rfl, rfl⟩

/-- A level is read off an object if each of its parts is read off the object's members. -/
theorem ofJson?_object_eq_some_iff :
    ofJson? (.object members) = some level ↔
      keysReadable members = true ∧
        member? members "grid_size" word32? (some reference.gridSize) = some level.gridSize ∧
        member? members "start" position? (some reference.start) = some level.start ∧
        member? members "start_heading" heading? (some reference.startHeading) =
          some level.startHeading ∧
        member? members "target" position? (some reference.target) = some level.target ∧
        member? members "step_delay_ms" word64? (some reference.stepDelay) =
          some level.stepDelay ∧
        member? members "max_steps" word64? (some reference.maxSteps) = some level.maxSteps ∧
        member? members "parse_mode" mode? (some reference.mode) = some level.mode := by
  rw [ofJson?]
  split
  next readable => rw [ofParts?_eq_some_iff, and_iff_right readable]
  next unreadable => simp [unreadable]

/-- Each member of the reference level is there once. -/
theorem eq_of_mem_reference {value default : Json} (first : (name, value) ∈ reference.members)
    (second : (name, default) ∈ reference.members) : value = default := by
  have nodup : (reference.members.map Prod.fst).Nodup := by decide
  exact (Prod.mk.inj (List.inj_on_of_nodup_map nodup first second rfl)).2

/-- A level is read off the members that write it. -/
theorem ofJson?_of_isWrittenBy (h : level.IsWrittenBy members) :
    ofJson? (.object members) = some level := by
  have known : ∀ (i : Nat) {name value default}, level.members[i]? = some (name, value) →
      reference.members[i]? = some (name, default) →
        (∃ value', valuesOf members name = [value'] ∧ value'.Conveys value) ∨
          valuesOf members name = [] ∧ value = default := by
    intro i name value default mine theirs
    obtain written | ⟨none, same⟩ := h.known _ (List.mem_of_getElem? mine)
    · exact .inl written
    · exact .inr ⟨none, eq_of_mem_reference same (List.mem_of_getElem? theirs)⟩
  rw [ofJson?_object_eq_some_iff]
  exact ⟨keysReadable_eq_true_iff.2 h.readable,
    member?_of_conveys word32?_of_conveys (known 0 rfl rfl),
    member?_of_conveys position?_of_conveys (known 1 rfl rfl),
    member?_of_conveys heading?_of_conveys (known 2 rfl rfl),
    member?_of_conveys position?_of_conveys (known 3 rfl rfl),
    member?_of_conveys word64?_of_conveys (known 4 rfl rfl),
    member?_of_conveys word64?_of_conveys (known 5 rfl rfl),
    member?_of_conveys mode?_of_conveys (known 6 rfl rfl)⟩

/-- The members that a level is encoded with write it. -/
theorem isWrittenBy_members (level : Level) :
    level.IsWrittenBy (level.members.map fun (key, value) => (some key, value)) where
  readable := List.forall_mem_map.2 fun _ _ => rfl
  known := by
    simp only [Level.members, List.forall_mem_cons]
    exact ⟨.inl ⟨_, rfl, .same _⟩, .inl ⟨_, rfl, .same _⟩, .inl ⟨_, rfl, .same _⟩,
      .inl ⟨_, rfl, .same _⟩, .inl ⟨_, rfl, .same _⟩, .inl ⟨_, rfl, .same _⟩,
      .inl ⟨_, rfl, .same _⟩, List.forall_mem_nil _⟩

/-- Decoding undoes encoding. -/
theorem ofJson?_toJson (level : Level) : ofJson? level.toJson = some level := by
  rw [toJson_eq]
  exact ofJson?_of_isWrittenBy level.isWrittenBy_members

/-! ## Repetitions -/

/-- A level is not read off an object that has one of its members twice. -/
theorem ofJson?_of_repeats (h : Repeats members memberNames) :
    ofJson? (.object members) = none := by
  refine Option.eq_none_iff_forall_ne_some.2 fun level read => ?_
  obtain ⟨-, gridSize, start, heading, target, delay, budget, mode⟩ :=
    ofJson?_object_eq_some_iff.1 read
  have single : ∀ name ∈ memberNames, (valuesOf members name).length ≤ 1 := by
    simp only [memberNames, List.forall_mem_cons]
    exact ⟨length_values_of_member? gridSize, length_values_of_member? start,
      length_values_of_member? heading, length_values_of_member? target,
      length_values_of_member? delay, length_values_of_member? budget,
      length_values_of_member? mode, List.forall_mem_nil _⟩
  obtain ⟨name, known, twice⟩ := h
  exact Nat.not_lt.2 (single name known) twice

/-- A position is not read off an object that has one of its coordinates twice. -/
theorem position?_of_repeats (h : Repeats members ["x", "y"]) :
    position? (.object members) = none := by
  refine Option.eq_none_iff_forall_ne_some.2 fun p read => ?_
  rw [position?] at read
  split at read
  next =>
    obtain ⟨x, foundX, rest⟩ := Option.bind_eq_some_iff.1 read
    obtain ⟨y, foundY, -⟩ := Option.bind_eq_some_iff.1 rest
    have single : ∀ name ∈ ["x", "y"], (valuesOf members name).length ≤ 1 := by
      simp only [List.forall_mem_cons]
      exact ⟨length_values_of_member? foundX, length_values_of_member? foundY,
        List.forall_mem_nil _⟩
    obtain ⟨name, known, twice⟩ := h
    exact Nat.not_lt.2 (single name known) twice
  next => cases read

/-- Whether some members have one of a level's twice, or a position that has one of its
coordinates twice. -/
def IsRepetitive (members : List (Option String × Json)) : Prop :=
  Repeats members memberNames ∨ ∃ name ∈ ["start", "target"], ∃ inner,
    .object inner ∈ valuesOf members name ∧ Repeats inner ["x", "y"]

/-- If a position is read under a name, none of those there has a coordinate twice. -/
theorem not_repeats_of_member? {absent : Option Position} {p : Position}
    (h : member? members name position? absent = some p) {inner : List (Option String × Json)}
    (there : .object inner ∈ valuesOf members name) : ¬ Repeats inner ["x", "y"] := by
  intro repeated
  unfold member? at h
  split at h
  next values => rw [values] at there; cases there
  next value values =>
    rw [values, List.mem_singleton] at there
    rw [← there, position?_of_repeats repeated] at h
    cases h
  next => cases h

theorem ofJson?_of_isRepetitive (h : IsRepetitive members) : ofJson? (.object members) = none := by
  obtain repeated | ⟨name, known, inner, there, repeated⟩ := h
  · exact ofJson?_of_repeats repeated
  · refine Option.eq_none_iff_forall_ne_some.2 fun level read => ?_
    obtain ⟨-, -, start, -, target, -⟩ := ofJson?_object_eq_some_iff.1 read
    obtain rfl | rfl : name = "start" ∨ name = "target" := by simpa using known
    · exact not_repeats_of_member? start there repeated
    · exact not_repeats_of_member? target there repeated

/-! ## Documents -/

/-- Reading undoes writing, whatever the layout: every document of an object that writes a
level is read as this level. If the object has a member of a level twice, or there is more
in the document than the object, no level is read. -/
theorem read_undoes_writing :
    (∀ (level : Level) members document, level.IsWrittenBy members →
        Json.IsDocument (.object members) document → read document = .ok level) ∧
      (∀ members document, Json.IsDocument (.object members) document → IsRepetitive members →
        read document = .error .notALevel) ∧
      ∀ members document more, Json.IsDocument (.object members) document →
        ¬ Json.IsBlank more.toList → read (document ++ more) = .error .notALevel := by
  refine ⟨?_, ?_, ?_⟩
  · intro level members document writes written
    rw [read, Json.read?_eq_some_iff.2 written, Option.bind_some, ofJson?_of_isWrittenBy writes]
  · intro members document written repetitive
    rw [read, Json.read?_eq_some_iff.2 written, Option.bind_some,
      ofJson?_of_isRepetitive repetitive]
  · intro members document more written solid
    rw [read, Json.read?_append written rfl solid, Option.bind_none]

/-- A level with an unknown member and an escape in its document, a document that gives a
coordinate twice, and one that goes on behind its object. -/
theorem read_undoes_writing_reference :
    let level : Level := { reference with start := ⟨-1, 2⟩ }
    let document :=
      "\x7b\"z\":[1e3,\x7b\"\\u007d\":null\x7d],\n\"start\":\x7b\"y\":2,\"x\":-1\x7d\x7d "
    let twice := "\x7b\"start\":\x7b\"x\":1,\"y\":2,\"x\":1\x7d\x7d"
    (∃ members, level.IsWrittenBy members ∧ Json.IsDocument (.object members) document ∧
        read document = .ok level) ∧
      (∃ members, Json.IsDocument (.object members) twice ∧ IsRepetitive members ∧
        read twice = .error .notALevel) ∧
      Json.IsDocument (.object []) "\x7b\x7d" ∧ ¬ Json.IsBlank " 0".toList ∧
        read ("\x7b\x7d" ++ " 0") = .error .notALevel := by
  intro level document twice
  obtain ⟨undoes, repeated, behind⟩ := read_undoes_writing
  let other : Json := .array [.decimal "1e3", .object [(some "\x7d", .null)]]
  let start : List (Option String × Json) := [(some "y", .integer 2), (some "x", .integer (-1))]
  have writes : level.IsWrittenBy [(some "z", other), (some "start", .object start)] := by
    have place : Json.Extends start [("x", .integer (-1)), ("y", .integer 2)] :=
      ⟨by simp [start], by simp [start, valuesOf]⟩
    refine ⟨by simp, ?_⟩
    simp only [Level.members, List.forall_mem_cons]
    exact ⟨.inr ⟨rfl, by simp [level]⟩, .inl ⟨.object start, rfl, .object place⟩,
      .inr ⟨rfl, by simp [level]⟩, .inr ⟨rfl, by simp [level]⟩, .inr ⟨rfl, by simp [level]⟩,
      .inr ⟨rfl, by simp [level]⟩, .inr ⟨rfl, by simp [level]⟩, List.forall_mem_nil _⟩
  have written : Json.IsDocument (.object [(some "z", other), (some "start", .object start)])
      document := Json.read?_eq_some_iff.1 (by cbv)
  let place : List (Option String × Json) :=
    [(some "x", .integer 1), (some "y", .integer 2), (some "x", .integer 1)]
  have repetitive : IsRepetitive [(some "start", .object place)] :=
    .inr ⟨"start", .head _, place, .head _, "x", .head _, by decide⟩
  have writtenTwice : Json.IsDocument (.object [(some "start", .object place)]) twice :=
    Json.read?_eq_some_iff.1 (by cbv)
  have empty : Json.IsDocument (.object []) "\x7b\x7d" := Json.read?_eq_some_iff.1 (by cbv)
  have solid : ¬ Json.IsBlank " 0".toList := by
    intro blank
    exact absurd (blank '0' (by decide)) (by decide)
  exact ⟨⟨_, writes, written, undoes level _ _ writes written⟩,
    ⟨_, writtenTwice, repetitive, repeated _ _ writtenTwice repetitive⟩,
    empty, solid, behind [] _ _ empty solid⟩

end Level

end Rocket
