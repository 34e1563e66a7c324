import Mathlib
import Rocket.Board.Picture
import Rocket.Proofs.Run.Safety

/-!
# What the drawn board shows

The drawing of a level that can be played has a row of characters for each row of cells, with
the cells at every other place. It shows where the rocket is, which way it faces and where the
target is, so that boards which look the same are the same.

## Implementation notes

A rocket on the target hides its mark. The target is then known from the absence of the mark,
since every other target is on the board and shows.
-/

namespace Rocket

/-! ## Marks -/

namespace Heading

theorem arrow_injective : Function.Injective arrow := by
  intro a b same
  cases a <;> cases b <;> first | rfl | cases same

/-- An arrow is none of the other characters of a board. -/
theorem arrow_notMem (h : Heading) : h.arrow ∉ ['*', '.', ' ', '\n'] := by
  cases h <;> decide

end Heading

namespace Position

/-- Whether a position is drawn at place `i` of row `y`. The places between two cells are
left out in counting columns. -/
def IsDrawnAt (p : Position) (y i : Nat) : Prop :=
  p.y.toInt = y ∧ 2 * p.x.toInt = i

/-- A position is drawn where its cell is. -/
theorem isDrawnAt_iff_isCell {p : Position} {x y : Nat} :
    p.IsDrawnAt y (2 * x) ↔ p.isCell x y = true := by
  rw [IsDrawnAt, isCell, decide_eq_true_iff]
  omega

/-- No position is drawn between two cells. -/
theorem not_isDrawnAt {p : Position} {x y : Nat} : ¬ p.IsDrawnAt y (2 * x + 1) := by
  rintro ⟨-, between⟩
  omega

/-- Where a position is drawn tells which one it is. -/
theorem IsDrawnAt.eq {p q : Position} {y i : Nat} (first : p.IsDrawnAt y i)
    (second : q.IsDrawnAt y i) : p = q := by
  obtain ⟨⟨py, px⟩, qy, qx⟩ := first, second
  have x : p.x = q.x := Int32.toInt_inj.1 (by omega)
  have y : p.y = q.y := Int32.toInt_inj.1 (py.trans qy.symm)
  cases p
  cases q
  exact congrArg₂ Position.mk x y

/-- A cell of the grid is drawn somewhere. -/
theorem exists_isDrawnAt {grid : Grid} {p : Position} (inside : grid.contains p = true) :
    ∃ y i, p.IsDrawnAt y i := by
  obtain ⟨⟨xLow, -⟩, yLow, -⟩ := Grid.contains_iff.1 inside
  refine ⟨p.y.toInt.toNat, 2 * p.x.toInt.toNat, ?_, ?_⟩ <;> omega

/-- A cell of the grid is in one of its columns and rows. -/
theorem lt_of_isCell {grid : Grid} {p : Position} {x y : Nat} (inside : grid.contains p = true)
    (here : p.isCell x y = true) : x < grid.size ∧ y < grid.size := by
  obtain ⟨⟨-, xHigh⟩, -, yHigh⟩ := Grid.contains_iff.1 inside
  obtain ⟨x', y'⟩ := of_decide_eq_true here
  omega

end Position

namespace World

variable {world : World} {agent : Agent} {x y : Nat}

theorem mark_eq_arrow_iff {h : Heading} :
    world.mark agent x y = h.arrow ↔ h = agent.heading ∧ agent.position.isCell x y = true := by
  have other := h.arrow_notMem
  unfold mark
  split
  next here => simp [here, Heading.arrow_injective.eq_iff, eq_comm]
  next away =>
    constructor
    · intro same
      split at same <;> exact absurd (by simp [← same]) other
    · rintro ⟨-, here⟩
      exact absurd here away

theorem mark_eq_star_iff :
    world.mark agent x y = '*' ↔
      agent.position.isCell x y = false ∧ world.target.isCell x y = true := by
  have other := agent.heading.arrow_notMem
  unfold mark
  split
  next here => simp_all
  next away => split <;> simp_all

theorem mark_eq_dot_iff :
    world.mark agent x y = '.' ↔
      agent.position.isCell x y = false ∧ world.target.isCell x y = false := by
  have other := agent.heading.arrow_notMem
  unfold mark
  split
  next here => simp_all
  next away => split <;> simp_all

/-- A cell is never drawn as what stands between cells or behind rows. -/
theorem mark_notMem (world : World) (agent : Agent) (x y : Nat) :
    world.mark agent x y ∉ [' ', '\n'] := by
  have other := agent.heading.arrow_notMem
  unfold mark
  split
  next here => simp_all
  next away => split <;> decide

/-! ## Rows -/

/-- Whether a character stands at place `i` of row `y`. -/
def Stands (rows : List (List Char)) (y i : Nat) (c : Char) : Prop :=
  ∃ row, rows[y]? = some row ∧ row[i]? = some c

/-- Whether some rows of characters show a rocket in a world: its arrow is at its place and
nowhere else, and no other arrow is; the mark of the target is at the place of the target and
nowhere else, unless the rocket is there; all other cells are empty, and blanks stand between
neighbours. -/
structure IsDrawnAs (world : World) (agent : Agent) (rows : List (List Char)) : Prop where
  height : rows.length = world.grid.size
  width : ∀ row ∈ rows, row.length = 2 * world.grid.size - 1
  newline : ∀ row ∈ rows, '\n' ∉ row
  arrow : ∀ h y i, Stands rows y i (Heading.arrow h) ↔
    h = agent.heading ∧ agent.position.IsDrawnAt y i
  star : ∀ y i, Stands rows y i '*' ↔
    world.target.IsDrawnAt y i ∧ world.isGoal agent = false
  dot : ∀ y i, Stands rows y i '.' ↔
    (∃ x, i = 2 * x ∧ x < world.grid.size ∧ y < world.grid.size) ∧
      ¬ agent.position.IsDrawnAt y i ∧ ¬ world.target.IsDrawnAt y i
  blank : ∀ y i, Stands rows y i ' ' ↔
    ∃ x, i = 2 * x + 1 ∧ x + 1 < world.grid.size ∧ y < world.grid.size

/-- The rows of the drawn board. -/
def rows (world : World) (agent : Agent) : List (List Char) :=
  (List.range world.grid.size).map (world.row agent)

theorem length_row (world : World) (agent : Agent) (y : Nat) :
    (world.row agent y).length = 2 * world.grid.size - 1 := by
  rw [row, List.length_intersperse, List.length_map, List.length_range]

/-- A character of a row is a cell or stands between two cells. -/
theorem getElem?_row_eq_some_iff {i : Nat} {c : Char} :
    (world.row agent y)[i]? = some c ↔
      (∃ x, i = 2 * x ∧ x < world.grid.size ∧ c = world.mark agent x y) ∨
        ∃ x, i = 2 * x + 1 ∧ x + 1 < world.grid.size ∧ c = ' ' := by
  rw [row]
  obtain ⟨x, rfl | rfl⟩ := Nat.even_or_odd' i
  · rw [List.getElem?_intersperse_two_mul, List.getElem?_map, Option.map_eq_some_iff]
    constructor
    · rintro ⟨x', found, rfl⟩
      obtain ⟨inside, rfl⟩ := List.getElem?_eq_some_iff.1 found
      rw [List.length_range] at inside
      exact .inl ⟨x, rfl, inside, by rw [List.getElem_range]⟩
    · rintro (⟨x', same, inside, rfl⟩ | ⟨x', odd, -⟩)
      · obtain rfl : x = x' := by omega
        exact ⟨x, List.getElem?_range inside, rfl⟩
      · omega
  · rw [List.getElem?_intersperse, if_neg (by omega), List.length_map, List.length_range]
    constructor
    · intro found
      split at found
      next inside => exact .inr ⟨x, rfl, by omega, (Option.some.inj found).symm⟩
      next => cases found
    · rintro (⟨x', even, -⟩ | ⟨x', same, inside, rfl⟩)
      · omega
      · exact if_pos (by omega)

theorem stands_rows_iff {i : Nat} {c : Char} :
    Stands (world.rows agent) y i c ↔
      y < world.grid.size ∧ (world.row agent y)[i]? = some c := by
  rw [Stands, rows]
  constructor
  · rintro ⟨row, there, found⟩
    rw [List.getElem?_map, Option.map_eq_some_iff] at there
    obtain ⟨y', number, rfl⟩ := there
    obtain ⟨inside, rfl⟩ := List.getElem?_eq_some_iff.1 number
    rw [List.length_range] at inside
    rw [List.getElem_range] at found
    exact ⟨inside, found⟩
  · rintro ⟨inside, found⟩
    exact ⟨_, by rw [List.getElem?_map, List.getElem?_range inside]; rfl, found⟩

/-- At the place of a cell stands its mark. -/
theorem stands_cell_iff {c : Char} :
    Stands (world.rows agent) y (2 * x) c ↔
      x < world.grid.size ∧ y < world.grid.size ∧ c = world.mark agent x y := by
  rw [stands_rows_iff, getElem?_row_eq_some_iff]
  constructor
  · rintro ⟨row, ⟨x', same, inside, mark⟩ | ⟨x', odd, -⟩⟩
    · obtain rfl : x = x' := by omega
      exact ⟨inside, row, mark⟩
    · omega
  · rintro ⟨inside, row, mark⟩
    exact ⟨row, .inl ⟨x, rfl, inside, mark⟩⟩

/-- Between two cells stands a blank. -/
theorem stands_gap_iff {c : Char} :
    Stands (world.rows agent) y (2 * x + 1) c ↔
      x + 1 < world.grid.size ∧ y < world.grid.size ∧ c = ' ' := by
  rw [stands_rows_iff, getElem?_row_eq_some_iff]
  constructor
  · rintro ⟨row, ⟨x', even, -⟩ | ⟨x', same, inside, blank⟩⟩
    · omega
    · obtain rfl : x = x' := by omega
      exact ⟨inside, row, blank⟩
  · rintro ⟨inside, row, blank⟩
    exact ⟨row, .inr ⟨x, rfl, inside, blank⟩⟩

/-- The arrow is where the rocket is. -/
theorem stands_arrow_iff (aboard : world.grid.contains agent.position = true) (h : Heading)
    (i : Nat) :
    Stands (world.rows agent) y i h.arrow ↔
      h = agent.heading ∧ agent.position.IsDrawnAt y i := by
  obtain ⟨x, rfl | rfl⟩ := Nat.even_or_odd' i
  · rw [stands_cell_iff, eq_comm, mark_eq_arrow_iff, Position.isDrawnAt_iff_isCell]
    constructor
    · exact fun ⟨_, _, drawn⟩ => drawn
    · intro drawn
      obtain ⟨column, row⟩ := Position.lt_of_isCell aboard drawn.2
      exact ⟨column, row, drawn⟩
  · rw [stands_gap_iff]
    constructor
    · rintro ⟨-, -, blank⟩
      exact absurd (by simp [blank]) h.arrow_notMem
    · exact fun drawn => absurd drawn.2 Position.not_isDrawnAt

/-- The mark of the target is where the target is, unless the rocket is there. -/
theorem stands_star_iff (reachable : world.grid.contains world.target = true) (i : Nat) :
    Stands (world.rows agent) y i '*' ↔
      world.target.IsDrawnAt y i ∧ world.isGoal agent = false := by
  rw [isGoal, decide_eq_false_iff_not]
  obtain ⟨x, rfl | rfl⟩ := Nat.even_or_odd' i
  · rw [stands_cell_iff, eq_comm, mark_eq_star_iff, Position.isDrawnAt_iff_isCell]
    constructor
    · rintro ⟨-, -, away, here⟩
      refine ⟨here, fun same => ?_⟩
      rw [same, here] at away
      cases away
    · rintro ⟨here, other⟩
      obtain ⟨column, row⟩ := Position.lt_of_isCell reachable here
      refine ⟨column, row, Bool.eq_false_iff.2 fun covers => other ?_, here⟩
      exact (Position.isDrawnAt_iff_isCell.2 covers).eq (Position.isDrawnAt_iff_isCell.2 here)
  · rw [stands_gap_iff]
    constructor
    · rintro ⟨-, -, ⟨⟩⟩
    · exact fun drawn => absurd drawn.1 Position.not_isDrawnAt

/-- All other cells are empty. -/
theorem stands_dot_iff (i : Nat) :
    Stands (world.rows agent) y i '.' ↔
      (∃ x, i = 2 * x ∧ x < world.grid.size ∧ y < world.grid.size) ∧
        ¬ agent.position.IsDrawnAt y i ∧ ¬ world.target.IsDrawnAt y i := by
  obtain ⟨x, rfl | rfl⟩ := Nat.even_or_odd' i
  · rw [stands_cell_iff, eq_comm, mark_eq_dot_iff, Position.isDrawnAt_iff_isCell,
      Position.isDrawnAt_iff_isCell, Bool.not_eq_true, Bool.not_eq_true]
    constructor
    · rintro ⟨column, row, empty⟩
      exact ⟨⟨x, rfl, column, row⟩, empty⟩
    · rintro ⟨⟨x', same, column, row⟩, empty⟩
      obtain rfl : x = x' := by omega
      exact ⟨column, row, empty⟩
  · rw [stands_gap_iff]
    constructor
    · rintro ⟨-, -, ⟨⟩⟩
    · rintro ⟨⟨x', even, -⟩, -⟩
      omega

/-- Blanks stand between neighbours. -/
theorem stands_blank_iff (i : Nat) :
    Stands (world.rows agent) y i ' ' ↔
      ∃ x, i = 2 * x + 1 ∧ x + 1 < world.grid.size ∧ y < world.grid.size := by
  obtain ⟨x, rfl | rfl⟩ := Nat.even_or_odd' i
  · rw [stands_cell_iff]
    constructor
    · rintro ⟨-, -, mark⟩
      exact absurd (by simp [← mark]) (world.mark_notMem agent x y)
    · rintro ⟨x', odd, -⟩
      omega
  · rw [stands_gap_iff]
    constructor
    · rintro ⟨column, row, -⟩
      exact ⟨x, rfl, column, row⟩
    · rintro ⟨x', same, column, row⟩
      obtain rfl : x = x' := by omega
      exact ⟨column, row, rfl⟩

/-- The rows of the board show the rocket and the target. -/
theorem isDrawnAs_rows (aboard : world.grid.contains agent.position = true)
    (reachable : world.grid.contains world.target = true) :
    world.IsDrawnAs agent (world.rows agent) where
  height := by rw [rows, List.length_map, List.length_range]
  width := by
    intro row member
    obtain ⟨y, -, rfl⟩ := List.mem_map.1 member
    exact world.length_row agent y
  newline := by
    intro row member inside
    obtain ⟨y, -, rfl⟩ := List.mem_map.1 member
    obtain ⟨i, found⟩ := List.mem_iff_getElem?.1 inside
    obtain ⟨x, -, -, mark⟩ | ⟨x, -, -, ⟨⟩⟩ := getElem?_row_eq_some_iff.1 found
    exact world.mark_notMem agent x y (by rw [← mark]; decide)
  arrow := fun h _ i => stands_arrow_iff aboard h i
  star := fun _ i => stands_star_iff reachable i
  dot := fun _ i => stands_dot_iff i
  blank := fun _ i => stands_blank_iff i

/-! ## Boards -/

/-- Rows without newlines can be told apart again when each is ended by a newline. -/
theorem eq_of_ended_eq {rows others : List (List Char)} (inner : ∀ row ∈ rows, '\n' ∉ row)
    (inner' : ∀ row ∈ others, '\n' ∉ row)
    (same : rows.flatMap (· ++ ['\n']) = others.flatMap (· ++ ['\n'])) : rows = others := by
  have split : ∀ rows : List (List Char), (∀ row ∈ rows, '\n' ∉ row) →
      (rows.flatMap (· ++ ['\n'])).splitOn '\n' = rows ++ [[]] := by
    intro rows inner
    induction rows with
    | nil => rfl
    | cons row rows ih =>
        rw [List.forall_mem_cons] at inner
        rw [List.flatMap_cons, List.append_assoc, List.singleton_append,
          List.splitOn_append_cons_self, List.splitOn_eq_singleton inner.1, ih inner.2]
        rfl
  have both := congrArg (List.splitOn '\n') same
  rw [split rows inner, split others inner'] at both
  exact List.append_cancel_right both

/-- The text of a board is its rows, one by one. -/
theorem toList_picture (small : world.grid.size ≤ Level.maxGridSize) (agent : Agent) :
    (world.picture agent).toList = (world.rows agent).flatMap (· ++ ['\n']) := by
  have drawn : world.grid.size < undrawnSize := Nat.lt_of_le_of_lt small (by decide)
  rw [picture, String.toList_ofList, pictureChars, if_pos drawn, rows, List.flatMap_map]

/-- What is drawn is in the text of the board. -/
theorem exists_stands_iff {rows : List (List Char)} {c : Char} (solid : c ≠ '\n') :
    c ∈ rows.flatMap (· ++ ['\n']) ↔ ∃ y i, Stands rows y i c := by
  rw [List.mem_flatMap]
  constructor
  · rintro ⟨row, member, inside⟩
    obtain ⟨y, there⟩ := List.mem_iff_getElem?.1 member
    obtain inRow | newline := List.mem_append.1 inside
    · obtain ⟨i, found⟩ := List.mem_iff_getElem?.1 inRow
      exact ⟨y, i, row, there, found⟩
    · exact absurd (List.mem_singleton.1 newline) solid
  · rintro ⟨y, i, row, there, found⟩
    exact ⟨row, List.mem_of_getElem? there, List.mem_append_left _ (List.mem_of_getElem? found)⟩

/-- The target has been reached if its mark is not drawn. -/
theorem IsDrawnAs.isGoal_iff {rows : List (List Char)} (drawn : world.IsDrawnAs agent rows)
    (reachable : world.grid.contains world.target = true) :
    world.isGoal agent = true ↔ ∀ y i, ¬ Stands rows y i '*' := by
  constructor
  · intro reached y i star
    rw [((drawn.star y i).1 star).2] at reached
    cases reached
  · intro none
    obtain ⟨y, i, here⟩ := Position.exists_isDrawnAt reachable
    by_contra missed
    exact none y i ((drawn.star y i).2 ⟨here, Bool.eq_false_iff.2 missed⟩)

/-- Rows that show a rocket in one world and in another show the same. -/
theorem IsDrawnAs.unique {other : World} {agent' : Agent} {rows : List (List Char)}
    (drawn : world.IsDrawnAs agent rows) (drawn' : other.IsDrawnAs agent' rows)
    (aboard : world.grid.contains agent.position = true)
    (reachable : world.grid.contains world.target = true)
    (reachable' : other.grid.contains other.target = true) :
    world.grid = other.grid ∧ agent = agent' ∧ world.target = other.target := by
  have grid : world.grid = other.grid :=
    congrArg Grid.mk (drawn.height.symm.trans drawn'.height)
  have same : agent = agent' := by
    obtain ⟨y, i, here⟩ := Position.exists_isDrawnAt aboard
    obtain ⟨heading, here'⟩ := (drawn'.arrow _ y i).1 ((drawn.arrow _ y i).2 ⟨rfl, here⟩)
    cases agent
    cases agent'
    exact congrArg₂ Agent.mk (here.eq here') heading
  refine ⟨grid, same, ?_⟩
  by_cases reached : world.isGoal agent = true
  · have reached' := reached
    rw [drawn.isGoal_iff reachable, ← drawn'.isGoal_iff reachable'] at reached'
    calc world.target
        = agent.position := (World.isGoal_iff.1 reached).symm
      _ = agent'.position := by rw [same]
      _ = other.target := World.isGoal_iff.1 reached'
  · obtain ⟨y, i, here⟩ := Position.exists_isDrawnAt reachable
    have star := (drawn.star y i).2 ⟨here, Bool.eq_false_iff.2 reached⟩
    exact here.eq ((drawn'.star y i).1 star).1

/-- The board of a level that can be played shows the game: its rows show the rocket and the
target, the target has been reached if and only if its mark is missing, and boards that look
the same are boards of the same size, with the rocket and the target at the same places. -/
theorem picture_shows_game :
    (∀ (level : Level) world agent, level.world = .ok world →
        world.grid.contains agent.position = true →
          (∃ rows, world.IsDrawnAs agent rows ∧
            (world.picture agent).toList = rows.flatMap (· ++ ['\n'])) ∧
          (world.isGoal agent = true ↔ '*' ∉ (world.picture agent).toList)) ∧
      ∀ (first second : Level) world other agent agent', first.world = .ok world →
        second.world = .ok other → world.grid.contains agent.position = true →
          other.grid.contains agent'.position = true →
            world.picture agent = other.picture agent' →
              world.grid = other.grid ∧ agent = agent' ∧ world.target = other.target := by
  constructor
  · intro level world agent valid aboard
    obtain ⟨playable, -⟩ := Level.of_world_eq_ok valid
    have drawn := isDrawnAs_rows aboard playable.target
    have text := toList_picture playable.size agent
    refine ⟨⟨world.rows agent, drawn, text⟩, ?_⟩
    rw [drawn.isGoal_iff playable.target, text, exists_stands_iff (by decide)]
    push Not
    rfl
  · intro first second world other agent agent' valid valid' aboard aboard' same
    obtain ⟨playable, -⟩ := Level.of_world_eq_ok valid
    obtain ⟨playable', -⟩ := Level.of_world_eq_ok valid'
    have drawn := isDrawnAs_rows aboard playable.target
    have drawn' := isDrawnAs_rows aboard' playable'.target
    have texts := congrArg String.toList same
    rw [toList_picture playable.size, toList_picture playable'.size] at texts
    have rows := eq_of_ended_eq drawn.newline drawn'.newline texts
    rw [← rows] at drawn'
    exact drawn.unique drawn' aboard playable.target playable'.target

/-- The rocket on the target of the reference level, and a level that differs from it only in
where the rocket starts and how far it may go. -/
theorem picture_shows_game_reference :
    let level : Level := { Level.reference with start := ⟨2, 2⟩, maxSteps := 7 }
    let other : World := { World.reference with start := ⟨⟨2, 2⟩, .up⟩, maxSteps := 7 }
    let agent : Agent := ⟨⟨5, 0⟩, .left⟩
    Level.reference.world = .ok .reference ∧ level.world = .ok other ∧
      World.reference.grid.contains agent.position = true ∧
      other.grid.contains agent.position = true ∧
      World.reference.picture agent = other.picture agent ∧
      '*' ∉ (World.reference.picture agent).toList ∧ World.reference.target = other.target := by
  intro level other agent
  obtain ⟨shows, unique⟩ := picture_shows_game
  have valid : Level.reference.world = .ok .reference := rfl
  have valid' : level.world = .ok other := rfl
  have aboard : World.reference.grid.contains agent.position = true := rfl
  obtain ⟨-, reached⟩ := shows Level.reference .reference agent valid aboard
  obtain ⟨-, -, target⟩ :=
    unique Level.reference level .reference other agent agent valid valid' aboard rfl rfl
  exact ⟨valid, valid', aboard, rfl, rfl, reached.1 rfl, target⟩

end World

end Rocket
