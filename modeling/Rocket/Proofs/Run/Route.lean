import Rocket.Proofs.Run.Distance
import Rocket.Proofs.Run.Record

/-!
# Routes

From any cell of a board there is a way to any other that stays on the board: across to the
column of that cell, and then along the column. It takes as many moves as the cells are
apart and three turns at most.

## Implementation notes

Both legs of the way turn to a heading and then repeat a move. Every cell of a leg is between
its ends, which are on the board.
-/

namespace Rocket

namespace Heading

/-- The quarter turns from one heading to another. -/
def turnsTo (heading goal : Heading) : List Turn :=
  match (goal.ordinal + 4 - heading.ordinal) % 4 with
  | 0 => []
  | 1 => [.right]
  | 2 => [.right, .right]
  | _ => [.left]

theorem foldl_turnsTo (heading goal : Heading) :
    (heading.turnsTo goal).foldl turned heading = goal := by
  cases heading <;> cases goal <;> rfl

theorem length_turnsTo_le (heading goal : Heading) : (heading.turnsTo goal).length ≤ 2 := by
  cases heading <;> cases goal <;> decide

/-- The heading across, from one column to another. -/
def across (start stop : Int32) : Heading :=
  if start.toInt ≤ stop.toInt then .right else .left

/-- The heading along a column, from one row to another. -/
def along (start stop : Int32) : Heading :=
  if start.toInt ≤ stop.toInt then .down else .up

/-- Between rows and columns there is one quarter turn. -/
theorem length_turnsTo_along (a b c d : Int32) :
    ((across a b).turnsTo (along c d)).length = 1 := by
  unfold across along
  split <;> split <;> rfl

theorem delta_across (start stop : Int32) :
    (across start stop).delta.2.toInt = 0 ∧ stop.toInt = start.toInt
      + (stop.toInt - start.toInt).natAbs * (across start stop).delta.1.toInt := by
  unfold across
  split
  next right =>
    refine ⟨rfl, ?_⟩
    rw [show (delta .right).1.toInt = 1 from rfl]
    omega
  next left =>
    refine ⟨rfl, ?_⟩
    rw [show (delta .left).1.toInt = -1 from rfl]
    omega

theorem delta_along (start stop : Int32) :
    (along start stop).delta.1.toInt = 0 ∧ stop.toInt = start.toInt
      + (stop.toInt - start.toInt).natAbs * (along start stop).delta.2.toInt := by
  unfold along
  split
  next down =>
    refine ⟨rfl, ?_⟩
    rw [show (delta .down).2.toInt = 1 from rfl]
    omega
  next up =>
    refine ⟨rfl, ?_⟩
    rw [show (delta .up).2.toInt = -1 from rfl]
    omega

end Heading

/-! ## Ways on a board -/

namespace Grid

/-- Whether some actions lead from one state of the rocket to another without leaving the
board. -/
inductive Leads (grid : Grid) : Agent → List Primitive → Agent → Prop
  | rest (agent : Agent) : Leads grid agent [] agent
  | move {position : Position} {heading : Heading} {rest : List Primitive} {last : Agent}
      (free : grid.contains (position.step heading) = true)
      (others : Leads grid ⟨position.step heading, heading⟩ rest last) :
      Leads grid ⟨position, heading⟩ (.move :: rest) last
  | turn {position : Position} {heading : Heading} {turn : Turn} {rest : List Primitive}
      {last : Agent} (others : Leads grid ⟨position, heading.turned turn⟩ rest last) :
      Leads grid ⟨position, heading⟩ (.turn turn :: rest) last

variable {grid : Grid} {first middle last : Agent} {front back : List Primitive}

/-- One way after the other is a way. -/
theorem Leads.append (leads : grid.Leads first front middle) (others : grid.Leads middle back last) :
    grid.Leads first (front ++ back) last := by
  induction leads with
  | rest agent => exact others
  | move free _ ih => exact .move free (ih others)
  | turn _ ih => exact .turn (ih others)

theorem leads_turns (position : Position) (heading : Heading) (turns : List Turn) :
    grid.Leads ⟨position, heading⟩ (turns.map .turn)
      ⟨position, turns.foldl Heading.turned heading⟩ := by
  induction turns generalizing heading with
  | nil => exact .rest _
  | cons turn turns ih => exact .turn (ih (heading.turned turn))

/-- On the way to a cell of the board the next cell is on the board. -/
theorem contains_step {p q : Position} {heading : Heading} {k : Nat}
    (exact : p.StepsExactly heading) (start : grid.contains p = true)
    (stop : grid.contains q = true)
    (x : q.x.toInt = p.x.toInt + (k + 1 : Nat) * heading.delta.1.toInt)
    (y : q.y.toInt = p.y.toInt + (k + 1 : Nat) * heading.delta.2.toInt) :
    grid.contains (p.step heading) = true := by
  rw [contains_iff] at start stop ⊢
  rw [exact.1, exact.2]
  have single : (heading.delta.1.toInt = 0 ∨ heading.delta.1.toInt = 1 ∨
      heading.delta.1.toInt = -1) ∧ (heading.delta.2.toInt = 0 ∨ heading.delta.2.toInt = 1 ∨
        heading.delta.2.toInt = -1) := by
    cases heading <;> decide
  obtain ⟨across | across | across, down | down | down⟩ := single <;>
    rw [across] at x ⊢ <;> rw [down] at y ⊢ <;> omega

/-- Moves along a heading lead from one cell to another if they come to the right distance. -/
theorem leads_moves (size : grid.size ≤ Level.maxGridSize) {p q : Position} (heading : Heading)
    (k : Nat) (start : grid.contains p = true) (stop : grid.contains q = true)
    (x : q.x.toInt = p.x.toInt + k * heading.delta.1.toInt)
    (y : q.y.toInt = p.y.toInt + k * heading.delta.2.toInt) :
    grid.Leads ⟨p, heading⟩ (List.replicate k .move) ⟨q, heading⟩ := by
  induction k generalizing p with
  | zero =>
      have same : p = q := by
        obtain ⟨px, py⟩ := p
        obtain ⟨qx, qy⟩ := q
        rw [Position.mk.injEq, ← Int32.toInt_inj, ← Int32.toInt_inj]
        simpa [eq_comm] using And.intro x y
      rw [same]
      exact .rest _
  | succ k ih =>
      have bound : (grid.size : Int) ≤ 64 := Int.ofNat_le.2 size
      have exact := (isWithin_of_contains start).stepsExactly (by omega) (by omega) heading
      have free := contains_step exact start stop x y
      rw [List.replicate_succ]
      refine .move free (ih free ?_ ?_)
      · rw [exact.1, x, Int.natCast_succ, Int.add_mul]
        omega
      · rw [exact.2, y, Int.natCast_succ, Int.add_mul]
        omega

end Grid

/-! ## Programs for the ways -/

namespace Command

/-- The actions of some commands. -/
def allActions (commands : List Command) : List Primitive :=
  commands.flatMap actions

/-- The commands to turn from one heading to another and make some moves. -/
def leg (heading goal : Heading) (count : Nat) : List Command :=
  (heading.turnsTo goal).map (fun turn => .primitive (.turn turn))
    ++ [.loop (UInt32.ofNat count) [.move]]

theorem allActions_leg (heading goal : Heading) {count : Nat} (small : count < UInt32.size) :
    allActions (leg heading goal count) =
      (heading.turnsTo goal).map .turn ++ List.replicate count .move := by
  have turns : allActions ((heading.turnsTo goal).map fun turn => .primitive (.turn turn)) =
      (heading.turnsTo goal).map .turn := by
    rw [allActions, List.flatMap_map]
    exact List.map_eq_flatMap.symm
  have moves : allActions [.loop (UInt32.ofNat count) [.move]] = List.replicate count .move := by
    simp [allActions, actions, UInt32.toNat_ofNat_of_lt' small]
  rw [leg, allActions, List.flatMap_append]
  exact congrArg₂ (· ++ ·) turns moves

theorem length_leg (heading goal : Heading) {count : Nat} (small : count < UInt32.size) :
    (allActions (leg heading goal count)).length = (heading.turnsTo goal).length + count := by
  rw [allActions_leg heading goal small, List.length_append, List.length_map,
    List.length_replicate]

/-- The commands that lead the rocket to a cell: across to its column, then along it. -/
def route (agent : Agent) (target : Position) : List Command :=
  let across := Heading.across agent.position.x target.x
  let along := Heading.along agent.position.y target.y
  leg agent.heading across (target.x.toInt - agent.position.x.toInt).natAbs
    ++ leg across along (target.y.toInt - agent.position.y.toInt).natAbs

end Command

namespace Grid

open Command (allActions leg route)

variable {grid : Grid} (size : grid.size ≤ Level.maxGridSize)
include size

/-- The coordinates of cells differ by less than the side length. -/
theorem natAbs_sub_lt {p q : Position} (start : grid.contains p = true)
    (stop : grid.contains q = true) :
    (q.x.toInt - p.x.toInt).natAbs < UInt32.size ∧
      (q.y.toInt - p.y.toInt).natAbs < UInt32.size := by
  rw [contains_iff] at start stop
  have bound : (grid.size : Int) ≤ 64 := Int.ofNat_le.2 size
  have large : UInt32.size = 4294967296 := rfl
  omega

theorem leads_leg {p q : Position} (heading goal : Heading) {count : Nat}
    (small : count < UInt32.size) (start : grid.contains p = true) (stop : grid.contains q = true)
    (x : q.x.toInt = p.x.toInt + count * goal.delta.1.toInt)
    (y : q.y.toInt = p.y.toInt + count * goal.delta.2.toInt) :
    grid.Leads ⟨p, heading⟩ (allActions (leg heading goal count)) ⟨q, goal⟩ := by
  have turns : grid.Leads ⟨p, heading⟩ _ _ := leads_turns p heading (heading.turnsTo goal)
  rw [Heading.foldl_turnsTo] at turns
  rw [Command.allActions_leg heading goal small]
  exact turns.append (leads_moves size goal count start stop x y)

/-- The route leads to its target on the board. -/
theorem leads_route {agent : Agent} {target : Position}
    (start : grid.contains agent.position = true) (stop : grid.contains target = true) :
    ∃ heading, grid.Leads agent (allActions (route agent target)) ⟨target, heading⟩ := by
  obtain ⟨small, small'⟩ := natAbs_sub_lt size start stop
  obtain ⟨still, x⟩ := Heading.delta_across agent.position.x target.x
  obtain ⟨still', y⟩ := Heading.delta_along agent.position.y target.y
  have corner : grid.contains ⟨target.x, agent.position.y⟩ = true := by
    rw [contains_iff] at start stop ⊢
    exact ⟨stop.1, start.2⟩
  have across := leads_leg size agent.heading (Heading.across agent.position.x target.x) small
    start corner x (by rw [still, Int.mul_zero, Int.add_zero])
  have along := leads_leg size (Heading.across agent.position.x target.x)
    (Heading.along agent.position.y target.y) small' corner stop
    (by rw [still', Int.mul_zero, Int.add_zero]) y
  have whole := across.append along
  rw [allActions, allActions, ← List.flatMap_append] at whole
  exact ⟨_, whole⟩

/-- The route takes as many moves as the cells are apart, and three turns at most. -/
theorem length_route_le {agent : Agent} {target : Position}
    (start : grid.contains agent.position = true) (stop : grid.contains target = true) :
    (allActions (route agent target)).length ≤ agent.position.distance target + 3 := by
  obtain ⟨small, small'⟩ := natAbs_sub_lt size start stop
  have first := Command.length_leg agent.heading
    (Heading.across agent.position.x target.x) small
  have second := Command.length_leg (Heading.across agent.position.x target.x)
    (Heading.along agent.position.y target.y) small'
  have turns := agent.heading.length_turnsTo_le (Heading.across agent.position.x target.x)
  rw [Heading.length_turnsTo_along] at second
  have whole : allActions (route agent target) =
      allActions (leg agent.heading _ _) ++ allActions (leg _ _ _) := List.flatMap_append
  rw [whole, List.length_append, first, second, Position.distance]
  omega

end Grid

/-! ## Runs along a way -/

namespace World

variable {world : World} {performed : Nat} {agent last : Agent}
variable {actions : List (Primitive × Nat)}

/-- If the budget is large enough, actions that lead along a way are all performed. -/
theorem traceFrom_of_leads (leads : world.grid.Leads agent (actions.map Prod.fst) last)
    (allowed : performed + actions.length ≤ world.maxSteps) :
    (∀ step ∈ world.traceFrom performed agent actions, step.entry.isFailure = false) ∧
      agentBehind agent (world.traceFrom performed agent actions) = last ∧
      (world.traceFrom performed agent actions).length = actions.length := by
  induction actions generalizing performed agent with
  | nil =>
      cases leads
      exact ⟨nofun, rfl, rfl⟩
  | cons action rest ih =>
      obtain ⟨p, line⟩ := action
      rw [List.length_cons] at allowed
      have within : performed < world.maxSteps := by omega
      have onward : performed + 1 + rest.length ≤ world.maxSteps := by omega
      cases leads with
      | move free others =>
          obtain ⟨goes, ends, all⟩ := ih others onward
          simp only [traceFrom_eq_effect, effect, if_neg (Nat.not_le.2 within), perform,
            if_pos free]
          refine ⟨List.forall_mem_cons.2 ⟨rfl, goes⟩, ?_, congrArg (· + 1) all⟩
          rwa [agentBehind_cons]
      | turn others =>
          obtain ⟨goes, ends, all⟩ := ih others onward
          simp only [traceFrom_eq_effect, effect, if_neg (Nat.not_le.2 within), perform]
          refine ⟨List.forall_mem_cons.2 ⟨rfl, goes⟩, ?_, congrArg (· + 1) all⟩
          rwa [agentBehind_cons]

end World

end Rocket
