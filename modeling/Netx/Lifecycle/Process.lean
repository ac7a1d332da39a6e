import Netx.Lifecycle.Contract
import Netx.Lifecycle.TaskProperties

/-!
# A process that runs a server over a group

The lifecycle server with a service whose `Serve` and `Shutdown` are at work as
groups are. `LoopContext` recovers a panic of the service it calls, in `protect`;
nobody recovers one in a goroutine that a group has started, and the process dies.
-/

set_option autoImplicit false

namespace Netx.Lifecycle

open Errors

/-- The two calls that a `LoopContext` makes on its service. -/
structure Crew where
  serve : Task
  shutdown : Task

namespace Crew

def task (crew : Crew) : Method → Task
  | .serve => crew.serve
  | .shutdown => crew.shutdown

def setTask (crew : Crew) (t : Task) : Method → Crew
  | .serve => { crew with serve := t }
  | .shutdown => { crew with shutdown := t }

/-- What a step of the server means for the service. The server calls `Serve` and
`Shutdown`, and it goes on with what they ended with. -/
def follow (pc : Pc) (act : Act) (crew : Crew) : Option Crew :=
  match act, pc with
  | .serveCalled, _ => some { crew with serve := crew.serve.setStage .inside }
  | .serveReturns out, _ => if crew.serve.stage = .ended out then some crew else none
  | .next, .shutdown _ => some { crew with shutdown := crew.shutdown.setStage .inside }
  | .returns out, .inShutdown _ =>
      if crew.shutdown.stage = .ended out then some crew else none
  | _, _ => some crew

end Crew

/-- The call is inside the service's method. -/
def Frame.calling (f : Frame) : Method → Bool
  | .serve =>
      match f.serve with
      | .inside => true
      | _ => false
  | .shutdown =>
      match f.pc with
      | .inShutdown _ => true
      | _ => false

inductive Move where
  | loop (act : Act)
  | member (m : Method) (path : List Nat) (act : TaskAct)

/-- A service inside a group panics. -/
def Move.memberPanics : Move → Bool
  | .member _ (_ :: _) (.ends (.panics _)) => true
  | _ => false

structure Process (Call : Type) where
  world : World Call
  crew : Call → Crew
  crashed : Bool

section

variable {Call : Type} [DecidableEq Call]

def Process.step (o : Options) (p : Process Call) (action : Call × Move) :
    Option (Process Call) :=
  if p.crashed then none
  else
    let f := p.world.frame action.1
    let crew := p.crew action.1
    match action.2 with
    | .loop act =>
        match p.world.step o (action.1, act), crew.follow f.pc act with
        | some world, some crew =>
            some { p with world, crew := Function.update p.crew action.1 crew }
        | _, _ => none
    | .member m path act =>
        if f.calling m then
          ((crew.task m).step m path act).map fun t =>
            { p with
              crew := Function.update p.crew action.1 (crew.setTask t m)
              crashed := action.2.memberPanics }
        else none

/-- A server over one service, not called yet. -/
def Process.start (made : Bool) (service : Task) : Process Call where
  world := .start made
  crew := fun _ => ⟨service, service⟩
  crashed := false

def process (Call : Type) [DecidableEq Call] (o : Options) :
    Transition.System (Process Call) (Call × Move) where
  initial p := ∃ made service, service.Fresh ∧ p = .start made service
  step := Process.step o

/-- What can happen in a process. -/
inductive Process.Steps (o : Options) (p : Process Call) (call : Call) :
    Move → Process Call → Prop where
  | loop (act : Act) (s : Server Call) (f : Frame) (crew : Crew) :
      Moves o call p.world.server (p.world.frame call) act s f →
      (p.crew call).follow (p.world.frame call).pc act = some crew →
      Steps o p call (.loop act) {
        world := { server := s, frame := Function.update p.world.frame call f }
        crew := Function.update p.crew call crew
        crashed := false }
  | member (m : Method) (path : List Nat) (act : TaskAct) (t : Task) :
      (p.world.frame call).calling m = true → Task.Steps m path act ((p.crew call).task m) t →
      Steps o p call (.member m path act) {
        world := p.world
        crew := Function.update p.crew call ((p.crew call).setTask t m)
        crashed := (Move.member m path act).memberPanics }

variable {o : Options} {p p' : Process Call} {call : Call} {move : Move}

theorem Process.step_steps (stepped : p.step o (call, move) = some p') :
    p.crashed = false ∧ p.Steps o call move p' := by
  unfold Process.step at stepped
  by_cases dead : p.crashed = true
  · rw [if_pos dead] at stepped
    cases stepped
  · have alive : p.crashed = false := by simpa using dead
    rw [if_neg dead] at stepped
    refine ⟨alive, ?_⟩
    cases move with
    | loop act =>
        simp only at stepped
        split at stepped
        · rename_i world crew moved followed
          obtain ⟨s, f, moves, rfl⟩ := World.step_moves moved
          cases stepped
          rw [alive]
          exact .loop act s f crew moves followed
        · cases stepped
    | member m path act =>
        obtain ⟨calling, taken⟩ := Option.ite_none_right_eq_some.mp stepped
        obtain ⟨t, steps, rfl⟩ := Option.map_eq_some_iff.mp taken
        exact .member m path act t calling (Task.step_steps steps)

theorem Process.step_of_loop {act : Act} {world : World Call} {crew : Crew}
    (alive : p.crashed = false) (moved : p.world.step o (call, act) = some world)
    (followed : (p.crew call).follow (p.world.frame call).pc act = some crew) :
    ∃ next, p.step o (call, .loop act) = some next := by
  refine ⟨{ p with world, crew := Function.update p.crew call crew }, ?_⟩
  simp only [Process.step, alive, moved, followed, Bool.false_eq_true, if_false]

theorem Process.step_of_member {m : Method} {path : List Nat} {act : TaskAct}
    (alive : p.crashed = false) (calling : (p.world.frame call).calling m = true)
    (enabled : (((p.crew call).task m).step m path act).isSome = true) :
    ∃ next, p.step o (call, .member m path act) = some next := by
  obtain ⟨t, stepped⟩ := Option.isSome_iff_exists.mp enabled
  simp only [Process.step, alive, calling, stepped, Bool.false_eq_true, if_false, if_true]
  exact ⟨_, rfl⟩

/-- The server in a process is a lifecycle server. -/
theorem reachable_world (reached : (process Call o).Reachable p) :
    (system Call o).Reachable p.world := by
  refine reached.invariant (fun p => (system Call o).Reachable p.world) ?_ ?_
  · rintro _ ⟨made, service, _, rfl⟩
    exact .initial ⟨made, rfl⟩
  · rintro p ⟨call, move⟩ next _ held stepped
    obtain ⟨alive, steps⟩ := Process.step_steps stepped
    cases move with
    | loop act =>
        unfold process Process.step at stepped
        simp only [alive, Bool.false_eq_true, if_false] at stepped
        split at stepped
        · rename_i moved _
          cases stepped
          exact held.step moved
        · cases stepped
    | member m path act =>
        cases steps
        exact held

end

end Netx.Lifecycle
