import Netx.Lifecycle.Server

/-!
# A group at work

One call of `Serve` or `Shutdown` on a service that may be a group, nested to
any depth. A group runs every member in a goroutine of its own, which stores
the member's error, in `Serve` aborts the others if there is one, and counts
down; the group joins the errors once all goroutines have done so. Members end
whenever and however they like.
-/

set_option autoImplicit false

namespace Netx.Lifecycle

open Errors

/-- `group.Serve` or `group.Shutdown`. -/
inductive Method where
  | serve
  | shutdown
  deriving DecidableEq, Repr

/-- Where the call on one service stands. `done` is reached by members of a
group only: their goroutine has stored the error and is gone. -/
inductive Stage where
  | ready
  | inside
  | ended (out : Outcome)
  | done (err : Option Err)
  deriving DecidableEq

/-- `aborted` tells whether the context a group gives its members is cancelled. -/
inductive Task where
  | leaf (stage : Stage)
  | group (stage : Stage) (aborted : Bool) (members : List Task)

inductive TaskAct where
  | call
  | ends (out : Outcome)
  | collect (i : Nat)
  | returns
  deriving DecidableEq

namespace Task

def stage : Task → Stage
  | .leaf stage => stage
  | .group stage _ _ => stage

def setStage (stage : Stage) : Task → Task
  | .leaf _ => .leaf stage
  | .group _ aborted members => .group stage aborted members

/-- The error a member's goroutine has stored. -/
def stored (t : Task) : Option (Option Err) :=
  match t.stage with
  | .done err => some err
  | _ => none

/-- A step of the service itself, or of a goroutine that it waits for. -/
def own (m : Method) : TaskAct → Task → Option Task
  | .call, t =>
      match t.stage with
      | .ready => some (t.setStage .inside)
      | _ => none
  | .ends out, .leaf .inside => some (.leaf (.ended out))
  | .collect i, .group .inside aborted members =>
      match members[i]? with
      | some member =>
          match member.stage with
          | .ended (.returns err) =>
              some (.group .inside (aborted || m == .serve && err.isSome)
                (members.set i (member.setStage (.done err))))
          | _ => none
      | none => none
  | .returns, .group .inside aborted members =>
      if members.all fun member => member.stored.isSome then
        some (.group (.ended (.returns (join (members.filterMap stored))))
          (aborted || m == .serve) members)
      else none
  | _, _ => none

/-- A step of the service that a path of member numbers leads to. -/
def step (m : Method) : List Nat → TaskAct → Task → Option Task
  | [], act, t => t.own m act
  | i :: path, act, .group .inside aborted members =>
      match members[i]? with
      | some member =>
          (member.step m path act).map fun member =>
            .group .inside aborted (members.set i member)
      | none => none
  | _ :: _, _, _ => none

/-- What a service can do by itself. -/
inductive Acts (m : Method) : TaskAct → Task → Task → Prop where
  | call (t : Task) : t.stage = .ready → Acts m .call t (t.setStage .inside)
  | ends (out : Outcome) : Acts m (.ends out) (.leaf .inside) (.leaf (.ended out))
  | collect (i : Nat) (aborted : Bool) (members : List Task) (member : Task)
      (err : Option Err) : members[i]? = some member → member.stage = .ended (.returns err) →
      Acts m (.collect i) (.group .inside aborted members)
        (.group .inside (aborted || m == .serve && err.isSome)
          (members.set i (member.setStage (.done err))))
  | returns (aborted : Bool) (members : List Task) :
      (∀ member ∈ members, member.stored.isSome = true) →
      Acts m .returns (.group .inside aborted members)
        (.group (.ended (.returns (join (members.filterMap stored))))
          (aborted || m == .serve) members)

/-- What can happen in a tree of services. -/
inductive Steps (m : Method) : List Nat → TaskAct → Task → Task → Prop where
  | own (act : TaskAct) (t t' : Task) : Acts m act t t' → Steps m [] act t t'
  | member (i : Nat) (path : List Nat) (act : TaskAct) (aborted : Bool) (members : List Task)
      (member member' : Task) : members[i]? = some member → Steps m path act member member' →
      Steps m (i :: path) act (.group .inside aborted members)
        (.group .inside aborted (members.set i member'))

section

variable {m : Method} {t t' : Task} {path : List Nat} {act : TaskAct}

private theorem own_acts (found : t.own m act = some t') : Acts m act t t' := by
  cases act with
  | call =>
      cases here : t.stage with
      | ready =>
          simp only [own, here] at found
          cases found
          exact .call t here
      | _ => simp [own, here] at found
  | ends out =>
      cases t with
      | leaf stage =>
          cases stage with
          | inside =>
              cases found
              exact .ends out
          | _ => cases found
      | group stage aborted members => cases found
  | collect i =>
      cases t with
      | leaf stage => cases stage <;> cases found
      | group stage aborted members =>
          cases stage with
          | inside =>
              simp only [own] at found
              split at found
              · rename_i member here
                split at found
                · rename_i err ended
                  cases found
                  exact .collect i aborted members member err here ended
                · cases found
              · cases found
          | _ => cases found
  | returns =>
      cases t with
      | leaf stage => cases stage <;> cases found
      | group stage aborted members =>
          cases stage with
          | inside =>
              obtain ⟨all, same⟩ := Option.ite_none_right_eq_some.mp found
              cases same
              exact .returns aborted members (List.all_eq_true.mp all)
          | _ => cases found

theorem step_steps (found : t.step m path act = some t') : Steps m path act t t' := by
  induction path generalizing t t' with
  | nil => exact .own act t t' (own_acts found)
  | cons i path ih =>
      cases t with
      | leaf stage => cases found
      | group stage aborted members =>
          cases stage with
          | inside =>
              simp only [step] at found
              split at found
              · rename_i member here
                obtain ⟨member', stepped, same⟩ := Option.map_eq_some_iff.mp found
                cases same
                exact .member i path act aborted members member member' here (ih stepped)
              · cases found
          | _ => cases found

end

end Task

end Netx.Lifecycle
