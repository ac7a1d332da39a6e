import Netx.Lifecycle.Task
import Netx.Transition.Tally

/-!
# One call of a group, goroutine by goroutine

`group.Serve` and `group.Shutdown` start a goroutine for every member and wait
for all of them. A step is one operation on what the goroutines share: the wait
group, the slice of errors and, in `Serve`, the context that is cancelled to
abort. Members return whenever and whatever they like, but do not panic.
-/

set_option autoImplicit false

namespace Netx.Lifecycle

open Errors

/-- The context a call was given, or the one that `Serve` derives from it. -/
inductive Context where
  | given
  | derived
  deriving DecidableEq, Repr

/-- The context with which a group calls its members. -/
def Method.context : Method → Context
  | .serve => .derived
  | .shutdown => .given

section

variable {Service : Type}

/-- What the goroutine of a member does next. -/
inductive Goroutine (Service : Type) where
  | unborn
  | starting (service : Service)
  | inside
  | ended (err : Option Err)
  | stored
  | aborting
  | counting
  | gone

/-- A member's goroutine, with the calls it has made and what they returned. -/
structure Member (Service : Type) where
  point : Goroutine Service
  calls : List (Service × Context)
  results : List (Option Err)

/-- What the call itself does next: `add` and `go` are the two operations of the
loop, `deferred` is the deferred `abort` of `Serve`. -/
inductive Main (Service : Type) where
  | add (i : Nat)
  | go (i : Nat) (service : Service)
  | wait
  | deferred (result : Option Err)
  | leaving (result : Option Err)
  | returned (result : Option Err)

/-- `given` and `derived` tell which of the two contexts are cancelled. -/
structure GroupCall (Service : Type) where
  main : Main Service
  member : Nat → Member Service
  errs : List (Option Err)
  wg : Int
  given : Bool
  derived : Bool

/-- `next` is a step of the call itself, `goroutine` one of a member's goroutine
around the member's method, which `returns` by itself. A cancellation of the
given context reaches the derived one by `propagate`. -/
inductive GroupAct where
  | next
  | goroutine (i : Nat)
  | returns (i : Nat) (err : Option Err)
  | cancel
  | propagate

namespace GroupCall

/-- The call with its context derived and its slice of errors made. -/
def start (group : List Service) (m : Method) (given : Bool) : GroupCall Service where
  main := .add 0
  member := fun _ => ⟨.unborn, [], []⟩
  errs := List.replicate group.length none
  wg := 0
  given := given
  derived := m == .serve && given

def setMember (s : GroupCall Service) (i : Nat) (member : Member Service) : GroupCall Service :=
  { s with member := Function.update s.member i member }

def setPoint (s : GroupCall Service) (i : Nat) (point : Goroutine Service) : GroupCall Service :=
  s.setMember i { s.member i with point }

/-- `errs[i]` -/
def err (s : GroupCall Service) (i : Nat) : Option Err :=
  s.errs.getD i none

variable (group : List Service) (m : Method)

def next (s : GroupCall Service) : Option (GroupCall Service) :=
  match s.main with
  | .add i =>
      match group[i]? with
      | some service => some { s with main := .go i service, wg := s.wg + 1 }
      | none => some { s with main := .wait }
  | .go i service => some { s.setPoint i (.starting service) with main := .add (i + 1) }
  | .wait =>
      if s.wg = 0 then
        match m with
        | .serve => some { s with main := .deferred (join s.errs) }
        | .shutdown => some { s with main := .leaving (join s.errs) }
      else none
  | .deferred result => some { s with main := .leaving result, derived := true }
  | .leaving result => some { s with main := .returned result }
  | .returned _ => none

def goroutine (s : GroupCall Service) (i : Nat) : Option (GroupCall Service) :=
  match (s.member i).point with
  | .starting service =>
      some (s.setMember i ⟨.inside, (s.member i).calls ++ [(service, m.context)],
        (s.member i).results⟩)
  | .ended err => some { s.setPoint i .stored with errs := s.errs.set i err }
  | .stored =>
      match m with
      | .serve => some (s.setPoint i (if (s.err i).isSome then .aborting else .counting))
      | .shutdown => some (s.setPoint i .counting)
  | .aborting => some { s.setPoint i .counting with derived := true }
  | .counting => some { s.setPoint i .gone with wg := s.wg - 1 }
  | _ => none

def returns (s : GroupCall Service) (i : Nat) (err : Option Err) : Option (GroupCall Service) :=
  match (s.member i).point with
  | .inside =>
      some (s.setMember i ⟨.ended err, (s.member i).calls, (s.member i).results ++ [err]⟩)
  | _ => none

def step (s : GroupCall Service) : GroupAct → Option (GroupCall Service)
  | .next => s.next group m
  | .goroutine i => s.goroutine m i
  | .returns i err => s.returns i err
  | .cancel => if s.given then none else some { s with given := true }
  | .propagate =>
      if m = .serve ∧ s.given = true ∧ s.derived = false then some { s with derived := true }
      else none

/-- All calls of one method of a group, with a context that may already be
cancelled. -/
def calls : Transition.System (GroupCall Service) GroupAct where
  initial s := ∃ given, s = start group m given
  step := step group m

/-- What can happen in a call of a group. -/
inductive Moves (s : GroupCall Service) : GroupAct → GroupCall Service → Prop where
  | add (i : Nat) (service : Service) : s.main = .add i → group[i]? = some service →
      Moves s .next { s with main := .go i service, wg := s.wg + 1 }
  | all (i : Nat) : s.main = .add i → group[i]? = none → Moves s .next { s with main := .wait }
  | go (i : Nat) (service : Service) : s.main = .go i service →
      Moves s .next { s.setPoint i (.starting service) with main := .add (i + 1) }
  | joins (main : Main Service) : s.main = .wait → s.wg = 0 →
      (m = .serve ∧ main = .deferred (join s.errs) ∨
        m = .shutdown ∧ main = .leaving (join s.errs)) → Moves s .next { s with main }
  | deferred (result : Option Err) : s.main = .deferred result →
      Moves s .next { s with main := .leaving result, derived := true }
  | leaves (result : Option Err) : s.main = .leaving result →
      Moves s .next { s with main := .returned result }
  | calls (i : Nat) (service : Service) : (s.member i).point = .starting service →
      Moves s (.goroutine i) (s.setMember i ⟨.inside,
        (s.member i).calls ++ [(service, m.context)], (s.member i).results⟩)
  | returns (i : Nat) (err : Option Err) : (s.member i).point = .inside →
      Moves s (.returns i err)
        (s.setMember i ⟨.ended err, (s.member i).calls, (s.member i).results ++ [err]⟩)
  | stores (i : Nat) (err : Option Err) : (s.member i).point = .ended err →
      Moves s (.goroutine i) { s.setPoint i .stored with errs := s.errs.set i err }
  | fails (i : Nat) (err : Err) : (s.member i).point = .stored → m = .serve →
      s.err i = some err → Moves s (.goroutine i) (s.setPoint i .aborting)
  | passes (i : Nat) : (s.member i).point = .stored → (m = .serve → s.err i = none) →
      Moves s (.goroutine i) (s.setPoint i .counting)
  | aborts (i : Nat) : (s.member i).point = .aborting →
      Moves s (.goroutine i) { s.setPoint i .counting with derived := true }
  | counts (i : Nat) : (s.member i).point = .counting →
      Moves s (.goroutine i) { s.setPoint i .gone with wg := s.wg - 1 }
  | cancel : s.given = false → Moves s .cancel { s with given := true }
  | propagate : m = .serve → s.given = true → s.derived = false →
      Moves s .propagate { s with derived := true }

variable {group m} {s s' : GroupCall Service} {act : GroupAct}

theorem next_moves (found : s.next group m = some s') : Moves group m s .next s' := by
  unfold next at found
  split at found
  · rename_i i here
    split at found
    · rename_i service listed
      cases found
      exact .add i service here listed
    · rename_i unlisted
      cases found
      exact .all i here unlisted
  · rename_i i service here
    cases found
    exact .go i service here
  · rename_i here
    obtain ⟨none, same⟩ := Option.ite_none_right_eq_some.mp found
    cases m with
    | serve =>
        cases same
        exact .joins _ here none (.inl ⟨rfl, rfl⟩)
    | shutdown =>
        cases same
        exact .joins _ here none (.inr ⟨rfl, rfl⟩)
  · rename_i result here
    cases found
    exact .deferred result here
  · rename_i result here
    cases found
    exact .leaves result here
  · cases found

private theorem goroutine_moves {i : Nat} (found : s.goroutine m i = some s') :
    Moves group m s (.goroutine i) s' := by
  unfold goroutine at found
  split at found
  · rename_i service here
    cases found
    exact .calls i service here
  · rename_i err here
    cases found
    exact .stores i err here
  · rename_i here
    cases m with
    | shutdown =>
        cases found
        exact .passes i here nofun
    | serve =>
        cases slot : s.err i with
        | none =>
            simp only [slot] at found
            cases found
            exact .passes i here fun _ => slot
        | some err =>
            simp only [slot] at found
            cases found
            exact .fails i err here rfl slot
  · rename_i here
    cases found
    exact .aborts i here
  · rename_i here
    cases found
    exact .counts i here
  · cases found

theorem step_moves (found : s.step group m act = some s') : Moves group m s act s' := by
  cases act with
  | next => exact next_moves found
  | goroutine i => exact goroutine_moves found
  | returns i err =>
      simp only [step, GroupCall.returns] at found
      split at found
      · rename_i here
        cases found
        exact .returns i err here
      · cases found
  | cancel =>
      simp only [step] at found
      split at found
      · cases found
      · rename_i fresh
        cases found
        exact .cancel (by simpa using fresh)
  | propagate =>
      obtain ⟨⟨serving, cancelled, kept⟩, same⟩ := Option.ite_none_right_eq_some.mp found
      cases same
      exact .propagate serving cancelled kept

end GroupCall

end

end Netx.Lifecycle
