import Netx.Errors.Tree

/-!
# The calls on a transport

A TCP server and a UDP connection are both called as a `Service`: any number of `Serve`,
`Close` and `Shutdown` calls, which return in the same ways.
-/

set_option autoImplicit false

namespace Netx.Runtime

open Errors

inductive Op where
  | serve
  | close
  | shutdown
  deriving DecidableEq, Repr

inductive Reply where
  | refused (err : Err)
  | served (err : Option Err)
  | closed
  | notServing
  | shutdownDone
  | shutdownCut (err : Err)
  deriving DecidableEq, Repr

def Reply.serveResult : Reply → Option (Option Err)
  | .refused err => some (some err)
  | .served err => some err
  | _ => none

def Reply.shutdownResult : Reply → Option (Option Err)
  | .notServing | .shutdownDone => some none
  | .shutdownCut err => some (some err)
  | _ => none

/-- `Shutdown` has returned nil. -/
def Reply.Drained : Reply → Prop
  | .notServing | .shutdownDone => True
  | _ => False

theorem Reply.Drained.shutdownResult {reply : Reply} (drained : reply.Drained) :
    reply.shutdownResult = some none := by
  cases reply <;> trivial

/-- The calls that the runtime makes on one transport: `Serve`, `Shutdown`, and the `Close`
that the context of `Serve` runs when it is cancelled. -/
inductive Role where
  | serve
  | shutdown
  | afterFunc
  deriving DecidableEq, Repr

/-- A step of a call starts it, starts it for a context that is done, ends its context, or
takes it further. -/
inductive Request where
  | call (op : Op)
  | fire (source : Role)
  | ctxEnds
  | further

/-- What each call may do: start its own operation, and take its steps. -/
def Role.may : Role → Request → Bool
  | .serve, .call .serve | .shutdown, .call .shutdown | .afterFunc, .fire .serve => true
  | _, .call _ | _, .fire _ => false
  | .shutdown, .ctxEnds => false
  | _, _ => true

/-- `Serve` has returned an error. -/
def Failed (reply : Option Reply) : Prop :=
  ∃ err, reply.bind Reply.serveResult = some (some err)

theorem Failed.reply {answer : Option Reply} (failed : Failed answer) :
    ∃ reply err, answer = some reply ∧ reply.serveResult = some (some err) := by
  obtain ⟨err, returned⟩ := failed
  obtain ⟨reply, answered, result⟩ := Option.bind_eq_some_iff.mp returned
  exact ⟨reply, err, answered, result⟩

end Netx.Runtime
