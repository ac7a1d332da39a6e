import Netx.Lifecycle.Contract

/-!
# Signals

`Server.Loop` runs a `LoopContext` beside a goroutine that waits for signals:
the first one cancels the context, the second one forces the abort. Anybody
else may call the server at the same time.
-/

set_option autoImplicit false

namespace Netx.Lifecycle

open Errors

/-- `loop` is the `LoopContext` that `Loop` calls, `signals` its goroutine's call
of `forceAbort`. -/
inductive Caller (Other : Type) where
  | loop
  | signals
  | other (call : Other)
  deriving DecidableEq

/-- The goroutine that waits for signals: `canceling` and `forcing` have received
one and not acted on it yet. -/
inductive Signals where
  | first
  | canceling
  | second
  | forcing
  | forced
  | left
  deriving DecidableEq, Repr

def Signals.received : Signals → Nat
  | .first | .left => 0
  | .canceling | .second => 1
  | .forcing | .forced => 2

structure Loop (Other : Type) where
  world : World (Caller Other)
  signals : Signals

inductive LoopAct (Other : Type) where
  | call (call : Caller Other) (act : Act)
  | receive
  | cancel
  | force
  | leave

/-- `Loop` makes one call, and only its goroutine cancels the context of it. -/
def loopTakes : Act → Bool
  | .call .loopContext => true
  | .call _ | .ctxEnds _ => false
  | _ => true

section

variable {Other : Type} [DecidableEq Other]

namespace Loop

def frame (p : Loop Other) : Frame :=
  p.world.frame .loop

def step (o : Options) (p : Loop Other) : LoopAct Other → Option (Loop Other)
  | .call .signals _ => none
  | .call .loop act =>
      if loopTakes act then (p.world.step o (.loop, act)).map ({ p with world := · }) else none
  | .call (.other call) act =>
      (p.world.step o (.other call, act)).map ({ p with world := · })
  | .receive =>
      match p.signals with
      | .first => some { p with signals := .canceling }
      | .second =>
          (p.world.step o (.signals, .call .forceAbort)).map ({ world := ·, signals := .forcing })
      | _ => none
  | .cancel =>
      match p.signals with
      | .canceling =>
          (p.world.step o (.loop, .ctxEnds Canceled)).map ({ world := ·, signals := .second })
      | _ => none
  | .force =>
      match p.signals with
      | .forcing => (p.world.step o (.signals, .next)).map ({ world := ·, signals := .forced })
      | _ => none
  | .leave =>
      match p.signals, p.frame.pc with
      | .first, .returned _ | .second, .returned _ => some { p with signals := .left }
      | _, _ => none

def start (made : Bool) : Loop Other where
  world := .start made
  signals := .first

end Loop

def looping (Other : Type) [DecidableEq Other] (o : Options) :
    Transition.System (Loop Other) (LoopAct Other) where
  initial p := ∃ made, p = .start made
  step := Loop.step o

/-- A step of `LoopContext` itself or of the goroutine that runs Serve or links the
abort to the drain; not one that a hook, the service or the clock takes. -/
def Act.internal : Act → Bool
  | .next | .takeServed | .stopRequested | .graceOver => true
  | .serveCalled | .serveSends | .watchForce | .watchDrain => true
  | _ => false

def LoopAct.internal : LoopAct Other → Bool
  | .call .loop act => act.internal
  | .cancel | .force | .leave => true
  | _ => false

/-- Signals are received after `LoopContext` has passed `begin`. -/
def AfterBegin (p : Loop Other) : LoopAct Other → Prop
  | .receive => p.frame.pc.Begun
  | _ => True

/-- `OnStart` returns an error or panics. -/
def FailsStart (p : Loop Other) : LoopAct Other → Prop
  | .call .loop (.returns out) => p.frame.pc = .inOnStart ∧ protect "start" out ≠ none
  | _ => False

/-- Two signals were received and `Service.Shutdown` drains as if there had been
one: nothing that the server's goroutines still do will cancel its context. -/
structure Loop.Ignored (o : Options) (p : Loop Other) : Prop where
  received : p.signals.received = 2
  inside : ∃ exit, p.frame.pc = .inShutdown exit
  quiet : ∀ action, action.internal = true → p.step o action = none
  active : p.frame.drain = .active

end

end Netx.Lifecycle
