import Netx.Errors.Tree
import Netx.Transition.System
import Mathlib.Logic.Function.Basic

/-!
# The lifecycle server

Any number of concurrent `LoopContext`, `Stop`, `Shutdown` and `forceAbort`
calls on one server. A step is one critical section, one channel operation, one
call of a hook or one return from it. Hooks and the service are the
environment: they return nil, return an error or panic, whenever they like.
-/

set_option autoImplicit false

namespace Netx.Lifecycle

open Errors

def ErrAlreadyRunning : Err := .new 0 "netx: server is already running or has stopped"
def ErrNotRunning : Err := .new 1 "netx: server is not running"
def ErrAbortTimeout : Err := .new 2 "netx: service did not stop after abort"

/-- `context.Canceled` and `context.DeadlineExceeded`. -/
def Canceled : Err := .new 3 "context canceled"
def DeadlineExceeded : Err := .new 4 "context deadline exceeded"

inductive State where
  | new
  | starting
  | running
  | stopping
  | stopped
  deriving DecidableEq, Repr

def State.rank : State → Nat
  | .new => 0
  | .starting => 1
  | .running => 2
  | .stopping => 3
  | .stopped => 4

/-- How a hook ends; the value of a panic is kept as it prints. -/
inductive Outcome where
  | returns (err : Option Err)
  | panics (value : String)
  deriving DecidableEq, Repr

def protect (name : String) : Outcome → Option Err
  | .returns err => err
  | .panics value => some (.errorf ("netx: " ++ name ++ " panic: " ++ value))

def ignoreCanceled (err : Option Err) : Option Err :=
  if is err Canceled then none else err

/-- The fields a caller sets; a hook is named only by whether it is set. -/
structure Options where
  service : Bool
  onStart : Bool
  onStop : Bool
  onError : Bool
  shutdownTimeout : Int

inductive Chan where
  | nil
  | made
  | closed
  deriving DecidableEq, Repr

def Chan.make : Chan → Chan
  | .nil => .made
  | chan => chan

/-- `stop` names the call whose stop context it cancels, and `stopped` tells
which of these were cancelled. Calling a nil `stop` or closing `done` wrongly
would panic and sets `crashed`. -/
structure Server (Call : Type) where
  state : State
  stop : Option Call
  force : Chan
  forced : Bool
  done : Chan
  result : Option Err
  stopped : Call → Bool
  crashed : Bool

inductive Drain where
  | unset
  | active
  | ended (err : Err)
  deriving DecidableEq, Repr

def Drain.cut (drain : Drain) (err : Err) : Drain :=
  match drain with
  | .active => .ended err
  | drain => drain

section Server

variable {Call : Type} [DecidableEq Call]

/-- `made` tells a server from `NewServer` from a zero one. -/
def Server.new (made : Bool) : Server Call where
  state := .new
  stop := none
  force := .nil
  forced := false
  done := if made then .made else .nil
  result := none
  stopped := fun _ => false
  crashed := false

def Server.begin (s : Server Call) (call : Call) : Except Err (Server Call) :=
  if s.state ≠ .new then .error ErrAlreadyRunning
  else .ok { s with
    done := s.done.make
    force := s.force.make
    stop := some call
    state := .starting }

def Server.setState (s : Server Call) (state : State) : Server Call :=
  { s with state }

def Server.callStop (s : Server Call) : Server Call :=
  match s.stop with
  | some call => { s with stopped := Function.update s.stopped call true }
  | none => { s with crashed := true }

def Server.closeDone (s : Server Call) : Server Call :=
  match s.done with
  | .made => { s with done := .closed }
  | _ => { s with crashed := true }

def Server.finish (s : Server Call) (result : Option Err) : Server Call :=
  { s.callStop with result, state := .stopped }.closeDone

def Server.Stop (s : Server Call) : Option Err × Server Call :=
  if s.state = .new ∨ s.state = .stopped then (some ErrNotRunning, s)
  else (none, s.callStop)

def Server.forceAbort (s : Server Call) : Server Call :=
  if s.force ≠ .nil ∧ s.forced = false then { s with forced := true, force := .closed }
  else s

end Server

inductive Op where
  | loopContext
  | stop
  | shutdown
  | forceAbort
  deriving DecidableEq, Repr

/-- What a call returned, and from which of its branches. -/
inductive Reply where
  | refused (err : Err)
  | looped (result : Option Err)
  | stopped (err : Option Err)
  | shutdownRefused (err : Err)
  | shutdownCut (err : Err)
  | shutdownResult (result : Option Err)
  | forced
  deriving DecidableEq, Repr

/-- Why `LoopContext` calls `Service.Shutdown`: `OnStart` failed, or the server
stops, with Serve's result if it has returned already. -/
inductive Exit where
  | failed (err : Err)
  | stopping (served : Option (Option Err))
  deriving DecidableEq, Repr

/-- The next step of a call. `onStart`, `shutdown` and `onStop` are about to call
their hook; `inOnStart` and the like wait for it to return. -/
inductive Pc where
  | idle
  | loopContext
  | onStart
  | inOnStart
  | setRunning
  | goServe
  | select
  | setStopping (served : Option (Option Err))
  | shutdown (exit : Exit)
  | inShutdown (exit : Exit)
  | abort (shutdownErr : Option Err)
  | awaitServe (shutdownErr : Option Err)
  | onStop (errs : List (Option Err))
  | inOnStop (errs : List (Option Err))
  | report (err : Option Err)
  | inOnError (err : Err)
  | unwind (result : Option Err)
  | finish (result : Option Err)
  | stop
  | shutdownStop
  | shutdownSelect
  | shutdownLock
  | forceAbort
  | returned (reply : Reply)

/-- What `LoopContext` did to its hooks, in order. `served` is the moment it took
Serve's result, or gave up on it. -/
inductive Event where
  | onStart
  | onStartReturned (out : Outcome)
  | served (err : Option Err)
  | shutdown
  | shutdownReturned (out : Outcome)
  | onStop
  | onStopReturned (out : Outcome)
  | onError (err : Err)
  | onErrorReturned (out : Outcome)
  deriving DecidableEq

/-- The goroutine that runs `Service.Serve`. -/
inductive Serving where
  | absent
  | ready
  | inside
  | returned (err : Option Err)
  | sent

/-- The goroutine that waits for a forced abort. -/
inductive Watcher where
  | absent
  | watching
  | gone

/-- The locals of one call. `ctx` is the error of the context it was given, once
that is done; `runDone` tells whether the service context was cancelled. -/
structure Frame where
  pc : Pc := .idle
  ctx : Option Err := none
  runDone : Bool := false
  drain : Drain := .unset
  serve : Serving := .absent
  serves : Nat := 0
  served : Option (Option Err) := none
  watcher : Watcher := .absent
  events : List Event := []

inductive Act where
  | call (op : Op)
  | next
  | returns (out : Outcome)
  | takeServed
  | stopRequested
  | graceOver
  | done
  | ctxDone
  | ctxEnds (err : Err)
  | drainExpires
  | serveCalled
  | serveReturns (out : Outcome)
  | serveSends
  | watchForce
  | watchDrain

def Op.entry : Op → Pc
  | .loopContext => .loopContext
  | .stop => .stop
  | .shutdown => .shutdownStop
  | .forceAbort => .forceAbort

def Frame.goto (f : Frame) (pc : Pc) : Frame := { f with pc }

def Frame.log (f : Frame) (pc : Pc) (event : Event) : Frame :=
  { f with pc, events := f.events ++ [event] }

section Steps

variable {Call : Type} [DecidableEq Call]

/-- What follows `Service.Shutdown`. -/
def Exit.afterShutdown (shutdownErr : Option Err) : Exit → Pc
  | .failed err => .onStop [some err, shutdownErr]
  | .stopping (some serveErr) => .onStop [serveErr, ignoreCanceled shutdownErr]
  | .stopping none => .abort shutdownErr

/-- The steps that wait for nobody. -/
def next (o : Options) (call : Call) (s : Server Call) (f : Frame) :
    Option (Server Call × Frame) :=
  match f.pc with
  | .loopContext =>
      if o.service = false then
        some (s, f.goto (.returned (.refused (.errorf "netx: Service is required"))))
      else
        match s.begin call with
        | .error err => some (s, f.goto (.returned (.refused err)))
        | .ok s => some (s, f.goto (if o.onStart then .onStart else .setRunning))
  | .onStart => some (s, f.log .inOnStart .onStart)
  | .setRunning => some (s.setState .running, f.goto .goServe)
  | .goServe => some (s, { f with pc := .select, serve := .ready })
  | .setStopping served =>
      some (s.setState .stopping,
        { f with pc := .shutdown (.stopping served), drain := .active, watcher := .watching })
  | .shutdown exit => some (s, f.log (.inShutdown exit) .shutdown)
  | .abort shutdownErr => some (s, { f with pc := .awaitServe shutdownErr, runDone := true })
  | .onStop errs =>
      if o.onStop then some (s, f.log (.inOnStop errs) .onStop)
      else some (s, f.goto (.report (join (errs ++ [none]))))
  | .report none => some (s, f.goto (.unwind none))
  | .report (some err) =>
      if o.onError then some (s, f.log (.inOnError err) (.onError err))
      else some (s, f.goto (.unwind (some err)))
  | .unwind result =>
      some (s, { f with pc := .finish result, drain := f.drain.cut Canceled, runDone := true })
  | .finish result => some (s.finish result, f.goto (.returned (.looped result)))
  | .stop =>
      match s.Stop with
      | (err, s) => some (s, f.goto (.returned (.stopped err)))
  | .shutdownStop =>
      match s.Stop with
      | (some err, s) => some (s, f.goto (.returned (.shutdownRefused err)))
      | (none, s) => some (s, f.goto .shutdownSelect)
  | .shutdownLock => some (s, f.goto (.returned (.shutdownResult s.result)))
  | .forceAbort => some (s.forceAbort, f.goto (.returned .forced))
  | _ => none

/-- A hook returns or panics. -/
def Frame.returns (f : Frame) (out : Outcome) : Option Frame :=
  match f.pc with
  | .inOnStart =>
      match protect "start" out with
      | some err =>
          some { f.log (.shutdown (.failed err)) (.onStartReturned out) with drain := .active }
      | none => some (f.log .setRunning (.onStartReturned out))
  | .inShutdown exit =>
      some (f.log (exit.afterShutdown (protect "shutdown" out)) (.shutdownReturned out))
  | .inOnStop errs =>
      some (f.log (.report (join (errs ++ [protect "stop" out]))) (.onStopReturned out))
  | .inOnError err =>
      match out with
      | .returns none => some (f.log (.unwind (some err)) (.onErrorReturned out))
      | .returns (some _) => none
      | .panics _ =>
          some (f.log (.unwind (join [some err, protect "error hook" out]))
            (.onErrorReturned out))
  | _ => none

def effect (o : Options) (call : Call) (s : Server Call) (f : Frame) :
    Act → Option (Server Call × Frame)
  | .call op =>
      match f.pc with
      | .idle => some (s, f.goto op.entry)
      | _ => none
  | .next => next o call s f
  | .returns out => (f.returns out).map (s, ·)
  | .takeServed =>
      match f.pc, f.served with
      | .select, some err =>
          some (s, { f.log (.setStopping (some err)) (.served err) with served := none })
      | .awaitServe shutdownErr, some err =>
          some (s, { f.log (.onStop [err, ignoreCanceled shutdownErr]) (.served err) with
            served := none })
      | _, _ => none
  | .stopRequested =>
      match f.pc with
      | .select =>
          if f.ctx.isSome || s.stopped call then some (s, f.goto (.setStopping none)) else none
      | _ => none
  | .graceOver =>
      match f.pc with
      | .awaitServe shutdownErr =>
          some (s, f.log (.onStop [some ErrAbortTimeout, ignoreCanceled shutdownErr])
            (.served (some ErrAbortTimeout)))
      | _ => none
  | .done =>
      match f.pc with
      | .shutdownSelect => if s.done = .closed then some (s, f.goto .shutdownLock) else none
      | _ => none
  | .ctxDone =>
      match f.pc, f.ctx with
      | .shutdownSelect, some err => some (s, f.goto (.returned (.shutdownCut err)))
      | _, _ => none
  | .ctxEnds err =>
      match f.ctx with
      | none => some (s, { f with ctx := some err })
      | some _ => none
  | .drainExpires =>
      if o.shutdownTimeout > 0 then
        some (s, { f with drain := f.drain.cut DeadlineExceeded })
      else none
  | .serveCalled =>
      match f.serve with
      | .ready => some (s, { f with serve := .inside, serves := f.serves + 1 })
      | _ => none
  | .serveReturns out =>
      match f.serve with
      | .inside => some (s, { f with serve := .returned (protect "serve" out) })
      | _ => none
  | .serveSends =>
      match f.serve with
      | .returned err => some (s, { f with serve := .sent, served := some err })
      | _ => none
  | .watchForce =>
      match f.watcher with
      | .watching =>
          if s.force = .closed then
            some (s, { f with watcher := .gone, drain := f.drain.cut Canceled })
          else none
      | _ => none
  | .watchDrain =>
      match f.watcher, f.drain with
      | .watching, .ended _ => some (s, { f with watcher := .gone })
      | _, _ => none

/-- What a call, or a goroutine it started, can do. -/
inductive Moves (o : Options) (call : Call) (s : Server Call) (f : Frame) :
    Act → Server Call → Frame → Prop where
  | call (op : Op) : f.pc = .idle → Moves o call s f (.call op) s (f.goto op.entry)
  | unset : f.pc = .loopContext → o.service = false → Moves o call s f .next s
      (f.goto (.returned (.refused (.errorf "netx: Service is required"))))
  | refused : f.pc = .loopContext → s.state ≠ .new → Moves o call s f .next s
      (f.goto (.returned (.refused ErrAlreadyRunning)))
  | begin {next : Server Call} : f.pc = .loopContext → s.begin call = .ok next →
      Moves o call s f .next next (f.goto (if o.onStart then .onStart else .setRunning))
  | onStart : f.pc = .onStart → Moves o call s f .next s (f.log .inOnStart .onStart)
  | startFailed (out : Outcome) (err : Err) : f.pc = .inOnStart →
      protect "start" out = some err → Moves o call s f (.returns out) s
        { f.log (.shutdown (.failed err)) (.onStartReturned out) with drain := .active }
  | started (out : Outcome) : f.pc = .inOnStart → protect "start" out = none →
      Moves o call s f (.returns out) s (f.log .setRunning (.onStartReturned out))
  | setRunning : f.pc = .setRunning →
      Moves o call s f .next (s.setState .running) (f.goto .goServe)
  | goServe : f.pc = .goServe →
      Moves o call s f .next s { f with pc := .select, serve := .ready }
  | servedEarly (err : Option Err) : f.pc = .select → f.served = some err →
      Moves o call s f .takeServed s
        { f.log (.setStopping (some err)) (.served err) with served := none }
  | stopRequested : f.pc = .select → f.ctx.isSome = true ∨ s.stopped call = true →
      Moves o call s f .stopRequested s (f.goto (.setStopping none))
  | setStopping (served : Option (Option Err)) : f.pc = .setStopping served →
      Moves o call s f .next (s.setState .stopping)
        { f with pc := .shutdown (.stopping served), drain := .active, watcher := .watching }
  | shutdown (exit : Exit) : f.pc = .shutdown exit →
      Moves o call s f .next s (f.log (.inShutdown exit) .shutdown)
  | shutdownReturned (exit : Exit) (out : Outcome) : f.pc = .inShutdown exit →
      Moves o call s f (.returns out) s
        (f.log (exit.afterShutdown (protect "shutdown" out)) (.shutdownReturned out))
  | abort (shutdownErr : Option Err) : f.pc = .abort shutdownErr →
      Moves o call s f .next s { f with pc := .awaitServe shutdownErr, runDone := true }
  | servedLate (shutdownErr err : Option Err) : f.pc = .awaitServe shutdownErr →
      f.served = some err → Moves o call s f .takeServed s
        { f.log (.onStop [err, ignoreCanceled shutdownErr]) (.served err) with served := none }
  | graceOver (shutdownErr : Option Err) : f.pc = .awaitServe shutdownErr →
      Moves o call s f .graceOver s
        (f.log (.onStop [some ErrAbortTimeout, ignoreCanceled shutdownErr])
          (.served (some ErrAbortTimeout)))
  | onStop (errs : List (Option Err)) : f.pc = .onStop errs → o.onStop = true →
      Moves o call s f .next s (f.log (.inOnStop errs) .onStop)
  | onStopUnset (errs : List (Option Err)) : f.pc = .onStop errs → o.onStop = false →
      Moves o call s f .next s (f.goto (.report (join (errs ++ [none]))))
  | onStopReturned (errs : List (Option Err)) (out : Outcome) : f.pc = .inOnStop errs →
      Moves o call s f (.returns out) s
        (f.log (.report (join (errs ++ [protect "stop" out]))) (.onStopReturned out))
  | reportNone : f.pc = .report none → Moves o call s f .next s (f.goto (.unwind none))
  | onError (err : Err) : f.pc = .report (some err) → o.onError = true →
      Moves o call s f .next s (f.log (.inOnError err) (.onError err))
  | onErrorUnset (err : Err) : f.pc = .report (some err) → o.onError = false →
      Moves o call s f .next s (f.goto (.unwind (some err)))
  | onErrorReturned (err : Err) : f.pc = .inOnError err →
      Moves o call s f (.returns (.returns none)) s
        (f.log (.unwind (some err)) (.onErrorReturned (.returns none)))
  | onErrorPanicked (err : Err) (value : String) : f.pc = .inOnError err →
      Moves o call s f (.returns (.panics value)) s
        (f.log (.unwind (join [some err, protect "error hook" (.panics value)]))
          (.onErrorReturned (.panics value)))
  | unwind (result : Option Err) : f.pc = .unwind result → Moves o call s f .next s
      { f with pc := .finish result, drain := f.drain.cut Canceled, runDone := true }
  | finish (result : Option Err) : f.pc = .finish result →
      Moves o call s f .next (s.finish result) (f.goto (.returned (.looped result)))
  | stop : f.pc = .stop →
      Moves o call s f .next s.Stop.2 (f.goto (.returned (.stopped s.Stop.1)))
  | shutdownRefused (err : Err) : f.pc = .shutdownStop → s.Stop.1 = some err →
      Moves o call s f .next s.Stop.2 (f.goto (.returned (.shutdownRefused err)))
  | shutdownStop : f.pc = .shutdownStop → s.Stop.1 = none →
      Moves o call s f .next s.Stop.2 (f.goto .shutdownSelect)
  | done : f.pc = .shutdownSelect → s.done = .closed →
      Moves o call s f .done s (f.goto .shutdownLock)
  | ctxDone (err : Err) : f.pc = .shutdownSelect → f.ctx = some err →
      Moves o call s f .ctxDone s (f.goto (.returned (.shutdownCut err)))
  | shutdownLock : f.pc = .shutdownLock →
      Moves o call s f .next s (f.goto (.returned (.shutdownResult s.result)))
  | forceAbort : f.pc = .forceAbort →
      Moves o call s f .next s.forceAbort (f.goto (.returned .forced))
  | ctxEnds (err : Err) : f.ctx = none →
      Moves o call s f (.ctxEnds err) s { f with ctx := some err }
  | drainExpires : o.shutdownTimeout > 0 →
      Moves o call s f .drainExpires s { f with drain := f.drain.cut DeadlineExceeded }
  | serveCalled : f.serve = .ready →
      Moves o call s f .serveCalled s { f with serve := .inside, serves := f.serves + 1 }
  | serveReturns (out : Outcome) : f.serve = .inside →
      Moves o call s f (.serveReturns out) s { f with serve := .returned (protect "serve" out) }
  | serveSends (err : Option Err) : f.serve = .returned err →
      Moves o call s f .serveSends s { f with serve := .sent, served := some err }
  | watchForce : f.watcher = .watching → s.force = .closed →
      Moves o call s f .watchForce s { f with watcher := .gone, drain := f.drain.cut Canceled }
  | watchDrain (err : Err) : f.watcher = .watching → f.drain = .ended err →
      Moves o call s f .watchDrain s { f with watcher := .gone }

variable {f f' : Frame} {call : Call} {s : Server Call} {o : Options}

theorem next_moves {s' : Server Call} (found : next o call s f = some (s', f')) :
    Moves o call s f .next s' f' := by
  cases here : f.pc with
  | loopContext =>
      simp only [next, here] at found
      split at found
      · rename_i unset
        cases found
        exact .unset here unset
      · split at found
        · rename_i err refused
          cases found
          unfold Server.begin at refused
          split at refused
          · rename_i running
            cases refused
            exact .refused here running
          · cases refused
        · rename_i begun
          cases found
          exact .begin here begun
  | onStop errs =>
      simp only [next, here] at found
      split at found
      · cases found
        exact .onStop errs here ‹_›
      · rename_i unset
        cases found
        exact .onStopUnset errs here (by simpa using unset)
  | report err =>
      cases err with
      | none =>
          simp only [next, here] at found
          cases found
          exact .reportNone here
      | some err =>
          simp only [next, here] at found
          split at found
          · cases found
            exact .onError err here ‹_›
          · rename_i unset
            cases found
            exact .onErrorUnset err here (by simpa using unset)
  | shutdownStop =>
      simp only [next, here] at found
      split at found
      · rename_i err _ refused
        cases found
        have stopped : Moves o call s f .next s.Stop.2 _ :=
          .shutdownRefused err here (by rw [refused])
        rwa [refused] at stopped
      · rename_i accepted
        cases found
        have stopped : Moves o call s f .next s.Stop.2 _ :=
          .shutdownStop here (by rw [accepted])
        rwa [accepted] at stopped
  | onStart => simp only [next, here] at found; cases found; exact .onStart here
  | setRunning => simp only [next, here] at found; cases found; exact .setRunning here
  | goServe => simp only [next, here] at found; cases found; exact .goServe here
  | setStopping served =>
      simp only [next, here] at found; cases found; exact .setStopping served here
  | shutdown exit => simp only [next, here] at found; cases found; exact .shutdown exit here
  | abort err => simp only [next, here] at found; cases found; exact .abort err here
  | unwind result => simp only [next, here] at found; cases found; exact .unwind result here
  | finish result => simp only [next, here] at found; cases found; exact .finish result here
  | stop => simp only [next, here] at found; cases found; exact .stop here
  | shutdownLock => simp only [next, here] at found; cases found; exact .shutdownLock here
  | forceAbort => simp only [next, here] at found; cases found; exact .forceAbort here
  | _ => simp [next, here] at found

private theorem returns_moves {out : Outcome} (found : f.returns out = some f') :
    Moves o call s f (.returns out) s f' := by
  cases here : f.pc with
  | inOnStart =>
      simp only [Frame.returns, here] at found
      split at found
      · cases found
        exact .startFailed out _ here ‹_›
      · cases found
        exact .started out here ‹_›
  | inShutdown exit =>
      simp only [Frame.returns, here] at found
      cases found
      exact .shutdownReturned exit out here
  | inOnStop errs =>
      simp only [Frame.returns, here] at found
      cases found
      exact .onStopReturned errs out here
  | inOnError err =>
      simp only [Frame.returns, here] at found
      cases out with
      | returns err =>
          cases err with
          | none => cases found; exact .onErrorReturned _ here
          | some _ => cases found
      | panics value => cases found; exact .onErrorPanicked err value here
  | _ => simp [Frame.returns, here] at found

theorem effect_moves {s' : Server Call} {act : Act}
    (found : effect o call s f act = some (s', f')) :
    Moves o call s f act s' f' := by
  cases act with
  | call op =>
      cases here : f.pc with
      | idle => simp only [effect, here] at found; cases found; exact .call op here
      | _ => simp [effect, here] at found
  | next => exact next_moves found
  | returns out =>
      obtain ⟨frame, returned, same⟩ := Option.map_eq_some_iff.mp found
      cases same
      exact returns_moves returned
  | takeServed =>
      cases sent : f.served with
      | none => cases here : f.pc <;> simp [effect, here, sent] at found
      | some err =>
          cases here : f.pc with
          | select =>
              simp only [effect, here, sent] at found
              cases found
              exact .servedEarly err here sent
          | awaitServe shutdownErr =>
              simp only [effect, here, sent] at found
              cases found
              exact .servedLate shutdownErr err here sent
          | _ => simp [effect, here, sent] at found
  | stopRequested =>
      cases here : f.pc with
      | select =>
          simp only [effect, here] at found
          obtain ⟨requested, same⟩ := Option.ite_none_right_eq_some.mp found
          cases same
          exact .stopRequested here (Bool.or_eq_true _ _ ▸ requested)
      | _ => simp [effect, here] at found
  | graceOver =>
      cases here : f.pc with
      | awaitServe shutdownErr =>
          simp only [effect, here] at found
          cases found
          exact .graceOver shutdownErr here
      | _ => simp [effect, here] at found
  | done =>
      cases here : f.pc with
      | shutdownSelect =>
          simp only [effect, here] at found
          obtain ⟨finished, same⟩ := Option.ite_none_right_eq_some.mp found
          cases same
          exact .done here finished
      | _ => simp [effect, here] at found
  | ctxDone =>
      cases ended : f.ctx with
      | none => cases here : f.pc <;> simp [effect, here, ended] at found
      | some err =>
          cases here : f.pc with
          | shutdownSelect =>
              simp only [effect, here, ended] at found
              cases found
              exact .ctxDone err here ended
          | _ => simp [effect, here, ended] at found
  | ctxEnds err =>
      cases ended : f.ctx with
      | none => simp only [effect, ended] at found; cases found; exact .ctxEnds err ended
      | some _ => simp [effect, ended] at found
  | drainExpires =>
      obtain ⟨bounded, same⟩ := Option.ite_none_right_eq_some.mp found
      cases same
      exact .drainExpires bounded
  | serveCalled =>
      cases here : f.serve with
      | ready => simp only [effect, here] at found; cases found; exact .serveCalled here
      | _ => simp [effect, here] at found
  | serveReturns out =>
      cases here : f.serve with
      | inside => simp only [effect, here] at found; cases found; exact .serveReturns out here
      | _ => simp [effect, here] at found
  | serveSends =>
      cases here : f.serve with
      | returned err => simp only [effect, here] at found; cases found; exact .serveSends err here
      | _ => simp [effect, here] at found
  | watchForce =>
      cases here : f.watcher with
      | watching =>
          simp only [effect, here] at found
          obtain ⟨forced, same⟩ := Option.ite_none_right_eq_some.mp found
          cases same
          exact .watchForce here forced
      | _ => simp [effect, here] at found
  | watchDrain =>
      simp only [effect] at found
      split at found
      · rename_i err watching ended
        cases found
        exact .watchDrain err watching ended
      · cases found

end Steps

/-- All calls on one server, each with its own locals. -/
structure World (Call : Type) where
  server : Server Call
  frame : Call → Frame

section System

variable {Call : Type} [DecidableEq Call]

def World.step (o : Options) (w : World Call) (action : Call × Act) : Option (World Call) :=
  (effect o action.1 w.server (w.frame action.1) action.2).map fun e =>
    { server := e.1, frame := Function.update w.frame action.1 e.2 }

def World.start (made : Bool) : World Call where
  server := .new made
  frame := fun _ => {}

def system (Call : Type) [DecidableEq Call] (o : Options) :
    Transition.System (World Call) (Call × Act) where
  initial w := ∃ made, w = .start made
  step := World.step o

theorem World.step_of_effect {o : Options} {w : World Call} {call : Call} {act : Act}
    {s : Server Call} {f : Frame}
    (found : effect o call w.server (w.frame call) act = some (s, f)) :
    w.step o (call, act) = some { server := s, frame := Function.update w.frame call f } := by
  rw [World.step, found]
  rfl

theorem World.step_moves {o : Options} {w next : World Call} {call : Call} {act : Act}
    (stepped : w.step o (call, act) = some next) :
    ∃ s f, Moves o call w.server (w.frame call) act s f ∧
      next = { server := s, frame := Function.update w.frame call f } := by
  obtain ⟨⟨s, f⟩, found, same⟩ := Option.map_eq_some_iff.mp stepped
  exact ⟨s, f, effect_moves found, same.symm⟩

end System

end Netx.Lifecycle
