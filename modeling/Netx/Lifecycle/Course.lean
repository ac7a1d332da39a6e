import Netx.Lifecycle.Server

/-!
# The course of a `LoopContext` call

What a `LoopContext` that passed `begin` does, as a function of how its hooks
ended: the hooks it called, in order, and the error it returned. Concurrency
and goroutines are out of sight here; the server refines this description.
-/

set_option autoImplicit false

namespace Netx.Lifecycle

open Errors

/-- How the hooks ended. `early` tells whether Serve returned before the stop was
taken up, and `serveErr` is its result as `LoopContext` took it. An outcome of a
hook that is not called is not used. -/
structure Course where
  start : Outcome
  early : Bool
  serveErr : Option Err
  shutdown : Outcome
  stop : Outcome
  report : Outcome

/-- What `LoopContext` has taken before it calls `Service.Shutdown`. -/
def Exit.front : Exit → List Event
  | .stopping (some err) => [.served err]
  | .stopping none | .failed _ => []

namespace Course

variable (o : Options) (c : Course)

def startErr : Option Err :=
  if o.onStart then protect "start" c.start else none

def opening : List Event :=
  if o.onStart then [.onStart, .onStartReturned c.start] else []

def shutdownErr : Option Err :=
  protect "shutdown" c.shutdown

def draining : List Event :=
  match c.startErr o, c.early with
  | some _, _ => [.shutdown, .shutdownReturned c.shutdown]
  | none, true => [.served c.serveErr, .shutdown, .shutdownReturned c.shutdown]
  | none, false => [.shutdown, .shutdownReturned c.shutdown, .served c.serveErr]

def errs : List (Option Err) :=
  match c.startErr o with
  | some err => [some err, c.shutdownErr]
  | none => [c.serveErr, ignoreCanceled c.shutdownErr]

def stopErr : Option Err :=
  if o.onStop then protect "stop" c.stop else none

def stopping : List Event :=
  if o.onStop then [.onStop, .onStopReturned c.stop] else []

/-- The error handed to `OnError`. -/
def err : Option Err :=
  join (c.errs o ++ [c.stopErr o])

def reporting : List Event :=
  match c.err o with
  | none => []
  | some err => if o.onError then [.onError err, .onErrorReturned c.report] else []

def result : Option Err :=
  match c.err o with
  | none => none
  | some err =>
      match o.onError, c.report with
      | true, .panics value => join [some err, protect "error hook" (.panics value)]
      | _, _ => some err

def events : List Event :=
  c.opening o ++ c.draining o ++ c.stopping o ++ c.reporting o

/-- The way out the course takes. -/
def Exits : Exit → Prop
  | .failed err => c.startErr o = some err
  | .stopping none => c.startErr o = none ∧ c.early = false
  | .stopping (some err) => c.startErr o = none ∧ c.early = true ∧ c.serveErr = err

/-- Where the course stands at a point of the call: the hooks called so far. -/
def Along : Pc → List Event → Prop
  | .onStart, events => o.onStart = true ∧ events = []
  | .inOnStart, events => o.onStart = true ∧ events = [.onStart]
  | .setRunning, events | .goServe, events | .select, events =>
      c.startErr o = none ∧ events = c.opening o
  | .setStopping served, events =>
      c.Exits o (.stopping served) ∧ events = c.opening o ++ Exit.front (.stopping served)
  | .shutdown exit, events => c.Exits o exit ∧ events = c.opening o ++ exit.front
  | .inShutdown exit, events =>
      c.Exits o exit ∧ events = c.opening o ++ exit.front ++ [.shutdown]
  | .abort err, events | .awaitServe err, events =>
      c.Exits o (.stopping none) ∧ c.shutdownErr = err ∧
        events = c.opening o ++ [.shutdown, .shutdownReturned c.shutdown]
  | .onStop errs, events => c.errs o = errs ∧ events = c.opening o ++ c.draining o
  | .inOnStop errs, events =>
      o.onStop = true ∧ c.errs o = errs ∧ events = c.opening o ++ c.draining o ++ [.onStop]
  | .report err, events =>
      c.err o = err ∧ events = c.opening o ++ c.draining o ++ c.stopping o
  | .inOnError err, events =>
      o.onError = true ∧ c.err o = some err ∧
        events = c.opening o ++ c.draining o ++ c.stopping o ++ [.onError err]
  | .unwind result, events | .finish result, events | .returned (.looped result), events =>
      c.result o = result ∧ events = c.events o
  | _, events => events = []

variable {o c}

theorem errs_of_failed {err : Err} (failed : c.startErr o = some err) :
    c.errs o = [some err, c.shutdownErr] := by
  simp only [errs, failed]

theorem errs_of_started (clean : c.startErr o = none) :
    c.errs o = [c.serveErr, ignoreCanceled c.shutdownErr] := by
  simp only [errs, clean]

theorem draining_of_failed {err : Err} (failed : c.startErr o = some err) :
    c.draining o = [.shutdown, .shutdownReturned c.shutdown] := by
  simp only [draining, failed]

theorem draining_of_early (clean : c.startErr o = none) (early : c.early = true) :
    c.draining o = [.served c.serveErr, .shutdown, .shutdownReturned c.shutdown] := by
  simp only [draining, clean, early]

theorem draining_of_late (clean : c.startErr o = none) (late : c.early = false) :
    c.draining o = [.shutdown, .shutdownReturned c.shutdown, .served c.serveErr] := by
  simp only [draining, clean, late]

end Course

/-- `Service.Shutdown` has returned. -/
def Pc.Drained : Pc → Prop
  | .abort _ | .awaitServe _ | .onStop _ | .inOnStop _ => True
  | .report _ | .inOnError _ | .unwind _ | .finish _ => True
  | .returned (.looped _) => True
  | _ => False

def Event.isOnError : Event → Bool
  | .onError _ => true
  | _ => false

def Precedes (first second : Event) (events : List Event) : Prop :=
  ∃ front back, events = front ++ back ∧ first ∈ front ∧ second ∈ back

/-- What a `LoopContext` that passed `begin` owes its hooks by the time it returns. -/
structure Completed (o : Options) (events : List Event) (result : Option Err) : Prop where
  shutdown_once : events.count .shutdown = 1
  after_start : o.onStart = true → ∃ out, Precedes (.onStartReturned out) .shutdown events
  onStop_once : events.count .onStop = if o.onStop then 1 else 0
  after_shutdown : o.onStop = true →
    ∃ out, Precedes (.shutdownReturned out) .onStop events
  silent : result = none ∨ o.onError = false → events.countP Event.isOnError = 0
  reported : result ≠ none → o.onError = true → events.countP Event.isOnError = 1 ∧
    ∃ err out, .onError err ∈ events ∧ .onErrorReturned out ∈ events ∧
      ((∀ value, out ≠ .panics value) ∧ result = some err ∨
        ∃ value, out = .panics value ∧ result = join [some err, protect "error hook" out])

namespace Course

variable (o : Options) (c : Course)

private theorem counts_opening :
    (c.opening o).count .shutdown = 0 ∧ (c.opening o).count .onStop = 0 ∧
    (c.opening o).countP Event.isOnError = 0 := by
  unfold opening
  split <;> exact ⟨rfl, rfl, rfl⟩

private theorem counts_draining : (c.draining o).count .shutdown = 1 ∧
    (c.draining o).count .onStop = 0 ∧ (c.draining o).countP Event.isOnError = 0 := by
  unfold draining
  split <;> exact ⟨rfl, rfl, rfl⟩

private theorem counts_stopping : (c.stopping o).count .shutdown = 0 ∧
    (c.stopping o).count .onStop = (if o.onStop then 1 else 0) ∧
    (c.stopping o).countP Event.isOnError = 0 := by
  unfold stopping
  split <;> exact ⟨rfl, rfl, rfl⟩

private theorem counts_reporting : (c.reporting o).count .shutdown = 0 ∧
    (c.reporting o).count .onStop = 0 := by
  unfold reporting
  split
  · exact ⟨rfl, rfl⟩
  · split <;> exact ⟨rfl, rfl⟩

theorem result_eq_none : c.result o = none ↔ c.err o = none := by
  unfold result
  split
  · rename_i clean
    exact iff_of_true rfl clean
  · rename_i err failed
    refine iff_of_false ?_ (by simp [failed])
    split <;> exact nofun

private theorem start_precedes (set : o.onStart = true) :
    Precedes (.onStartReturned c.start) .shutdown (c.events o) := by
  refine ⟨c.opening o, c.draining o ++ c.stopping o ++ c.reporting o, ?_, ?_, ?_⟩
  · simp only [events, List.append_assoc]
  · simp [opening, set]
  · refine List.mem_append_left _ (List.mem_append_left _ ?_)
    unfold draining
    split <;> simp

private theorem shutdown_precedes (set : o.onStop = true) :
    Precedes (.shutdownReturned c.shutdown) .onStop (c.events o) := by
  refine ⟨c.opening o ++ c.draining o, c.stopping o ++ c.reporting o, ?_, ?_, ?_⟩
  · simp only [events, List.append_assoc]
  · refine List.mem_append_right _ ?_
    unfold draining
    split <;> simp
  · simp [stopping, set]

private theorem countP_onError : (c.events o).countP Event.isOnError =
    (c.reporting o).countP Event.isOnError := by
  obtain ⟨_, _, opening⟩ := c.counts_opening o
  obtain ⟨_, _, draining⟩ := c.counts_draining o
  obtain ⟨_, _, stopping⟩ := c.counts_stopping o
  simp only [events, List.countP_append, opening, draining, stopping, Nat.zero_add]

theorem completed : Completed o (c.events o) (c.result o) := by
  obtain ⟨openingShutdown, openingStop, _⟩ := c.counts_opening o
  obtain ⟨drainingShutdown, drainingStop, _⟩ := c.counts_draining o
  obtain ⟨stoppingShutdown, stoppingStop, _⟩ := c.counts_stopping o
  obtain ⟨reportingShutdown, reportingStop⟩ := c.counts_reporting o
  constructor
  · simp only [events, List.count_append, openingShutdown, drainingShutdown,
      stoppingShutdown, reportingShutdown]
  · intro set
    exact ⟨c.start, c.start_precedes o set⟩
  · simp only [events, List.count_append, openingStop, drainingStop, stoppingStop,
      reportingStop, Nat.zero_add, Nat.add_zero]
  · intro set
    exact ⟨c.shutdown, c.shutdown_precedes o set⟩
  · intro silent
    rw [countP_onError, reporting]
    rcases silent with clean | unset
    · rw [(c.result_eq_none o).mp clean]
      rfl
    · cases c.err o <;> simp [unset]
  · intro failed set
    cases found : c.err o with
    | none => exact absurd ((c.result_eq_none o).mpr found) failed
    | some err =>
        have reported : c.reporting o = [.onError err, .onErrorReturned c.report] := by
          simp only [reporting, found, if_pos set]
        have member : ∀ event ∈ c.reporting o, event ∈ c.events o := fun _ =>
          List.mem_append_right _
        refine ⟨by rw [countP_onError, reported]; rfl, err, c.report,
          member _ (by simp [reported]), member _ (by simp [reported]), ?_⟩
        cases ended : c.report with
        | returns => exact .inl ⟨nofun, by simp only [result, found, set, ended]⟩
        | panics value => exact .inr ⟨value, rfl, by simp only [result, found, set, ended]⟩

end Course

end Netx.Lifecycle
