import Netx.Lifecycle.Course

/-!
# Calls follow courses

Whatever the other calls do, a `LoopContext` that passed `begin` stands at some
point of a course, its goroutine has called Serve at most once, and the service
context outlives `Service.Shutdown`.
-/

set_option autoImplicit false

namespace Netx.Lifecycle

open Errors

/-- The Serve goroutine was started, or the server stops without one. -/
def Pc.Launched : Pc → Prop
  | .select | .setStopping _ | .shutdown _ | .inShutdown _ | .abort _ | .awaitServe _ => True
  | .onStop _ | .inOnStop _ | .report _ | .inOnError _ | .unwind _ | .finish _ => True
  | .returned (.looped _) => True
  | _ => False

/-- How often the goroutine has called `Service.Serve`. -/
def Serving.calls : Serving → Nat
  | .absent | .ready => 0
  | .inside | .returned _ | .sent => 1

structure Frame.Follows (o : Options) (f : Frame) (c : Course) : Prop where
  along : c.Along o f.pc f.events
  launched : f.serve ≠ .absent → f.pc.Launched ∧ c.startErr o = none
  serves : f.serves = f.serve.calls
  aborted : f.runDone = true → f.pc.Drained

section Courses

variable {Call : Type} [DecidableEq Call] {o : Options} {pc : Pc} {f : Frame} {c : Course}
  {out : Outcome}

theorem Frame.Follows.at (follows : f.Follows o c) (here : f.pc = pc) : c.Along o pc f.events :=
  here ▸ follows.along

/-- A step of the call itself may settle the course further. It leaves the Serve
goroutine and the service context alone. -/
theorem Frame.Follows.move {f' : Frame} {c' : Course} (follows : f.Follows o c)
    (along : c'.Along o f'.pc f'.events)
    (started : f.pc.Launched → f'.pc.Launched ∧ c'.startErr o = c.startErr o)
    (drained : f.pc.Drained → f'.pc.Drained)
    (unchanged : f'.serve = f.serve ∧ f'.serves = f.serves ∧ f'.runDone = f.runDone) :
    f'.Follows o c' := by
  obtain ⟨serve, serves, runDone⟩ := unchanged
  constructor
  · exact along
  · intro present
    obtain ⟨launched, clean⟩ := follows.launched (serve ▸ present)
    obtain ⟨launchedNext, same⟩ := started launched
    exact ⟨launchedNext, same.trans clean⟩
  · rw [serves, serve, follows.serves]
  · intro done
    exact drained (follows.aborted (runDone ▸ done))

theorem Moves.follows {call : Call} {s s' : Server Call} {f' : Frame} {act : Act}
    (moved : Moves o call s f act s' f') (follows : f.Follows o c) : ∃ c', f'.Follows o c' := by
  cases moved with
  | call op here =>
      have none := follows.at here
      refine ⟨c, follows.move ?_ (here ▸ False.elim) (here ▸ False.elim) ⟨rfl, rfl, rfl⟩⟩
      cases op <;> exact none
  | unset here | refused here | stop here | shutdownRefused _ here | shutdownStop here
  | done here | ctxDone _ here | shutdownLock here | forceAbort here =>
      have none := follows.at here
      exact ⟨c, follows.move none (here ▸ False.elim) (here ▸ False.elim) ⟨rfl, rfl, rfl⟩⟩
  | begin here begun =>
      refine ⟨c, follows.move ?_ (here ▸ False.elim) (here ▸ False.elim) ⟨rfl, rfl, rfl⟩⟩
      have none : f.events = [] := follows.at here
      by_cases set : o.onStart = true
      · simp only [Frame.goto, if_pos set]
        exact ⟨set, none⟩
      · simp only [Frame.goto, if_neg set]
        exact ⟨if_neg set, none.trans (if_neg set).symm⟩
  | onStart here =>
      obtain ⟨set, none⟩ := follows.at here
      refine ⟨c, follows.move ⟨set, ?_⟩ (here ▸ False.elim) (here ▸ False.elim) ⟨rfl, rfl, rfl⟩⟩
      rw [Frame.log, none, List.nil_append]
  | startFailed out err here failed =>
      obtain ⟨set, events⟩ := follows.at here
      refine ⟨{ c with start := out }, follows.move ⟨(if_pos set).trans failed, ?_⟩
        (here ▸ False.elim) (here ▸ False.elim) ⟨rfl, rfl, rfl⟩⟩
      rw [Frame.log, events, Course.opening, if_pos set]
      rfl
  | started out here clean =>
      obtain ⟨set, events⟩ := follows.at here
      refine ⟨{ c with start := out }, follows.move ⟨(if_pos set).trans clean, ?_⟩
        (here ▸ False.elim) (here ▸ False.elim) ⟨rfl, rfl, rfl⟩⟩
      rw [Frame.log, events, Course.opening, if_pos set]
      rfl
  | setRunning here =>
      have opened := follows.at here
      exact ⟨c, follows.move opened (here ▸ False.elim) (here ▸ False.elim) ⟨rfl, rfl, rfl⟩⟩
  | goServe here =>
      obtain ⟨clean, events⟩ := follows.at here
      have absent : f.serve = .absent := by
        by_contra present
        exact (here ▸ (follows.launched present).1 : Pc.goServe.Launched)
      refine ⟨c, ⟨clean, events⟩, fun _ => ⟨trivial, clean⟩, ?_, ?_⟩
      · rw [follows.serves, absent]
        rfl
      · intro done
        exact (here ▸ follows.aborted done : Pc.goServe.Drained).elim
  | servedEarly err here sent =>
      obtain ⟨clean, events⟩ := follows.at here
      refine ⟨{ c with early := true, serveErr := err }, follows.move
        ⟨⟨clean, rfl, rfl⟩, ?_⟩ (fun _ => ⟨trivial, rfl⟩) (here ▸ False.elim) ⟨rfl, rfl, rfl⟩⟩
      rw [Frame.log, events]
      rfl
  | stopRequested here requested =>
      obtain ⟨clean, events⟩ := follows.at here
      refine ⟨{ c with early := false }, follows.move ⟨⟨clean, rfl⟩, ?_⟩
        (fun _ => ⟨trivial, rfl⟩) (here ▸ False.elim) ⟨rfl, rfl, rfl⟩⟩
      exact events.trans (List.append_nil _).symm
  | setStopping served here =>
      have exits := follows.at here
      exact ⟨c, follows.move exits (fun _ => ⟨trivial, rfl⟩) (here ▸ False.elim) ⟨rfl, rfl, rfl⟩⟩
  | shutdown exit here =>
      obtain ⟨exits, events⟩ := follows.at here
      refine ⟨c, follows.move ⟨exits, ?_⟩ (fun _ => ⟨trivial, rfl⟩) (here ▸ False.elim)
        ⟨rfl, rfl, rfl⟩⟩
      rw [Frame.log, events]
  | shutdownReturned exit out here =>
      obtain ⟨exits, events⟩ := follows.at here
      let c' : Course := { c with shutdown := out }
      cases exit with
      | failed err =>
          refine ⟨c', follows.move ⟨Course.errs_of_failed (c := c') exits, ?_⟩
            (fun _ => ⟨trivial, rfl⟩) (here ▸ False.elim) ⟨rfl, rfl, rfl⟩⟩
          rw [Course.draining_of_failed (c := c') exits, Frame.log, events, Exit.front,
            List.append_nil, List.append_assoc]
          rfl
      | stopping served =>
          cases served with
          | none =>
              refine ⟨c', follows.move ⟨exits, rfl, ?_⟩ (fun _ => ⟨trivial, rfl⟩)
                (here ▸ False.elim) ⟨rfl, rfl, rfl⟩⟩
              rw [Frame.log, events, Exit.front, List.append_nil, List.append_assoc]
              rfl
          | some err =>
              obtain ⟨clean, early, rfl⟩ := exits
              refine ⟨c', follows.move ⟨Course.errs_of_started (c := c') clean, ?_⟩
                (fun _ => ⟨trivial, rfl⟩) (here ▸ False.elim) ⟨rfl, rfl, rfl⟩⟩
              rw [Course.draining_of_early (c := c') clean early, Frame.log, events, Exit.front,
                List.append_assoc, List.append_assoc]
              rfl
  | abort shutdownErr here =>
      have drained := follows.at here
      exact ⟨c, drained, fun present => ⟨trivial, (follows.launched present).2⟩,
        follows.serves, fun _ => trivial⟩
  | servedLate shutdownErr err here sent =>
      obtain ⟨⟨clean, late⟩, rfl, events⟩ := follows.at here
      let c' : Course := { c with serveErr := err }
      refine ⟨c', follows.move ⟨Course.errs_of_started (c := c') clean, ?_⟩
        (fun _ => ⟨trivial, rfl⟩) (fun _ => trivial) ⟨rfl, rfl, rfl⟩⟩
      rw [Course.draining_of_late (c := c') clean late, Frame.log, events, List.append_assoc]
      rfl
  | graceOver shutdownErr here =>
      obtain ⟨⟨clean, late⟩, rfl, events⟩ := follows.at here
      let c' : Course := { c with serveErr := some ErrAbortTimeout }
      refine ⟨c', follows.move ⟨Course.errs_of_started (c := c') clean, ?_⟩
        (fun _ => ⟨trivial, rfl⟩) (fun _ => trivial) ⟨rfl, rfl, rfl⟩⟩
      rw [Course.draining_of_late (c := c') clean late, Frame.log, events, List.append_assoc]
      rfl
  | onStop errs here set =>
      obtain ⟨same, events⟩ := follows.at here
      refine ⟨c, follows.move ⟨set, same, ?_⟩ (fun _ => ⟨trivial, rfl⟩) (fun _ => trivial)
        ⟨rfl, rfl, rfl⟩⟩
      rw [Frame.log, events]
  | onStopUnset errs here unset =>
      obtain ⟨rfl, events⟩ := follows.at here
      refine ⟨c, follows.move ⟨?_, ?_⟩ (fun _ => ⟨trivial, rfl⟩) (fun _ => trivial)
        ⟨rfl, rfl, rfl⟩⟩
      · simp [Course.err, Course.stopErr, unset]
      · simp [Frame.goto, Course.stopping, unset, events]
  | onStopReturned errs out here =>
      obtain ⟨set, rfl, events⟩ := follows.at here
      let c' : Course := { c with stop := out }
      refine ⟨c', follows.move ⟨?_, ?_⟩ (fun _ => ⟨trivial, rfl⟩) (fun _ => trivial)
        ⟨rfl, rfl, rfl⟩⟩
      · rw [Course.err, Course.stopErr, if_pos set]
        rfl
      · rw [Course.stopping, if_pos set, Frame.log, events, List.append_assoc]
        rfl
  | reportNone here =>
      obtain ⟨clean, events⟩ := follows.at here
      refine ⟨c, follows.move ⟨?_, ?_⟩ (fun _ => ⟨trivial, rfl⟩) (fun _ => trivial)
        ⟨rfl, rfl, rfl⟩⟩
      · rw [Course.result, clean]
      · simp only [Frame.goto, Course.events, Course.reporting, clean, events, List.append_nil]
  | onError err here set =>
      obtain ⟨same, events⟩ := follows.at here
      refine ⟨c, follows.move ⟨set, same, ?_⟩ (fun _ => ⟨trivial, rfl⟩) (fun _ => trivial)
        ⟨rfl, rfl, rfl⟩⟩
      rw [Frame.log, events]
  | onErrorUnset err here unset =>
      obtain ⟨failed, events⟩ := follows.at here
      refine ⟨c, follows.move ⟨?_, ?_⟩ (fun _ => ⟨trivial, rfl⟩) (fun _ => trivial)
        ⟨rfl, rfl, rfl⟩⟩
      · simp only [Course.result, failed, unset]
      · simp [Frame.goto, Course.events, Course.reporting, failed, unset, events]
  | onErrorReturned err here =>
      obtain ⟨set, failed, events⟩ := follows.at here
      let c' : Course := { c with report := .returns none }
      have failedNext : c'.err o = some err := failed
      refine ⟨c', follows.move ⟨?_, ?_⟩ (fun _ => ⟨trivial, rfl⟩) (fun _ => trivial)
        ⟨rfl, rfl, rfl⟩⟩
      · simp only [Course.result, failedNext, set, c']
      · simp only [Course.events, Course.reporting, failedNext, if_pos set, Frame.log, events,
          List.append_assoc]
        rfl
  | onErrorPanicked err value here =>
      obtain ⟨set, failed, events⟩ := follows.at here
      let c' : Course := { c with report := .panics value }
      have failedNext : c'.err o = some err := failed
      refine ⟨c', follows.move ⟨?_, ?_⟩ (fun _ => ⟨trivial, rfl⟩) (fun _ => trivial)
        ⟨rfl, rfl, rfl⟩⟩
      · simp only [Course.result, failedNext, set, c']
      · simp only [Course.events, Course.reporting, failedNext, if_pos set, Frame.log, events,
          List.append_assoc]
        rfl
  | unwind result here =>
      have reported := follows.at here
      exact ⟨c, reported, fun present => ⟨trivial, (follows.launched present).2⟩,
        follows.serves, fun _ => trivial⟩
  | finish result here =>
      have reported := follows.at here
      exact ⟨c, follows.move reported (fun _ => ⟨trivial, rfl⟩) (fun _ => trivial)
        ⟨rfl, rfl, rfl⟩⟩
  | ctxEnds | drainExpires | watchForce | watchDrain =>
      exact ⟨c, follows.move follows.along (fun launched => ⟨launched, rfl⟩) id ⟨rfl, rfl, rfl⟩⟩
  | serveCalled ready =>
      refine ⟨c, follows.along, fun _ => follows.launched (by simp [ready]), ?_,
        follows.aborted⟩
      rw [follows.serves, ready]
      rfl
  | serveReturns out inside =>
      refine ⟨c, follows.along, fun _ => follows.launched (by simp [inside]), ?_,
        follows.aborted⟩
      rw [follows.serves, inside]
      rfl
  | serveSends err returned =>
      refine ⟨c, follows.along, fun _ => follows.launched (by simp [returned]), ?_,
        follows.aborted⟩
      rw [follows.serves, returned]
      rfl

theorem Course.onStartReturned_mem_opening (member : .onStartReturned out ∈ c.opening o) :
    o.onStart = true ∧ out = c.start := by
  unfold Course.opening at member
  split at member
  · rename_i set
    exact ⟨set, by simpa using member⟩
  · simp at member

theorem Course.onStartReturned_notMem (c : Course) (out : Outcome) :
    .onStartReturned out ∉ c.draining o ++ c.stopping o ++ c.reporting o := by
  have draining : .onStartReturned out ∉ c.draining o := by
    unfold Course.draining
    split <;> simp
  have stopping : .onStartReturned out ∉ c.stopping o := by
    unfold Course.stopping
    split <;> simp
  have reporting : .onStartReturned out ∉ c.reporting o := by
    unfold Course.reporting
    split
    · simp
    · split <;> simp
  simp [draining, stopping, reporting]

/-- Once the goroutine may run, `OnStart` has returned as the course says. -/
theorem Course.Along.onStartReturned {events : List Event} (along : c.Along o pc events)
    (launched : pc.Launched) (member : .onStartReturned out ∈ events) :
    o.onStart = true ∧ out = c.start := by
  refine Course.onStartReturned_mem_opening ?_
  have absent := c.onStartReturned_notMem (o := o) out
  simp only [List.mem_append, not_or] at absent
  obtain ⟨⟨draining, stopping⟩, reporting⟩ := absent
  cases pc with
  | select => exact along.2 ▸ member
  | setStopping served =>
      rw [along.2] at member
      cases served <;> simpa [Exit.front] using member
  | shutdown exit | inShutdown exit =>
      rw [along.2] at member
      rcases exit with err | (_ | err) <;> simpa [Exit.front] using member
  | abort | awaitServe =>
      rw [along.2.2] at member
      simpa using member
  | onStop | report =>
      rw [along.2] at member
      simpa [draining, stopping] using member
  | inOnStop | inOnError =>
      rw [along.2.2] at member
      simpa [draining, stopping] using member
  | unwind | finish =>
      rw [along.2] at member
      simpa [Course.events, draining, stopping, reporting] using member
  | returned reply =>
      cases reply with
      | looped =>
          rw [along.2] at member
          simpa [Course.events, draining, stopping, reporting] using member
      | _ => exact launched.elim
  | _ => exact launched.elim

theorem Course.onError_notMem (c : Course) (err : Err) :
    .onError err ∉ c.opening o ++ c.draining o ++ c.stopping o := by
  unfold Course.opening Course.draining Course.stopping
  split <;> split <;> split <;> simp

theorem Course.onError_mem {err : Err} (member : .onError err ∈ c.events o) :
    c.err o = some err := by
  have reported := (List.mem_append.mp member).resolve_left (c.onError_notMem err)
  unfold Course.reporting at reported
  split at reported
  · simp at reported
  · rename_i failed
    split at reported
    · simp only [List.mem_cons, Event.onError.injEq, reduceCtorEq, List.not_mem_nil,
        or_false] at reported
      rw [failed, reported]
    · simp at reported

/-- `OnError` is called with the error of the course, once all other hooks have returned. -/
theorem Course.Along.onError {events : List Event} {err : Err} (along : c.Along o pc events)
    (member : .onError err ∈ events) :
    c.err o = some err ∧
      c.opening o ++ c.draining o ++ c.stopping o ⊆ events := by
  have absent := c.onError_notMem (o := o) err
  cases pc with
  | inOnError given =>
      obtain ⟨_, failed, rfl⟩ := along
      have same := (List.mem_append.mp member).resolve_left absent
      cases List.mem_singleton.mp same
      exact ⟨failed, List.subset_append_left _ _⟩
  | unwind | finish =>
      obtain ⟨_, rfl⟩ := along
      exact ⟨Course.onError_mem member, List.subset_append_left _ _⟩
  | returned reply =>
      cases reply with
      | looped =>
          obtain ⟨_, rfl⟩ := along
          exact ⟨Course.onError_mem member, List.subset_append_left _ _⟩
      | _ =>
          rw [show events = [] from along] at member
          cases member
  | setStopping served =>
      obtain ⟨_, rfl⟩ := along
      cases served <;> simp_all [Exit.front]
  | shutdown exit | inShutdown exit =>
      obtain ⟨_, rfl⟩ := along
      rcases exit with failed | (_ | served) <;> simp_all [Exit.front]
  | onStart | inOnStart | setRunning | goServe | select | onStop | report =>
      obtain ⟨_, rfl⟩ := along
      simp_all
  | abort | awaitServe | inOnStop =>
      obtain ⟨_, _, rfl⟩ := along
      simp_all
  | _ =>
      rw [show events = [] from along] at member
      cases member

theorem Frame.Follows.started (follows : f.Follows o c) (called : 0 < f.serves)
    (member : .onStartReturned out ∈ f.events) : protect "start" out = none := by
  have present : f.serve ≠ .absent := by
    intro absent
    rw [follows.serves, absent] at called
    exact Nat.lt_irrefl 0 called
  obtain ⟨launched, clean⟩ := follows.launched present
  obtain ⟨set, rfl⟩ := follows.along.onStartReturned launched member
  rwa [Course.startErr, if_pos set] at clean

theorem Frame.Follows.serves_le (follows : f.Follows o c) : f.serves ≤ 1 := by
  rw [follows.serves]
  cases f.serve <;> simp [Serving.calls]

theorem Course.shutdownReturned_mem_draining (c : Course) :
    .shutdownReturned c.shutdown ∈ c.draining o := by
  unfold Course.draining
  split <;> simp

/-- The service context is cancelled only once `Service.Shutdown` has returned. -/
theorem Frame.Follows.shutdownReturned (follows : f.Follows o c) (done : f.runDone = true) :
    .shutdownReturned c.shutdown ∈ f.events := by
  have drained := follows.aborted done
  have along := follows.along
  have member := c.shutdownReturned_mem_draining (o := o)
  cases here : f.pc with
  | abort | awaitServe =>
      rw [here] at along
      rw [along.2.2]
      simp
  | onStop | report =>
      rw [here] at along
      rw [along.2]
      simp [member]
  | inOnStop | inOnError =>
      rw [here] at along
      rw [along.2.2]
      simp [member]
  | unwind | finish =>
      rw [here] at along
      rw [along.2]
      simp [Course.events, member]
  | returned reply =>
      rw [here] at along drained
      cases reply with
      | looped =>
          rw [along.2]
          simp [Course.events, member]
      | _ => exact drained.elim
  | _ =>
      rw [here] at drained
      exact drained.elim

end Courses

end Netx.Lifecycle
