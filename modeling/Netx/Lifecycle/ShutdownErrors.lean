import Netx.Lifecycle.Contract
import Netx.Lifecycle.Group

/-!
# Errors of `Service.Shutdown`

`LoopContext` reports what `Service.Shutdown` returned, less a cancelled drain.
The filter looks at the whole tree of a group at once: one cancelled member
takes the errors of all others with it.
-/

set_option autoImplicit false

namespace Netx.Lifecycle

open Errors

namespace Course

variable {o : Options} {c : Course}

theorem is_result {target : Err} (found : is (c.err o) target = true) :
    is (c.result o) target = true := by
  cases failed : c.err o with
  | none =>
      rw [failed] at found
      cases found
  | some err =>
      rw [failed] at found
      simp only [result, failed]
      split
      · exact is_join_of_mem List.mem_cons_self found
      · exact found

private theorem shutdownReturned_mem {out : Outcome} (member : .shutdownReturned out ∈ c.events o) :
    out = c.shutdown := by
  have opening : .shutdownReturned out ∉ c.opening o := by
    unfold Course.opening
    split <;> simp
  have rest : .shutdownReturned out ∉ c.stopping o ++ c.reporting o := by
    unfold stopping reporting
    split <;> split <;> try split
    all_goals simp
  rw [events, List.append_assoc] at member
  have drained := ((List.mem_append.mp member).resolve_right rest)
  have drained := (List.mem_append.mp drained).resolve_left opening
  unfold draining at drained
  split at drained <;> simpa using drained

/-- A target shows in all that is reported exactly if it shows in the joined error. -/
theorem reported_iff {target : Err} :
    (is (c.result o) target = true ∧
      ∀ err, .onError err ∈ c.events o → Err.is target err = true) ↔
      is (c.err o) target = true := by
  constructor
  · rintro ⟨returned, handed⟩
    cases failed : c.err o with
    | none =>
        rw [result, failed] at returned
        cases returned
    | some err =>
        by_cases set : o.onError = true
        · refine handed err (List.mem_append_right _ ?_)
          simp [reporting, failed, set]
        · simpa [result, failed, set] using returned
  · intro found
    refine ⟨is_result found, fun err member => ?_⟩
    rw [onError_mem member] at found
    exact found

/-- The joined error shows what Shutdown returned unless the drain was cancelled. -/
theorem is_err_of_shutdown {target : Err} (found : is c.shutdownErr target = true)
    (kept : c.startErr o ≠ none ∨ is c.shutdownErr Canceled = false) :
    is (c.err o) target = true := by
  cases started : c.startErr o with
  | some err =>
      rw [Course.err, errs_of_failed started]
      exact is_join_of_mem (by simp) found
  | none =>
      have unfiltered : ignoreCanceled c.shutdownErr = c.shutdownErr := by
        rcases kept with failed | live
        · exact absurd started failed
        · simp [ignoreCanceled, live]
      rw [Course.err, errs_of_started started, unfiltered]
      exact is_join_of_mem (by simp) found

private theorem err_of_canceled (started : c.startErr o = none)
    (canceled : is c.shutdownErr Canceled = true) : c.err o = join [c.serveErr, c.stopErr o] := by
  have filtered : ignoreCanceled c.shutdownErr = none := if_pos canceled
  rw [Course.err, errs_of_started started, filtered]
  rfl

end Course

/-- Every error a member's `Shutdown` returned, other than a mere cancellation, shows in
what `LoopContext` returned and in what `OnError` was given. -/
def Reported (service : Service) (events : List Event) (result : Option Err) : Prop :=
  ∀ err ∈ service.errors, Err.alone Canceled err = false →
    is result err = true ∧ ∀ given, .onError given ∈ events → Err.is err given = true

section Reports

variable {Call : Type} [DecidableEq Call]

/-- The errors of the members are reported exactly if `OnStart` failed, or none of the
tree is a cancellation, or the ones that matter were also returned by Serve or `OnStop`. -/
theorem shutdown_errors_reported_iff (o : Options) {w : World Call}
    (reached : (system Call o).Reachable w) (service : Service) {call : Call}
    {result : Option Err} (here : (w.frame call).pc = .returned (.looped result))
    (shut : .shutdownReturned (.returns service.Shutdown) ∈ (w.frame call).events) :
    ∃ c : Course, (w.frame call).events = c.events o ∧ result = c.result o ∧
      (Reported service (w.frame call).events result ↔
        c.startErr o ≠ none ∨ is service.Shutdown Canceled = false ∨
          ∀ err ∈ service.errors, Err.alone Canceled err = false →
            is (join [c.serveErr, c.stopErr o]) err = true) := by
  obtain ⟨c, follows⟩ := (reachable_sound reached).follows call
  obtain ⟨rfl, events⟩ := follows.at here
  rw [events] at shut ⊢
  have returned : c.shutdownErr = service.Shutdown := by
    rw [Course.shutdownErr, ← Course.shutdownReturned_mem shut]
    rfl
  refine ⟨c, rfl, rfl, ?_⟩
  constructor
  · intro reported
    by_cases started : c.startErr o = none
    · cases canceled : is service.Shutdown Canceled with
      | false => exact .inr (.inl rfl)
      | true =>
          refine .inr (.inr fun err member kept => ?_)
          rw [← Course.err_of_canceled started (returned ▸ canceled)]
          exact Course.reported_iff.mp (reported err member kept)
    · exact .inl started
  · intro condition err member kept
    refine Course.reported_iff.mpr ?_
    have found : is c.shutdownErr err = true := returned ▸ service.is_Shutdown member
    rcases condition with failed | live | elsewhere
    · exact Course.is_err_of_shutdown found (.inl failed)
    · exact Course.is_err_of_shutdown found (.inr (returned ▸ live))
    · by_cases filtered : c.startErr o = none ∧ is c.shutdownErr Canceled = true
      · rw [Course.err_of_canceled filtered.1 filtered.2]
        exact elsewhere err member kept
      · refine Course.is_err_of_shutdown found ?_
        by_contra neither
        push Not at neither
        exact filtered ⟨neither.1, by simpa using neither.2⟩

end Reports

/-- A first signal starts the drain, a second one cuts it short, and then
`Service.Shutdown` returns. -/
def twoSignalsRun (service : Service) : List (Nat × Act) :=
  [(0, .call .loopContext), (0, .next), (0, .next), (0, .next), (0, .serveCalled),
    (0, .ctxEnds Canceled), (0, .stopRequested), (0, .next), (0, .next),
    (1, .call .forceAbort), (1, .next), (0, .watchForce),
    (0, .returns (.returns service.Shutdown)), (0, .next), (0, .serveReturns (.returns none)),
    (0, .serveSends), (0, .takeServed), (0, .next), (0, .next)]

def flushFailed : Err := .new 10 "flush failed"

/-- One member is still draining when its time is up, another fails to flush. -/
def expiredGroup : Service :=
  .group [.leaf (some DeadlineExceeded), .group [.leaf none, .leaf (some flushFailed)]]

theorem shutdown_errors_reported_iff_expired :
    ∃ (w : World Nat) (result : Option Err),
      (system Nat ⟨true, false, false, false, 30⟩).exec (.start true)
        (twoSignalsRun expiredGroup ++ [(0, .next), (0, .next)]) = some w ∧
      (w.frame 0).pc = .returned (.looped result) ∧ flushFailed ∈ expiredGroup.errors ∧
      ∃ c : Course,
        (w.frame 0).events = c.events ⟨true, false, false, false, 30⟩ ∧
        result = c.result ⟨true, false, false, false, 30⟩ ∧
        (Reported expiredGroup (w.frame 0).events result ↔
          c.startErr ⟨true, false, false, false, 30⟩ ≠ none ∨
          is expiredGroup.Shutdown Canceled = false ∨
          ∀ err ∈ expiredGroup.errors, Err.alone Canceled err = false →
            is (join [c.serveErr, c.stopErr ⟨true, false, false, false, 30⟩]) err = true) := by
  have executed : (system Nat ⟨true, false, false, false, 30⟩).exec (.start true)
      (twoSignalsRun expiredGroup ++ [(0, .next), (0, .next)]) = some _ := rfl
  exact ⟨_, _, executed, rfl, by decide, shutdown_errors_reported_iff _
    (.exec (.initial ⟨true, rfl⟩) executed) expiredGroup rfl (by decide)⟩

/-- One member is cut short by the second signal, another fails to flush. -/
def cancelledGroup : Service :=
  .group [.leaf (some Canceled), .leaf (some flushFailed)]

/-- `LoopContext` returns nil and `OnError` is not called, although a member's
`Shutdown` failed. -/
theorem flush_failure_swallowed :
    ∃ w : World Nat, (system Nat ⟨true, false, false, true, 30⟩).exec (.start true)
        (twoSignalsRun cancelledGroup ++ [(0, .next), (0, .next)]) = some w ∧
      (w.frame 0).pc = .returned (.looped none) ∧
      .shutdownReturned (.returns cancelledGroup.Shutdown) ∈ (w.frame 0).events ∧
      (w.frame 0).events.countP Event.isOnError = 0 ∧
      flushFailed ∈ cancelledGroup.errors ∧
      ¬Reported cancelledGroup (w.frame 0).events none := by
  have executed : (system Nat ⟨true, false, false, true, 30⟩).exec (.start true)
      (twoSignalsRun cancelledGroup ++ [(0, .next), (0, .next)]) = some _ := rfl
  refine ⟨_, executed, rfl, by decide, rfl, by decide, fun reported => ?_⟩
  exact absurd (reported flushFailed (by decide) (by decide)).1 (by decide)

end Netx.Lifecycle
