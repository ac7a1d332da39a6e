import Netx.Lifecycle.Server

/-!
# Ownership of the server

The first call to pass `begin` owns the server: its program point decides the
server's state from then on, and no other call passes.
-/

set_option autoImplicit false

namespace Netx.Lifecycle

open Errors

/-- The states the server may be in while a call that passed `begin` is at a point
of `LoopContext`. No state is left for the other calls. -/
def Pc.states : Pc → List State
  | .onStart | .inOnStart | .setRunning => [.starting]
  | .shutdown (.failed _) | .inShutdown (.failed _) => [.starting]
  | .goServe | .select | .setStopping _ => [.running]
  | .shutdown (.stopping _) | .inShutdown (.stopping _) | .abort _ | .awaitServe _ => [.stopping]
  | .onStop _ | .inOnStop _ | .report _ | .inOnError _ => [.starting, .stopping]
  | .unwind _ | .finish _ => [.starting, .stopping]
  | .returned (.looped _) => [.stopped]
  | _ => []

section Ownership

variable {Call : Type}

/-- The server as the call that owns it left it. -/
structure Owns (call : Call) (s : Server Call) (pc : Pc) : Prop where
  state : s.state ∈ pc.states
  stop : s.stop = some call
  done : s.done = if s.state = .stopped then .closed else .made
  result : ∀ result, pc = .returned (.looped result) → s.result = result
  whole : s.crashed = false

/-- Before the first `begin`. -/
structure Fresh (s : Server Call) : Prop where
  state : s.state = .new
  done : s.done ≠ .closed
  whole : s.crashed = false

/-- The state only moves forward, and the result of a stopped server is final. -/
structure Server.Forward (s s' : Server Call) : Prop where
  rank : s.state.rank ≤ s'.state.rank
  result : s.state = .stopped → s'.result = s.result

theorem Server.Forward.refl (s : Server Call) : s.Forward s :=
  ⟨Nat.le_refl _, fun _ => rfl⟩

variable {pc pc' : Pc} {s s' : Server Call} {f f' : Frame} {act : Act} {call : Call}

theorem Server.Forward.stopped (forward : s.Forward s') (stopped : s.state = .stopped) :
    s'.state = .stopped := by
  have rank := forward.rank
  rw [stopped] at rank
  cases later : s'.state with
  | stopped => rfl
  | _ => simp [later, State.rank] at rank

theorem Server.Forward.started (forward : s.Forward s') (started : s.state ≠ .new) :
    s'.state ≠ .new := by
  intro fresh
  have rank := forward.rank
  rw [fresh] at rank
  cases before : s.state with
  | new => exact started before
  | _ => simp [before, State.rank] at rank

theorem Server.Forward.trans {a b c : Server Call} (first : a.Forward b)
    (second : b.Forward c) : a.Forward c where
  rank := Nat.le_trans first.rank second.rank
  result stopped := (second.result (first.stopped stopped)).trans (first.result stopped)

theorem Pc.new_notMem_states (pc : Pc) : State.new ∉ pc.states := by
  unfold Pc.states
  split <;> simp

theorem Owns.state_ne_new (owns : Owns call s pc) : s.state ≠ .new := by
  intro fresh
  exact pc.new_notMem_states (fresh ▸ owns.state)

theorem Owns.at (owns : Owns call s pc) (here : pc = pc') : s.state ∈ pc'.states :=
  here ▸ owns.state

theorem Owns.goto (owns : Owns call s pc) (states : pc.states ⊆ pc'.states)
    (unfinished : ∀ result, pc' ≠ .returned (.looped result)) : Owns call s pc' where
  state := states owns.state
  stop := owns.stop
  done := owns.done
  result _ same := absurd same (unfinished _)
  whole := owns.whole

theorem Owns.setState {state : State} (owns : Owns call s pc) (live : s.state ≠ .stopped)
    (allowed : state ∈ pc'.states) (later : state ≠ .stopped)
    (unfinished : ∀ result, pc' ≠ .returned (.looped result)) :
    Owns call (s.setState state) pc' where
  state := allowed
  stop := owns.stop
  done := by
    have made := owns.done
    rw [if_neg live] at made
    exact made.trans (if_neg later).symm
  result _ same := absurd same (unfinished _)
  whole := owns.whole

theorem Owns.forceAbort (owns : Owns call s pc) :
    Owns call s.forceAbort pc ∧ s.Forward s.forceAbort := by
  unfold Server.forceAbort
  split
  · exact ⟨⟨owns.state, owns.stop, owns.done, owns.result, owns.whole⟩, Nat.le_refl _,
      fun _ => rfl⟩
  · exact ⟨owns, .refl s⟩

theorem Fresh.begin {o : Options} (fresh : Fresh s) (begun : s.begin call = .ok s')
    (first : pc = if o.onStart then .onStart else .setRunning) :
    Owns call s' pc ∧ s.Forward s' := by
  unfold Server.begin at begun
  rw [if_neg (not_not.mpr fresh.state)] at begun
  cases begun
  subst first
  refine ⟨⟨?_, rfl, ?_, ?_, fresh.whole⟩, ?_, ?_⟩
  · cases o.onStart <;> exact List.mem_singleton.mpr rfl
  · have unclosed := fresh.done
    cases made : s.done with
    | closed => exact absurd made unclosed
    | _ => rfl
  · intro result same
    cases set : o.onStart <;> simp [set] at same
  · simp [fresh.state, State.rank]
  · simp [fresh.state]

variable [DecidableEq Call] {o : Options}

theorem Server.callStop_eq (stop : s.stop = some call) :
    s.callStop = { s with stopped := Function.update s.stopped call true } := by
  simp only [Server.callStop, stop]

theorem Owns.callStop (owns : Owns call s pc) : Owns call s.callStop pc ∧ s.Forward s.callStop := by
  rw [Server.callStop_eq owns.stop]
  exact ⟨⟨owns.state, owns.stop, owns.done, owns.result, owns.whole⟩, Nat.le_refl _,
    fun _ => rfl⟩

theorem Owns.stopCalled (owns : Owns call s pc) : Owns call s.Stop.2 pc ∧ s.Forward s.Stop.2 := by
  unfold Server.Stop
  split
  · exact ⟨owns, .refl s⟩
  · exact owns.callStop

theorem Owns.finish (owns : Owns call s pc) (live : s.state ≠ .stopped) (result : Option Err) :
    Owns call (s.finish result) (.returned (.looped result)) ∧
      (s.finish result).state = .stopped := by
  have made := owns.done
  rw [if_neg live] at made
  have finished : s.finish result = { s with
      stopped := Function.update s.stopped call true
      result := result
      state := .stopped
      done := .closed } := by
    simp only [Server.finish, Server.callStop_eq owns.stop, Server.closeDone, made]
  rw [finished]
  refine ⟨⟨List.mem_singleton.mpr rfl, owns.stop, rfl, ?_, owns.whole⟩, rfl⟩
  intro other same
  cases same
  rfl

theorem Moves.owner_keeps (moved : Moves o call s f act s' f') (owns : Owns call s f.pc) :
    Owns call s' f'.pc ∧ s.Forward s' := by
  cases moved with
  | call _ here | unset here | refused here | begin here | stop here | shutdownRefused _ here
  | shutdownStop here | done here | ctxDone _ here | shutdownLock here | forceAbort here =>
      exact absurd (here ▸ owns.state) List.not_mem_nil
  | setRunning here =>
      have state := List.mem_singleton.mp (owns.at here)
      refine ⟨owns.setState (by simp [state]) (List.mem_singleton.mpr rfl) nofun nofun, ?_, ?_⟩
      · simp [Server.setState, state, State.rank]
      · simp [state]
  | setStopping served here =>
      have state := List.mem_singleton.mp (owns.at here)
      refine ⟨owns.setState (by simp [state]) (List.mem_singleton.mpr rfl) nofun nofun, ?_, ?_⟩
      · simp [Server.setState, state, State.rank]
      · simp [state]
  | finish result here =>
      have live : s.state ≠ .stopped := by
        intro stopped
        have allowed := owns.at here
        simp [stopped, Pc.states] at allowed
      obtain ⟨finished, stopped⟩ := owns.finish live result
      refine ⟨finished, ?_, fun before => absurd before live⟩
      rw [stopped]
      cases s.state <;> simp [State.rank]
  | shutdownReturned exit out here =>
      refine ⟨owns.goto ?_ ?_, .refl s⟩
      · rw [here]
        rcases exit with err | (_ | err) <;>
          simp [Frame.log, Exit.afterShutdown, Pc.states]
      · rcases exit with err | (_ | err) <;> exact nofun
  | shutdown exit here =>
      refine ⟨owns.goto ?_ nofun, .refl s⟩
      rw [here]
      cases exit <;> exact List.Subset.refl _
  | ctxEnds | drainExpires | serveCalled | serveReturns | serveSends | watchForce
  | watchDrain => exact ⟨owns, .refl s⟩
  | onStart here | started _ here | startFailed _ _ here | goServe here | servedEarly _ here
  | stopRequested here | abort _ here | servedLate _ _ here | graceOver _ here | onStop _ here
  | onStopUnset _ here | onStopReturned _ _ here | reportNone here | onError _ here
  | onErrorUnset _ here | onErrorReturned _ here | onErrorPanicked _ _ here | unwind _ here =>
      refine ⟨owns.goto ?_ nofun, .refl s⟩
      simp [here, Frame.log, Frame.goto, Pc.states]

/-- A call that did not pass `begin` can only do so, stop the server, force the
abort, or leave the server alone. -/
theorem Moves.outside (moved : Moves o call s f act s' f') (outside : f.pc.states = []) :
    f'.pc.states = [] ∧ (s' = s ∨ s' = s.Stop.2 ∨ s' = s.forceAbort) ∨
      s.begin call = .ok s' ∧ f'.pc = if o.onStart then .onStart else .setRunning := by
  cases moved with
  | call op here =>
      refine .inl ⟨?_, .inl rfl⟩
      cases op <;> rfl
  | unset | refused | done | ctxDone | shutdownLock => exact .inl ⟨rfl, .inl rfl⟩
  | begin here begun => exact .inr ⟨begun, rfl⟩
  | stop | shutdownRefused | shutdownStop => exact .inl ⟨rfl, .inr (.inl rfl)⟩
  | forceAbort => exact .inl ⟨rfl, .inr (.inr rfl)⟩
  | ctxEnds | drainExpires | serveCalled | serveReturns | serveSends | watchForce
  | watchDrain => exact .inl ⟨outside, .inl rfl⟩
  | shutdown exit here | shutdownReturned exit _ here =>
      rw [here] at outside
      cases exit <;> cases outside
  | onStart here | started _ here | startFailed _ _ here | setRunning here | goServe here
  | servedEarly _ here | stopRequested here | setStopping _ here | abort _ here
  | servedLate _ _ here | graceOver _ here | onStop _ here | onStopUnset _ here
  | onStopReturned _ _ here | reportNone here | onError _ here | onErrorUnset _ here
  | onErrorReturned _ here | onErrorPanicked _ _ here | unwind _ here | finish _ here =>
      rw [here] at outside
      cases outside

theorem Moves.other_keeps {owner : Call} (moved : Moves o call s f act s' f')
    (outside : f.pc.states = []) (owns : Owns owner s pc) :
    Owns owner s' pc ∧ s.Forward s' ∧ f'.pc.states = [] := by
  rcases moved.outside outside with ⟨outsideNext, rfl | rfl | rfl⟩ | ⟨begun, _⟩
  · exact ⟨owns, .refl _, outsideNext⟩
  · obtain ⟨kept, forward⟩ := owns.stopCalled
    exact ⟨kept, forward, outsideNext⟩
  · obtain ⟨kept, forward⟩ := owns.forceAbort
    exact ⟨kept, forward, outsideNext⟩
  · unfold Server.begin at begun
    rw [if_pos owns.state_ne_new] at begun
    cases begun

theorem Moves.fresh_keeps (moved : Moves o call s f act s' f') (outside : f.pc.states = [])
    (fresh : Fresh s) : (Fresh s' ∧ f'.pc.states = [] ∨ Owns call s' f'.pc) ∧ s.Forward s' := by
  rcases moved.outside outside with ⟨outsideNext, rfl | rfl | rfl⟩ | ⟨begun, first⟩
  · exact ⟨.inl ⟨fresh, outsideNext⟩, .refl _⟩
  · have unstopped : s.Stop = (some ErrNotRunning, s) := if_pos (.inl fresh.state)
    rw [unstopped]
    exact ⟨.inl ⟨fresh, outsideNext⟩, .refl _⟩
  · unfold Server.forceAbort
    split
    · exact ⟨.inl ⟨⟨fresh.state, fresh.done, fresh.whole⟩, outsideNext⟩, Nat.le_refl _,
        fun _ => rfl⟩
    · exact ⟨.inl ⟨fresh, outsideNext⟩, .refl _⟩
  · obtain ⟨owns, forward⟩ := fresh.begin begun first
    exact ⟨.inr owns, forward⟩

end Ownership

end Netx.Lifecycle
