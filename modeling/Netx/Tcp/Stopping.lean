import Netx.Tcp.Tracking

/-!
# What a stopping call has reached

Each point of `Close`, `Shutdown` and a failing `Serve` stands for a fact about
the server. The facts survive the steps of everybody else.
-/

set_option autoImplicit false

namespace Netx.Tcp

open Errors

/-- The cause has occurred: a `Close` call was made, the context is done, or the
listener broke. The end of `Serve` is nobody's request. -/
def Cause.Requested {Call : Type} (s : Shared Call) : Cause Call → Prop
  | .close => s.closeCalled = true
  | .serveCtx serve => (s.ctx serve).isSome = true
  | .shutdownCtx shutdown => (s.ctx shutdown).isSome = true
  | .acceptError => s.broken = true
  | .served => False

def AfterStop.Requested {Call : Type} (s : Shared Call) : AfterStop Call → Prop
  | .close cause => cause.Requested s
  | .shutdown => True
  | .failed _ => s.broken = true

def AfterAbort.Requested {Call : Type} (s : Shared Call) (call : Call) : AfterAbort Call → Prop
  | .close cause => cause.Requested s
  | .expired err => s.ctx call = some err
  | .failed _ => s.broken = true

def Stopping.behindSet : Stopping → Bool
  | .enter | .set => false
  | .closeListener | .closeDraining | .leave => true

/-- Every connection that was ever tracked is closed. -/
def Shared.AllClosed {Call : Type} (s : Shared Call) : Prop :=
  ∀ i, (s.conn i).stage.everTracked = true → (s.conn i).closed = true

def Pc.Stands {Call : Type} (s : Shared Call) (call : Call) : Pc Call → Prop
  | .stopAccept stage after =>
      after.Requested s ∧ (stage.behindSet = true → s.server.stopped = true)
  | .loopDone (some _) => s.server.stopped = true ∧ s.broken = true
  | .wait (some _) | .abort (some _) | .unregister (some _) | .closeDone (some _) =>
      s.broken = true
  | .returned (.served (some _)) => s.broken = true
  | .abortAll after => s.server.stopped = true ∧ after.Requested s call
  | .closing after rest => s.server.stopped = true ∧ after.Requested s call ∧
      ∀ i, (s.conn i).stage.everTracked = true → (s.conn i).closed = true ∨ i ∈ rest
  | .readServing | .select => s.server.stopped = true
  | .returned .closed => s.server.stopped = true ∧ s.AllClosed
  | .returned (.shutdownCut err) =>
      s.server.stopped = true ∧ s.ctx call = some err ∧ s.AllClosed
  | .returned .notServing => s.server.stopped = true ∧ s.server.serving = false
  | .returned .shutdownDone => s.server.done = true
  | _ => True

section Stands

variable {Call : Type} {s s' : Shared Call} {call : Call} {pc pc' : Pc Call} {act : Act Call}

theorem Shared.Forward.ended {err : Err} {c : Call} (forward : s.Forward s')
    (ended : s.ctx c = some err) : s'.ctx c = some err :=
  (forward.ctx c (by rw [ended]; rfl)).trans ended

theorem Cause.Requested.forward {cause : Cause Call} (forward : s.Forward s')
    (requested : cause.Requested s) : cause.Requested s' := by
  cases cause with
  | close => exact forward.closeCalled requested
  | serveCtx c | shutdownCtx c =>
      rw [Cause.Requested, forward.ctx c requested]
      exact requested
  | acceptError => exact forward.broken requested
  | served => exact requested

theorem AfterStop.Requested.forward {after : AfterStop Call} (forward : s.Forward s')
    (requested : after.Requested s) : after.Requested s' := by
  cases after with
  | close cause => exact Cause.Requested.forward forward requested
  | shutdown => trivial
  | failed err => exact forward.broken requested

variable {after : AfterAbort Call}

theorem AfterAbort.Requested.forward (forward : s.Forward s') (requested : after.Requested s call) :
    after.Requested s' call := by
  cases after with
  | close cause => exact Cause.Requested.forward forward requested
  | expired err => exact forward.ended requested
  | failed err => exact forward.broken requested

theorem AfterAbort.Requested.cause (requested : after.Requested s call) :
    (after.cause call).Requested s := by
  cases after with
  | close cause => exact requested
  | expired err =>
      have ended : s.ctx call = some err := requested
      simp only [AfterAbort.cause, Cause.Requested, ended, Option.isSome_some]
  | failed err => exact requested

/-- After `stopped` is set nothing more is tracked, so all stays closed. -/
theorem Shared.AllClosed.forward (forward : s.Forward s') (stopped : s.server.stopped = true)
    (closed : s.AllClosed) : s'.AllClosed := by
  intro i ever
  have before := (forward.conn i).ever stopped ever
  exact (forward.conn i).closed before (closed i before)

theorem Pc.Stands.forward (forward : s.Forward s') (stands : pc.Stands s call) :
    pc.Stands s' call := by
  cases pc with
  | stopAccept stage after =>
      exact ⟨stands.1.forward forward, fun behind => forward.server.stopped (stands.2 behind)⟩
  | loopDone err =>
      cases err with
      | none => trivial
      | some err => exact ⟨forward.server.stopped stands.1, forward.broken stands.2⟩
  | wait err | abort err | unregister err | closeDone err =>
      cases err with
      | none => trivial
      | some err => exact forward.broken stands
  | abortAll after => exact ⟨forward.server.stopped stands.1, stands.2.forward forward⟩
  | closing after rest =>
      obtain ⟨stopped, requested, closed⟩ := stands
      refine ⟨forward.server.stopped stopped, requested.forward forward, fun i ever => ?_⟩
      have before := (forward.conn i).ever stopped ever
      exact (closed i before).imp_left ((forward.conn i).closed before)
  | readServing | select => exact forward.server.stopped stands
  | returned reply =>
      cases reply with
      | served err =>
          cases err with
          | none => trivial
          | some err => exact forward.broken stands
      | closed => exact ⟨forward.server.stopped stands.1, stands.2.forward forward stands.1⟩
      | shutdownCut err =>
          obtain ⟨stopped, ended, closed⟩ := stands
          exact ⟨forward.server.stopped stopped, forward.ended ended,
            closed.forward forward stopped⟩
      | notServing =>
          exact ⟨forward.server.stopped stands.1, forward.server.idle stands.1 stands.2⟩
      | shutdownDone => exact forward.server.done stands
      | _ => trivial
  | _ => trivial

theorem AfterStop.next_stands {after : AfterStop Call} (stopped : s.server.stopped = true)
    (requested : after.Requested s) : after.next.Stands s call := by
  cases after with
  | close cause => exact ⟨stopped, requested⟩
  | shutdown => exact stopped
  | failed err => exact ⟨stopped, requested⟩

theorem AfterAbort.next_stands (stopped : s.server.stopped = true)
    (requested : after.Requested s call) (closed : s.AllClosed) : after.next.Stands s call := by
  cases after with
  | close cause => exact ⟨stopped, closed⟩
  | expired err => exact ⟨stopped, requested, closed⟩
  | failed err => exact requested

/-- The snapshot of `conns` misses no open connection. -/
theorem Shared.Tracking.snapshot (tracking : s.Tracking) {i : Nat}
    (ever : (s.conn i).stage.everTracked = true) :
    (s.conn i).closed = true ∨ i ∈ s.server.conns := by
  rcases Stage.tracked_or_behindClose ever with tracked | behind
  · exact .inr ((tracking.conns i).mpr tracked)
  · exact .inl (tracking.closed i behind)

theorem Conn.afterWork_stands (s : Shared Call) (i : Nat) (c : Conn) :
    (c.afterWork i).Stands s call := by
  unfold Conn.afterWork
  split
  · trivial
  · split <;> trivial

variable [DecidableEq Call]

theorem Moves.stands (tracking : s.Tracking)
    (once : s.server.stopOnce = .finished → s.server.stopped = true)
    (forward : s.Forward s') (stands : pc.Stands s call) (moved : Moves call s pc act s' pc') :
    pc'.Stands s' call := by
  cases moved with
  | close => exact ⟨rfl, nofun⟩
  | shutdown => exact ⟨trivial, nofun⟩
  | fire serve armed ended => exact ⟨ended, nofun⟩
  | work i server c inLoop advanced => exact c.afterWork_stands _ i
  | permanent err running => exact ⟨rfl, nofun⟩
  | loopFailed err => exact ⟨stands.1, stands.2⟩
  | wait err zero =>
      cases err with
      | none => trivial
      | some err => exact stands
  | abort err | unregister err | closeDone err =>
      cases err with
      | none => trivial
      | some err => exact stands
  | stopEnter after unused => exact ⟨stands.1.forward forward, nofun⟩
  | stopSkip after finished => exact AfterStop.next_stands (once finished) stands.1
  | stopSet after => exact ⟨stands.1.forward forward, fun _ => rfl⟩
  | stopListener after => exact ⟨stands.1.forward forward, fun _ => stands.2 rfl⟩
  | stopDraining after => exact ⟨stands.1.forward forward, fun _ => stands.2 rfl⟩
  | stopLeave after =>
      exact AfterStop.next_stands (forward.server.stopped (stands.2 rfl))
        (stands.1.forward forward)
  | abortAll after =>
      exact ⟨stands.1, stands.2.forward forward, fun i ever => tracking.snapshot ever⟩
  | closeConn i after rest member =>
      obtain ⟨stopped, requested, closed⟩ := stands
      refine ⟨stopped, requested.forward forward, fun j ever => ?_⟩
      by_cases same : j = i
      · subst same
        simp only [Shared.setConn, Function.update_self]
        exact .inl rfl
      · simp only [Shared.setConn, Function.update_of_ne same] at ever ⊢
        exact (closed j ever).imp_right (Finset.mem_erase_of_ne_of_mem same)
  | closed after =>
      obtain ⟨stopped, requested, closed⟩ := stands
      refine AfterAbort.next_stands stopped requested fun i ever => ?_
      exact (closed i ever).resolve_right (Finset.notMem_empty i)
  | readServing serving => exact stands
  | notServing idle => exact ⟨stands, idle⟩
  | done finished => exact finished
  | ctxDone err ended => exact ⟨stands, ended⟩
  | ctxEnds _ err running => exact stands.forward forward
  | _ => trivial

theorem Moves.once (once : s.server.stopOnce = .finished → s.server.stopped = true)
    (stands : pc.Stands s call) (moved : Moves call s pc act s' pc') :
    s'.server.stopOnce = .finished → s'.server.stopped = true := by
  cases moved with
  | work i server c inLoop advanced =>
      have kept := advance_kept advanced
      simp only [Shared.setConn, Shared.withServer, kept.stopOnce, kept.stopped]
      exact once
  | stopEnter after unused =>
      intro finished
      cases finished
  | stopSet after => exact fun _ => rfl
  | stopLeave after => exact fun _ => stands.2 rfl
  | _ => exact once

/-- The listener is closed only after `stopped` is set. -/
theorem Moves.heard (heard : s.server.listening = false → s.server.stopped = true)
    (stands : pc.Stands s call) (moved : Moves call s pc act s' pc') :
    s'.server.listening = false → s'.server.stopped = true := by
  cases moved with
  | work i server c inLoop advanced =>
      have kept := advance_kept advanced
      simp only [Shared.setConn, Shared.withServer, kept.listening, kept.stopped]
      exact heard
  | stopSet after => exact fun _ => rfl
  | stopListener after => exact fun _ => stands.2 rfl
  | _ => exact heard

end Stands

end Netx.Tcp
