import Netx.Tcp.Contract

/-!
# Stopping misses no connection

What `Close`, `Shutdown` and the end of the context of `Serve` promise about the
connections, the handlers and the handler context.
-/

set_option autoImplicit false

namespace Netx.Tcp

open Errors Transition

/-- The stages from the start of the handler on. -/
def Stage.started : Stage → Bool
  | .handling | .close | .releaseAdmit | .releasePerIP | .untrack | .uncountActive => true
  | .countClosed | .wgDone | .gone .served => true
  | _ => false

/-- Every accepted connection is done with. -/
def Shared.AllGone {Call : Type} (s : Shared Call) : Prop :=
  ∀ i < s.accepts, ∃ fate, (s.conn i).stage = .gone fate

structure StopContract {Call : Type} [DecidableEq Call] (o : Options) (w : World Call) : Prop where
  /-- From `stopped` on nothing is tracked and no handler starts for a connection
  that was not; the accept loop closes such a connection. -/
  frozen : w.shared.server.stopped = true → ∀ actions later,
    (system Call o).exec w actions = some later →
    later.shared.server.conns ⊆ w.shared.server.conns ∧
    (∀ i, (later.shared.conn i).stage.started = true →
      (w.shared.conn i).stage.everTracked = true) ∧
    ∀ i < later.shared.accepts, (w.shared.conn i).stage.everTracked = false →
      (later.shared.conn i).stage.inLoop = true ∨
      (∃ fate, (later.shared.conn i).stage = .gone fate ∧ fate ≠ .served) ∧
        (later.shared.conn i).closed = true
  closed : ∀ a, w.pc a = .returned .closed → w.shared.AllClosed
  cut : ∀ a err, w.pc a = .returned (.shutdownCut err) →
    w.shared.ctx a = some err ∧ w.shared.AllClosed
  /-- `Shutdown` returns nil because `Serve` is complete. -/
  drained : ∀ a, w.pc a = .returned .shutdownDone →
    w.shared.server.done = true ∧ w.shared.AllGone ∧ w.shared.server.conns = ∅ ∧
    ∃ b err, w.pc b = .returned (.served err)
  /-- Or because no `Serve` has passed the gate and none ever will. -/
  unserved : ∀ a, w.pc a = .returned .notServing → ∀ actions later,
    (system Call o).exec w actions = some later →
    later.shared.server.serving = false ∧ ∀ b, (later.pc b).owns = false
  gate : ∀ a b, (w.pc a).owns = true → (w.pc b).owns = true → a = b
  /-- The handler context is cancelled on request or after the last handler. -/
  aborted : ∀ cause, w.shared.server.aborted = some cause →
    cause.Requested w.shared ∨ cause = .served ∧ w.shared.AllGone
  noPanic : w.shared.server.crashed = false

theorem Stage.started_tracked {stage : Stage} (started : stage.started = true) :
    stage.everTracked = true := by
  cases stage with
  | gone fate =>
      cases fate with
      | served => rfl
      | _ => cases started
  | handling | close | releaseAdmit | releasePerIP | untrack | uncountActive | countClosed
  | wgDone => rfl
  | _ => cases started

theorem Stage.untracked_cases {stage : Stage} (untracked : stage.everTracked = false) :
    stage.inLoop = true ∨ ∃ fate, stage = .gone fate ∧ fate ≠ .served := by
  cases stage with
  | gone fate =>
      cases fate with
      | served => cases untracked
      | _ => exact .inr ⟨_, rfl, nofun⟩
  | ready | handling | close | releaseAdmit | releasePerIP | untrack | uncountActive
  | countClosed | wgDone => cases untracked
  | _ => exact .inl rfl

section Runs

variable {Call : Type} {o : Options} {w : World Call}

theorem Shared.Tracking.conns_empty {s : Shared Call} (tracking : s.Tracking)
    (fresh : ∀ i, s.accepts ≤ i → (s.conn i).stage = .keying) (gone : s.AllGone) :
    s.server.conns = ∅ := by
  refine Finset.eq_empty_of_forall_notMem fun i member => ?_
  have tracked := (tracking.conns i).mp member
  by_cases old : i < s.accepts
  · obtain ⟨fate, here⟩ := gone i old
    rw [here] at tracked
    cases tracked
  · rw [fresh i (Nat.not_lt.mp old)] at tracked
    cases tracked

theorem World.Sound.drained (sound : w.Sound o) (done : w.shared.server.done = true) :
    w.shared.AllGone ∧ w.shared.server.conns = ∅ ∧ ∃ b err, w.pc b = .returned (.served err) := by
  obtain ⟨b, err, here⟩ := sound.finishing.done done
  have gone : w.shared.AllGone := sound.finishing.settled b (by rw [here]; rfl)
  exact ⟨gone, sound.tracking.conns_empty sound.worked.fresh gone, b, err, here⟩

variable [DecidableEq Call]

theorem World.Sound.frozen (sound : w.Sound o) (stopped : w.shared.server.stopped = true)
    {actions : List (Action Call)} {later : World Call}
    (executed : (system Call o).exec w actions = some later) :
    later.shared.server.conns ⊆ w.shared.server.conns ∧
    (∀ i, (later.shared.conn i).stage.started = true →
      (w.shared.conn i).stage.everTracked = true) ∧
    ∀ i < later.shared.accepts, (w.shared.conn i).stage.everTracked = false →
      (later.shared.conn i).stage.inLoop = true ∨
      (∃ fate, (later.shared.conn i).stage = .gone fate ∧ fate ≠ .served) ∧
        (later.shared.conn i).closed = true := by
  obtain ⟨last, forward⟩ := sound.exec executed
  refine ⟨forward.server.conns stopped, ?_, ?_⟩
  · exact fun i started => (forward.conn i).ever stopped (Stage.started_tracked started)
  · intro i _ untracked
    have still : (later.shared.conn i).stage.everTracked = false := by
      by_contra ever
      rw [(forward.conn i).ever stopped (by simpa using ever)] at untracked
      cases untracked
    refine (Stage.untracked_cases still).imp_right fun gone => ⟨gone, ?_⟩
    obtain ⟨fate, here, _⟩ := gone
    exact last.tracking.closed i (by rw [here]; rfl)

theorem World.Sound.unserved (sound : w.Sound o) (stopped : w.shared.server.stopped = true)
    (idle : w.shared.server.serving = false) {actions : List (Action Call)} {later : World Call}
    (executed : (system Call o).exec w actions = some later) :
    later.shared.server.serving = false ∧ ∀ b, (later.pc b).owns = false := by
  obtain ⟨last, forward⟩ := sound.exec executed
  have unused := forward.server.idle stopped idle
  refine ⟨unused, fun b => ?_⟩
  by_contra owns
  rw [last.owned.gate b (by simpa using owns)] at unused
  cases unused

/-- Stopping the server misses no connection, and the handlers run until there is a
reason for them to stop. -/
theorem stop_misses_nothing (o : Options) (reached : (system Call o).Reachable w) :
    StopContract o w := by
  have sound := reachable_sound reached
  have stands : ∀ a pc, w.pc a = pc → pc.Stands w.shared a := by
    intro a pc here
    rw [← here]
    exact sound.stands a
  constructor
  · exact fun stopped actions later executed => sound.frozen stopped executed
  · exact fun a here => (stands a _ here).2
  · exact fun a err here => (stands a _ here).2
  · intro a here
    have done : w.shared.server.done = true := stands a _ here
    exact ⟨done, sound.drained done⟩
  · intro a here actions later executed
    obtain ⟨stopped, idle⟩ := stands a _ here
    exact sound.unserved stopped idle executed
  · exact sound.owned.owner
  · intro cause found
    refine (sound.finishing.aborted cause found).imp_right ?_
    intro ⟨same, a, finished⟩
    exact ⟨same, sound.finishing.settled a finished⟩
  · exact sound.finishing.sound

end Runs

def openOptions : Options where
  admission := none
  maxConnsPerIP := 0
  ipv6PrefixBits := 0

/-- `Close` while one connection is being handled and another has just been accepted. -/
def lateRun : List (Action Nat) :=
  [.call 0 (.call .serve)] ++ .replicate 2 (.call 0 .next) ++
    [.call 0 (.accept .other)] ++ .replicate 8 (.call 0 .next) ++
    [.conn 0 false, .call 0 (.accept .other), .call 1 (.call .close)] ++
    .replicate 6 (.call 1 .next) ++ [.call 1 (.closeConn 0), .call 1 .next] ++
    .replicate 7 (.call 0 .next)

theorem stop_misses_nothing_late :
    ∃ w, (system Nat openOptions).exec (.start (.empty none none 0)) lateRun = some w ∧
      w.pc 1 = .returned .closed ∧ (w.shared.conn 0).stage = .handling ∧
      (w.shared.conn 0).closed = true ∧ (w.shared.conn 1).stage = .gone .refused ∧
      StopContract openOptions w := by
  have executed : (system Nat openOptions).exec (.start (.empty none none 0)) lateRun =
      some _ := rfl
  exact ⟨_, executed, rfl, rfl, rfl, rfl,
    stop_misses_nothing openOptions (.exec (.initial ⟨_, _, rfl, rfl, rfl⟩) executed)⟩

end Netx.Tcp
