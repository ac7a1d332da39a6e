import Netx.Tcp.Finishing
import Netx.Tcp.Progress

/-!
# The contract of the TCP server

The invariants of all layers hold together along every run. From them come the
two promises of the server: no slot is leaked or freed twice, and stopping it
misses no connection.
-/

set_option autoImplicit false

namespace Netx.Tcp

open Errors Limit Transition

structure World.Sound {Call : Type} (o : Options) (w : World Call) : Prop where
  owned : w.Owned
  worked : w.Worked
  accounts : w.shared.Accounts o
  trying : w.shared.Trying
  tracking : w.shared.Tracking
  once : w.shared.server.stopOnce = .finished → w.shared.server.stopped = true
  heard : w.shared.server.listening = false → w.shared.server.stopped = true
  stands : ∀ a, (w.pc a).Stands w.shared a
  finishing : w.Finishing

section Runs

variable {Call : Type} {o : Options} {w next : World Call}

theorem World.Sound.uncrashed_advance (sound : w.Sound o) {i : Nat} (old : i < w.shared.accepts)
    {server : Server Call} {c : Conn}
    (advanced : advance i w.shared.server (w.shared.conn i) = some (server, c)) :
    server.crashed = false := by
  refine (advance_crashed (sound.accounts.keyable i old) ?_ advanced).trans
    sound.finishing.sound
  intro here
  have counted := sound.accounts.count_le old .wg
  rw [here] at counted
  exact counted

private theorem newServer_ok {admission : Option Concurrency} {server : Server Call}
    (created : newServer true true admission o = .ok server) :
    ∃ perIP v6bits, server = .empty admission perIP v6bits ∧
      ∀ limiter, perIP = some limiter → limiter.Holds 0 ∧ limiter.max = o.maxConnsPerIP ∧
        0 < o.maxConnsPerIP := by
  unfold newServer at created
  split at created
  · cases created
  split at created
  · cases created
  split at created
  · cases created
  split at created
  · cases created
    exact ⟨_, _, rfl, fun limiter limited => PerKey.newPerKey_holds limited⟩
  · cases created
    exact ⟨_, _, rfl, nofun⟩

variable [DecidableEq Call] {action : Action Call}

theorem World.Sound.settled (sound : w.Sound o) (stepped : w.step action = some next) :
    ∀ a, (next.pc a).finished = true → ∀ i < next.shared.accepts,
      ∃ fate, (next.shared.conn i).stage = .gone fate := by
  intro a finished i old
  rcases World.step_cases stepped with ⟨call, act, shared, pc, _, moved, rfl⟩ |
    ⟨j, server, c, outside, advanced, rfl⟩ | ⟨j, handling, rfl⟩
  · obtain ⟨idle, gone⟩ : (w.pc call ≠ .accept ∧ ∀ i, w.pc call ≠ .working i) ∧
        ∀ i < w.shared.accepts, ∃ fate, (w.shared.conn i).stage = .gone fate := by
      simp only [Function.update_apply] at finished
      split_ifs at finished with acting
      · subst acting
        rcases moved.finished_cases finished with before | ⟨err, waiting, zero, _⟩
        · exact ⟨(Pc.finished_owns before).2, sound.finishing.settled a before⟩
        · refine ⟨by simp [waiting], ?_⟩
          exact World.all_gone sound.owned sound.worked sound.accounts waiting zero
      · obtain ⟨owns, left⟩ := Pc.finished_owns finished
        exact ⟨sound.owned.idle owns left, sound.finishing.settled a finished⟩
    obtain ⟨accepts, stages⟩ := moved.quiet idle
    simp only [accepts] at old
    simp only [stages]
    exact gone i old
  · obtain ⟨fate, gone⟩ := sound.finishing.settled a finished j (sound.worked.outside outside)
    simp only [advance, gone] at advanced
    cases advanced
  · have outside : (w.shared.conn j).stage.inLoop = false := by rw [handling]; rfl
    obtain ⟨fate, gone⟩ := sound.finishing.settled a finished j (sound.worked.outside outside)
    rw [gone] at handling
    cases handling

theorem World.Sound.aborted (sound : w.Sound o) (stepped : w.step action = some next)
    {cause : Cause Call} (found : next.shared.server.aborted = some cause) :
    cause.Requested next.shared ∨ cause = .served ∧ ∃ a, (next.pc a).finished = true := by
  have forward := World.forward_step sound.worked stepped
  rcases World.step_cases stepped with ⟨call, act, shared, pc, _, moved, rfl⟩ |
    ⟨j, server, c, _, advanced, rfl⟩ | ⟨j, _, rfl⟩
  · rcases moved.aborted_cases (sound.stands call) found with old | requested | ⟨same, finished⟩
    · refine (sound.finishing.aborted cause old).imp (fun before => before.forward forward) ?_
      rintro ⟨same, a, finished⟩
      refine ⟨same, a, ?_⟩
      simp only [Function.update_apply]
      split_ifs with acting
      · subst acting
        exact moved.finished_stays finished
      · exact finished
    · exact .inl (requested.forward forward)
    · exact .inr ⟨same, call, by simpa using finished⟩
  · have same := (advance_kept advanced).aborted
    exact (sound.finishing.aborted cause (same ▸ found)).imp_left fun before =>
      before.forward forward
  · exact (sound.finishing.aborted cause found).imp_left fun before => before.forward forward

theorem World.Sound.done (sound : w.Sound o) (stepped : w.step action = some next)
    (found : next.shared.server.done = true) : ∃ a err, next.pc a = .returned (.served err) := by
  rcases World.step_cases stepped with ⟨call, act, shared, pc, _, moved, rfl⟩ |
    ⟨j, server, c, _, advanced, rfl⟩ | ⟨j, _, rfl⟩
  · rcases moved.done_cases found with old | ⟨err, here⟩
    · obtain ⟨a, err, here⟩ := sound.finishing.done old
      exact ⟨a, err, World.returned_stays stepped here⟩
    · exact ⟨call, err, by simp only [Function.update_self]; exact here⟩
  · exact sound.finishing.done ((advance_kept advanced).done ▸ found)
  · exact sound.finishing.done found

theorem World.Sound.uncrashed (sound : w.Sound o) (stepped : w.step action = some next) :
    next.shared.server.crashed = false := by
  rcases World.step_cases stepped with ⟨call, act, shared, pc, _, moved, rfl⟩ |
    ⟨j, server, c, outside, advanced, rfl⟩ | ⟨j, _, rfl⟩
  · generalize here : w.pc call = point at moved
    cases moved with
    | work i server c inLoop advanced =>
        exact sound.uncrashed_advance (sound.worked.working call i here).1 advanced
    | closeDone err =>
        have first : w.shared.server.done = false := by
          by_contra again
          obtain ⟨a, reply, there⟩ := sound.finishing.done (by simpa using again)
          have same : a = call :=
            sound.owned.owner a call (by rw [there]; rfl) (by rw [here]; rfl)
          rw [same, here] at there
          cases there
        simp [Shared.withServer, Server.closeDone, first, sound.finishing.sound]
    | _ => exact sound.finishing.sound
  · exact sound.uncrashed_advance (sound.worked.outside outside) advanced
  · exact sound.finishing.sound

theorem World.Sound.step (sound : w.Sound o) (stepped : w.step action = some next) :
    next.Sound o := by
  have forward := World.forward_step sound.worked stepped
  refine ⟨sound.owned.step stepped, sound.worked.step sound.owned stepped,
    World.accounts_step sound.worked sound.accounts stepped,
    World.trying_step sound.trying stepped,
    World.tracking_step sound.worked sound.tracking stepped, ?_, ?_, ?_,
    ⟨sound.settled stepped, fun _ => sound.aborted stepped, sound.done stepped,
      sound.uncrashed stepped⟩⟩
  · rcases World.step_cases stepped with ⟨call, act, shared, pc, _, moved, rfl⟩ |
      ⟨j, server, c, _, advanced, rfl⟩ | ⟨j, _, rfl⟩
    · exact moved.once sound.once (sound.stands call)
    · have kept := advance_kept advanced
      simp only [Shared.setConn, Shared.withServer, kept.stopOnce, kept.stopped]
      exact sound.once
    · exact sound.once
  · rcases World.step_cases stepped with ⟨call, act, shared, pc, _, moved, rfl⟩ |
      ⟨j, server, c, _, advanced, rfl⟩ | ⟨j, _, rfl⟩
    · exact moved.heard sound.heard (sound.stands call)
    · have kept := advance_kept advanced
      simp only [Shared.setConn, Shared.withServer, kept.listening, kept.stopped]
      exact sound.heard
    · exact sound.heard
  · intro a
    rcases World.step_cases stepped with ⟨call, act, shared, pc, _, moved, rfl⟩ |
      ⟨j, server, c, _, advanced, rfl⟩ | ⟨j, _, rfl⟩
    · simp only [Function.update_apply]
      split_ifs with acting
      · subst acting
        exact moved.stands sound.tracking sound.once forward (sound.stands a)
      · exact (sound.stands a).forward forward
    · exact (sound.stands a).forward forward
    · exact (sound.stands a).forward forward

theorem World.Sound.start (start : (system Call o).initial w) : w.Sound o := by
  obtain ⟨admission, server, admitted, created, rfl⟩ := start
  obtain ⟨perIP, v6bits, rfl, holds⟩ := newServer_ok created
  have unused : ∀ limiter, admission = some limiter → limiter.inUse = 0 := by
    intro limiter limited
    subst limited
    cases wanted : o.admission with
    | none =>
        rw [wanted] at admitted
        cases admitted
    | some max =>
        rw [wanted] at admitted
        obtain ⟨c, made, same⟩ := Option.map_eq_some_iff.mp admitted
        cases same
        exact Concurrency.newConcurrency_inUse made
  refine ⟨⟨nofun, nofun, nofun⟩, ⟨fun _ _ => rfl, nofun, nofun⟩,
    ⟨nofun, nofun, fun counter => by cases counter <;> rfl, unused, ?_, rfl⟩,
    nofun, ⟨?_, nofun, nofun⟩, nofun, nofun, fun _ => trivial, ⟨nofun, nofun, nofun, rfl⟩⟩
  · intro limiter limited
    obtain ⟨empty, max, positive⟩ := holds limiter limited
    exact ⟨max, empty, fun k => positive.le⟩
  · intro i
    exact iff_of_false (Finset.notMem_empty i) nofun

theorem reachable_sound (reached : (system Call o).Reachable w) : w.Sound o :=
  reached.invariant (fun w => w.Sound o) (fun _ start => .start start)
    fun _ _ _ _ sound stepped => sound.step stepped

theorem World.Sound.exec (sound : w.Sound o) {actions : List (Action Call)} {final : World Call}
    (executed : (system Call o).exec w actions = some final) :
    final.Sound o ∧ w.shared.Forward final.shared := by
  refine Transition.System.exec_keeps (fun v => v.Sound o ∧ w.shared.Forward v.shared) ?_
    ⟨sound, .refl _⟩ executed
  intro state action next held stepped
  exact ⟨held.1.step stepped, held.2.trans (World.forward_step held.1.worked stepped)⟩

end Runs

end Netx.Tcp
