import Netx.Tcp.Accounts
import Netx.Tcp.Stopping

/-!
# The end of `Serve`

When the wait of `Serve` is over every accepted connection is done with, the
handler context has been cancelled for a reason, and nothing has panicked.
-/

set_option autoImplicit false

namespace Netx.Tcp

open Errors Transition

/-- The points of `Serve` after its wait for the handlers. -/
def Pc.finished {Call : Type} : Pc Call → Bool
  | .abort _ | .unregister _ | .closeDone _ | .returned (.served _) => true
  | _ => false

structure World.Finishing {Call : Type} (w : World Call) : Prop where
  settled : ∀ a, (w.pc a).finished = true → ∀ i < w.shared.accepts,
    ∃ fate, (w.shared.conn i).stage = .gone fate
  aborted : ∀ cause, w.shared.server.aborted = some cause →
    cause.Requested w.shared ∨ cause = .served ∧ ∃ a, (w.pc a).finished = true
  done : w.shared.server.done = true → ∃ a err, w.pc a = .returned (.served err)
  sound : w.shared.server.crashed = false

section Advance

variable {Call : Type} {i : Nat} {s s' : Server Call} {c c' : Conn}

private theorem releasePerIP_crashed (keyable : c.keyed = true → s.perIP.isSome = true) :
    (releasePerIP s c).1.crashed = s.crashed := by
  unfold releasePerIP
  split
  · rename_i keyed
    split
    · rename_i unlimited
      have limited := keyable keyed
      rw [unlimited] at limited
      cases limited
    · rfl
  · rfl

private theorem releaseAdmit_crashed (s : Server Call) (c : Conn) :
    (releaseAdmit s c).1.crashed = s.crashed := by
  unfold releaseAdmit
  split <;> rfl

theorem advance_crashed (keyable : c.keyed = true → s.perIP.isSome = true)
    (counted : c.stage = .wgDone → 0 < s.wg) (advanced : advance i s c = some (s', c')) :
    s'.crashed = s.crashed := by
  have moved := advance_advances advanced
  generalize here : c.stage = stage at moved
  cases moved with
  | unkey | refusePerIP | releasePerIP => exact releasePerIP_crashed keyable
  | refuseAdmit | releaseAdmit => exact releaseAdmit_crashed s c
  | wgDone =>
      have positive := counted here
      have kept : ¬s.wg - 1 < 0 := by omega
      simp [wgDone, kept]
  | _ => rfl

theorem Stage.gone_of_uncounted {stage : Stage} (outside : stage.inLoop = false)
    (uncounted : stage.count .wg = 0) : ∃ fate, stage = .gone fate := by
  cases stage with
  | gone fate => exact ⟨fate, rfl⟩
  | ready | handling | close | releaseAdmit | releasePerIP | untrack | uncountActive
  | countClosed | wgDone => cases uncounted
  | _ => cases outside

theorem Stage.count_nonneg (stage : Stage) (counter : Counter) : 0 ≤ stage.count counter := by
  unfold Stage.count
  split <;> decide

end Advance

section Runs

variable {Call : Type} {o : Options} {w : World Call}

/-- A counter is never below the part of one connection in it. -/
theorem Shared.Accounts.count_le {s : Shared Call} (accounts : s.Accounts o) {i : Nat}
    (old : i < s.accepts) (counter : Counter) :
    (s.conn i).stage.count counter ≤ s.server.count counter := by
  have rest : 0 ≤ tally ((Finset.range s.accepts).erase i) s.conn
      fun c => c.stage.count counter := by
    exact Finset.sum_nonneg fun j _ => (s.conn j).stage.count_nonneg counter
  rw [accounts.counts counter,
    tally_split (fun c : Conn => c.stage.count counter) (Finset.mem_range.mpr old)]
  omega

/-- The wait group is at zero and the accept loop is over: nobody is left. -/
theorem World.all_gone (owned : w.Owned) (worked : w.Worked) (accounts : w.shared.Accounts o)
    {call : Call} {err : Option Err} (waiting : w.pc call = .wait err)
    (zero : w.shared.server.wg = 0) :
    ∀ i < w.shared.accepts, ∃ fate, (w.shared.conn i).stage = .gone fate := by
  intro i old
  have outside : (w.shared.conn i).stage.inLoop = false := by
    by_contra inside
    obtain ⟨a, here⟩ := worked.handed i old (by simpa using inside)
    have same : a = call := owned.owner a call (by rw [here]; rfl) (by rw [waiting]; rfl)
    rw [same, waiting] at here
    cases here
  have counted := accounts.count_le old .wg
  have total : w.shared.server.count .wg = 0 := zero
  exact Stage.gone_of_uncounted outside
    (le_antisymm (total ▸ counted) ((w.shared.conn i).stage.count_nonneg .wg))

theorem Pc.finished_owns {pc : Pc Call} (finished : pc.finished = true) :
    pc.owns = true ∧ pc ≠ .accept ∧ ∀ i, pc ≠ .working i := by
  cases pc with
  | returned reply => cases reply <;> simp_all [Pc.finished, Pc.owns]
  | _ => simp_all [Pc.finished, Pc.owns]

theorem Server.cancel_aborted {s : Server Call} {cause other : Cause Call}
    (found : (s.cancel cause).aborted = some other) : s.aborted = some other ∨ other = cause := by
  cases first : s.aborted with
  | none =>
      simp only [Server.cancel, first, Option.none_or] at found
      exact .inr (Option.some.inj found).symm
  | some earlier =>
      simp only [Server.cancel, first, Option.some_or] at found
      exact .inl found

variable [DecidableEq Call] {s s' : Shared Call} {call : Call} {pc pc' : Pc Call} {act : Act Call}

theorem Moves.finished_stays (moved : Moves call s pc act s' pc') (finished : pc.finished = true) :
    pc'.finished = true := by
  cases moved with
  | abort err | unregister err | closeDone err => rfl
  | ctxEnds _ err running => exact finished
  | _ => cases finished

/-- Only the end of the wait makes a call finished. -/
theorem Moves.finished_cases (moved : Moves call s pc act s' pc')
    (finished : pc'.finished = true) :
    pc.finished = true ∨ ∃ err, pc = .wait err ∧ s.server.wg = 0 ∧ s' = s := by
  cases moved with
  | wait err zero => exact .inr ⟨err, rfl, zero, rfl⟩
  | abort err | unregister err | closeDone err => exact .inl rfl
  | ctxEnds _ err running => exact .inl finished
  | work i server c inLoop advanced =>
      unfold Conn.afterWork at finished
      split at finished
      · cases finished
      · split at finished <;> cases finished
  | stopSkip after | stopLeave after | closed after => cases after <;> cases finished
  | _ => cases finished

theorem Moves.aborted_cases (stands : pc.Stands s call) (moved : Moves call s pc act s' pc')
    {cause : Cause Call} (found : s'.server.aborted = some cause) :
    s.server.aborted = some cause ∨ cause.Requested s ∨
      cause = .served ∧ pc'.finished = true := by
  cases moved with
  | gate stopped serving => cases found
  | work i server c inLoop advanced => exact .inl ((advance_kept advanced).aborted ▸ found)
  | abort err =>
      exact (Server.cancel_aborted found).imp_right fun same => .inr ⟨same, rfl⟩
  | abortAll after =>
      refine (Server.cancel_aborted found).imp_right fun same => .inl ?_
      rw [same]
      exact stands.2.cause
  | _ => exact .inl found

theorem Moves.done_cases (moved : Moves call s pc act s' pc') (found : s'.server.done = true) :
    s.server.done = true ∨ ∃ err, pc' = .returned (.served err) := by
  cases moved with
  | work i server c inLoop advanced => exact .inl ((advance_kept advanced).done ▸ found)
  | closeDone err => exact .inr ⟨err, rfl⟩
  | _ => exact .inl found

theorem Moves.returned_stays {reply : Runtime.Reply} (moved : Moves call s pc act s' pc')
    (returned : pc = .returned reply) : pc' = .returned reply := by
  cases moved with
  | ctxEnds _ err running => exact returned
  | _ => cases returned

theorem World.returned_stays {next : World Call} {action : Action Call} {reply : Runtime.Reply}
    (stepped : w.step action = some next) {a : Call} (returned : w.pc a = .returned reply) :
    next.pc a = .returned reply := by
  rcases World.step_cases stepped with ⟨call, act, shared, pc, _, moved, rfl⟩ |
    ⟨i, server, c, _, _, rfl⟩ | ⟨i, _, rfl⟩
  · simp only [Function.update_apply]
    split_ifs with acting
    · subst acting
      exact moved.returned_stays returned
    · exact returned
  · exact returned
  · exact returned

end Runs

end Netx.Tcp
