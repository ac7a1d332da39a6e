import Netx.Tcp.Accounts

/-!
# Progress of a connection

Whatever the others do, a connection that is not done with can take a step that
brings it closer to the end, once its handler returns.
-/

set_option autoImplicit false

namespace Netx.Tcp

open Errors Limit Transition

/-- A connection at the compare-and-swap of `Admit` belongs to a server that has one. -/
def Shared.Trying {Call : Type} (s : Shared Call) : Prop :=
  ∀ i loaded, (s.conn i).stage = .admitCas loaded → s.server.admission.isSome = true

/-- How far a connection is from its end while the rest of the server stands still.
A stale load of `Admit` costs another round of its loop. -/
def Stage.remaining {Call : Type} (s : Server Call) : Stage → Nat
  | .keying => 19
  | .perIP => 18
  | .admission => 17
  | .admitCas loaded => if s.admission.any (fun c => decide (c.inUse = loaded)) then 16 else 18
  | .naming => 15
  | .track => 14
  | .countAccepted => 13
  | .countActive => 12
  | .wgAdd => 11
  | .spawn => 10
  | .ready => 9
  | .handling => 8
  | .close => 7
  | .releaseAdmit => 6
  | .releasePerIP => 5
  | .untrack => 4
  | .uncountActive | .unkey | .refuseAdmit => 3
  | .countClosed | .countPerIP | .countRejected | .refusePerIP => 2
  | .wgDone | .closePerIP | .closeRejected | .refuseClose => 1
  | .gone _ => 0

section Advance

variable {Call : Type} {i : Nat} {s s' : Server Call} {c c' : Conn}

private theorem advance_enabled (limited : c.stage = .perIP → s.perIP.isSome = true)
    (trying : ∀ loaded, c.stage = .admitCas loaded → s.admission.isSome = true)
    (handling : c.stage ≠ .handling) (working : ∀ fate, c.stage ≠ .gone fate) :
    ∃ s' c', advance i s c = some (s', c') := by
  cases here : c.stage with
  | keying =>
      simp only [advance, here]
      split <;> exact ⟨_, _, rfl⟩
  | perIP =>
      obtain ⟨limiter, found⟩ := Option.isSome_iff_exists.mp (limited here)
      simp only [advance, here, found]
      split <;> exact ⟨_, _, rfl⟩
  | admission =>
      simp only [advance, here]
      split
      · exact ⟨_, _, rfl⟩
      · split <;> exact ⟨_, _, rfl⟩
  | admitCas loaded =>
      obtain ⟨limiter, found⟩ := Option.isSome_iff_exists.mp (trying loaded here)
      simp only [advance, here, found]
      split <;> exact ⟨_, _, rfl⟩
  | track =>
      simp only [advance, here]
      split <;> exact ⟨_, _, rfl⟩
  | handling => exact absurd here handling
  | gone fate => exact absurd here (working fate)
  | _ =>
      simp only [advance, here]
      exact ⟨_, _, rfl⟩

private theorem advance_remaining (advanced : advance i s c = some (s', c')) :
    c'.stage.remaining s' < c.stage.remaining s := by
  have moved := advance_advances advanced
  generalize c.stage = stage at moved ⊢
  cases moved with
  | keyed key keyed => cases keyed <;> exact Nat.le_of_ble_eq_true rfl
  | load limiter limited => simp [Conn.goto, Stage.remaining, limited]
  | stale limiter loaded limited other => simp [Conn.goto, Stage.remaining, limited, other]
  | admits limiter loaded limited same => simp [Stage.remaining, limited, same]
  | _ => exact Nat.le_of_ble_eq_true rfl

private theorem advance_trying (advanced : advance i s c = some (s', c')) {loaded : Int}
    (trying : c'.stage = .admitCas loaded) : s.admission.isSome = true := by
  have moved := advance_advances advanced
  generalize c.stage = stage at moved
  cases moved with
  | load limiter limited =>
      rw [limited]
      rfl
  | keyed key keyed => cases keyed <;> cases trying
  | _ => cases trying

end Advance

section Runs

variable {Call : Type} {s : Shared Call}

theorem Shared.Trying.set (trying : s.Trying) {i : Nat} {server : Server Call} {c : Conn}
    (admission : server.admission.isSome = s.server.admission.isSome)
    (here : ∀ loaded, c.stage = .admitCas loaded → s.server.admission.isSome = true) :
    ((s.withServer server).setConn i c).Trying := by
  refine (Function.forall_update_iff s.conn fun (_ : Nat) (other : Conn) => ∀ loaded,
    other.stage = .admitCas loaded → server.admission.isSome = true).mpr ⟨?_, ?_⟩
  · intro loaded stage
    rw [admission]
    exact here loaded stage
  · intro j _ loaded stage
    rw [admission]
    exact trying j loaded stage

variable [DecidableEq Call] {w next : World Call} {action : Action Call}

theorem Moves.trying {s' : Shared Call} {call : Call} {pc pc' : Pc Call} {act : Act Call}
    (trying : s.Trying) (moved : Moves call s pc act s' pc') : s'.Trying := by
  cases moved with
  | accept remote => exact trying.set (c := { remote }) rfl nofun
  | work i server c inLoop advanced =>
      exact trying.set (advance_kept advanced).admission fun _ => advance_trying advanced
  | closeConn i after rest member => exact trying.set rfl fun loaded => trying i loaded
  | _ => exact trying

theorem World.trying_step (trying : w.shared.Trying) (stepped : w.step action = some next) :
    next.shared.Trying := by
  rcases World.step_cases stepped with ⟨call, act, shared, pc, _, moved, rfl⟩ |
    ⟨i, server, c, _, advanced, rfl⟩ | ⟨i, handling, rfl⟩
  · exact moved.trying trying
  · exact trying.set (advance_kept advanced).admission fun _ => advance_trying advanced
  · exact trying.set rfl nofun

/-- The next step on a connection is enabled: by the `Serve` call that works on it, by
its goroutine, or by the return of its handler. -/
theorem World.advances {o : Options} (worked : w.Worked) (accounts : w.shared.Accounts o)
    (trying : w.shared.Trying) {i : Nat} (old : i < w.shared.accepts)
    (working : ∀ fate, (w.shared.conn i).stage ≠ .gone fate) :
    ∃ action next, w.step action = some next ∧ next.shared.accepts = w.shared.accepts ∧
      (next.shared.conn i).stage.remaining next.shared.server <
        (w.shared.conn i).stage.remaining w.shared.server := by
  by_cases handling : (w.shared.conn i).stage = .handling
  · have stepped : w.step (.conn i true) =
        some { w with shared := w.shared.setConn i ((w.shared.conn i).goto .close) } := by
      simp only [World.step, handle, handling, Option.map_some]
    refine ⟨_, _, stepped, rfl, ?_⟩
    simp [Shared.setConn, Conn.goto, handling, Stage.remaining]
  have limited : (w.shared.conn i).stage = .perIP → w.shared.server.perIP.isSome = true := by
    intro asking
    have phase := (accounts.slots i old).perIP
    rw [asking] at phase
    exact accounts.keyable i old phase.1
  obtain ⟨server, c, advanced⟩ := advance_enabled (i := i) limited (trying i) handling working
  have closer := advance_remaining advanced
  cases inLoop : (w.shared.conn i).stage.inLoop with
  | false =>
      have stepped : w.step (.conn i false) =
          some { w with shared := (w.shared.withServer server).setConn i c } := by
        simp [World.step, handle, inLoop, advanced]
      refine ⟨_, _, stepped, rfl, ?_⟩
      simp only [Shared.setConn, Function.update_self]
      exact closer
  | true =>
      obtain ⟨a, here⟩ := worked.handed i old inLoop
      have stepped : w.step (.call a .next) =
          some {
            shared := (w.shared.withServer server).setConn i c
            pc := Function.update w.pc a (c.afterWork i) } := by
        simp [World.step, effect, here, Tcp.next, inLoop, advanced]
      refine ⟨_, _, stepped, rfl, ?_⟩
      simp only [Shared.setConn, Function.update_self]
      exact closer

end Runs

end Netx.Tcp
