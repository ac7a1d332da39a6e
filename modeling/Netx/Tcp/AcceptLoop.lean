import Netx.Tcp.Slots

/-!
# The accept loop

At most one `Serve` call is past the gate. It alone accepts connections, and the
connection it works on is the only one still in the loop.
-/

set_option autoImplicit false

namespace Netx.Tcp

open Errors

/-- The points of a `Serve` call from the gate on. -/
def Pc.owns {Call : Type} : Pc Call → Bool
  | .afterFunc | .accept | .working _ | .checkStopped _ _ | .backoff | .loopDone _ => true
  | .wait _ | .abort _ | .unregister _ | .closeDone _ | .returned (.served _) => true
  | .stopAccept _ (.failed _) | .abortAll (.failed _) | .closing (.failed _) _ => true
  | _ => false

/-- One `Serve` call at most owns the accept loop. -/
structure World.Owned {Call : Type} (w : World Call) : Prop where
  owner : ∀ a b, (w.pc a).owns = true → (w.pc b).owns = true → a = b
  gate : ∀ a, (w.pc a).owns = true → w.shared.server.serving = true
  held : w.shared.server.serving = true → ∃ a, (w.pc a).owns = true

/-- The connections in the loop are those a call is working on. -/
structure World.Worked {Call : Type} (w : World Call) : Prop where
  fresh : ∀ i, w.shared.accepts ≤ i → (w.shared.conn i).stage = .keying
  working : ∀ a i, w.pc a = .working i →
    i < w.shared.accepts ∧ (w.shared.conn i).stage.inLoop = true
  handed : ∀ i < w.shared.accepts, (w.shared.conn i).stage.inLoop = true →
    ∃ a, w.pc a = .working i

section Moves

variable {Call : Type} {s s' : Shared Call} {call : Call} {pc pc' : Pc Call} {act : Act Call}

theorem AfterStop.next_owns (stage : Stopping) (after : AfterStop Call) :
    after.next.owns = (Pc.stopAccept stage after).owns := by
  cases after <;> rfl

theorem AfterAbort.next_owns (rest : Finset Nat) (after : AfterAbort Call) :
    after.next.owns = (Pc.closing after rest).owns := by
  cases after <;> rfl

theorem Conn.afterWork_owns (i : Nat) (c : Conn) : (c.afterWork i : Pc Call).owns = true := by
  unfold Conn.afterWork
  split
  · rfl
  · split <;> rfl

theorem Conn.afterWork_working (i j : Nat) (c : Conn) :
    (c.afterWork i : Pc Call) = .working j ↔ j = i ∧ c.stage.inLoop = true := by
  unfold Conn.afterWork
  split
  · rename_i gone
    simp [gone, Stage.inLoop]
  · cases inLoop : c.stage.inLoop with
    | true => simpa using eq_comm
    | false => simp

/-- The goroutine of a connection never hands it back to the accept loop. -/
theorem advance_outside {i : Nat} {s s' : Server Call} {c c' : Conn}
    (outside : c.stage.inLoop = false) (advanced : advance i s c = some (s', c')) :
    c'.stage.inLoop = false := by
  have moved := advance_advances advanced
  generalize c.stage = stage at moved outside
  cases moved with
  | ready | close | releaseAdmit | releasePerIP | untrack | uncountActive | countClosed
  | wgDone => rfl
  | _ => cases outside

variable [DecidableEq Call]

/-- A call passes the gate, or it is on the same side of it as before. -/
theorem Moves.gate_cases (moved : Moves call s pc act s' pc') :
    (pc'.owns = pc.owns ∧ s'.server.serving = s.server.serving) ∨
      pc'.owns = true ∧ s.server.stopped = false ∧ s.server.serving = false ∧
        s'.server.serving = true := by
  cases moved with
  | gate stopped serving => exact .inr ⟨rfl, stopped, serving, rfl⟩
  | work i server c inLoop advanced =>
      exact .inl ⟨c.afterWork_owns i, (advance_kept advanced).serving⟩
  | stopSkip after finished => exact .inl ⟨after.next_owns .enter, rfl⟩
  | stopLeave after => exact .inl ⟨after.next_owns .leave, rfl⟩
  | closed after => exact .inl ⟨after.next_owns ∅, rfl⟩
  | stopEnter after | stopSet after | stopListener after | stopDraining after =>
      exact .inl ⟨by cases after <;> rfl, rfl⟩
  | abortAll after | closeConn i after => exact .inl ⟨by cases after <;> rfl, rfl⟩
  | _ => exact .inl ⟨rfl, rfl⟩

/-- A call accepts a connection, takes the one it works on further, or leaves all
connections where they are. -/
theorem Moves.loop_cases (moved : Moves call s pc act s' pc') :
    (∃ remote, pc = .accept ∧ pc' = .working s.accepts ∧
      s' = { s.setConn s.accepts { remote } with accepts := s.accepts + 1 }) ∨
    (∃ i server c, pc = .working i ∧ pc' = c.afterWork i ∧
      advance i s.server (s.conn i) = some (server, c) ∧
      s' = (s.withServer server).setConn i c) ∨
    s'.accepts = s.accepts ∧ (∀ i, (s'.conn i).stage = (s.conn i).stage) ∧
      ∀ i, pc' = .working i ↔ pc = .working i := by
  cases moved with
  | accept remote => exact .inl ⟨remote, rfl, rfl, rfl⟩
  | work i server c inLoop advanced =>
      exact .inr (.inl ⟨i, server, c, rfl, rfl, advanced, rfl⟩)
  | closeConn i after rest member =>
      refine .inr (.inr ⟨rfl, fun j => ?_, by simp⟩)
      by_cases same : j = i
      · subst same
        simp only [Shared.setConn, Function.update_self, Conn.close]
      · simp only [Shared.setConn, Function.update_of_ne same]
  | stopSkip after | stopLeave after =>
      exact .inr (.inr ⟨rfl, fun _ => rfl, by cases after <;> simp [AfterStop.next]⟩)
  | closed after =>
      exact .inr (.inr ⟨rfl, fun _ => rfl, by cases after <;> simp [AfterAbort.next]⟩)
  | ctxEnds _ err running => exact .inr (.inr ⟨rfl, fun _ => rfl, fun _ => .rfl⟩)
  | _ => exact .inr (.inr ⟨rfl, fun _ => rfl, by simp⟩)

/-- A move of a call while no connection is in the loop leaves all where they are. -/
theorem Moves.quiet (moved : Moves call s pc act s' pc')
    (idle : pc ≠ .accept ∧ ∀ i, pc ≠ .working i) :
    s'.accepts = s.accepts ∧ ∀ i, (s'.conn i).stage = (s.conn i).stage := by
  rcases moved.loop_cases with ⟨remote, here, _⟩ | ⟨i, server, c, here, _⟩ | ⟨accepts, stages, _⟩
  · exact absurd here idle.1
  · exact absurd here (idle.2 i)
  · exact ⟨accepts, stages⟩

end Moves

section Runs

variable {Call : Type} {w : World Call}

theorem World.Worked.outside (worked : w.Worked) {i : Nat}
    (outside : (w.shared.conn i).stage.inLoop = false) : i < w.shared.accepts := by
  by_contra new
  rw [worked.fresh i (Nat.not_lt.mp new)] at outside
  cases outside

variable {next : World Call} {call : Call}

/-- No connection is accepted or worked on after the loop of the one owner. -/
theorem World.Owned.idle (owned : w.Owned) {a : Call} (owns : (w.pc a).owns = true)
    (left : w.pc a ≠ .accept ∧ ∀ i, w.pc a ≠ .working i) :
    w.pc call ≠ .accept ∧ ∀ i, w.pc call ≠ .working i := by
  constructor
  · intro here
    have same : a = call := owned.owner a call owns (by rw [here]; rfl)
    exact left.1 (same ▸ here)
  · intro i here
    have same : a = call := owned.owner a call owns (by rw [here]; rfl)
    exact left.2 i (same ▸ here)

/-- Nothing enters or leaves the loop. -/
theorem World.Worked.stay (worked : w.Worked) (accepts : next.shared.accepts = w.shared.accepts)
    (stages : ∀ i, (next.shared.conn i).stage = (w.shared.conn i).stage ∨
      (w.shared.conn i).stage.inLoop = false ∧ (next.shared.conn i).stage.inLoop = false)
    (points : ∀ a i, next.pc a = .working i ↔ w.pc a = .working i) : next.Worked := by
  have inLoop : ∀ i, (next.shared.conn i).stage.inLoop = (w.shared.conn i).stage.inLoop := by
    intro i
    rcases stages i with same | ⟨before, after⟩
    · rw [same]
    · rw [before, after]
  constructor
  · intro i new
    rw [accepts] at new
    rcases stages i with same | ⟨before, _⟩
    · rw [same]
      exact worked.fresh i new
    · exact absurd (worked.outside before) (Nat.not_lt.mpr new)
  · intro a i here
    rw [accepts, inLoop]
    exact worked.working a i ((points a i).mp here)
  · intro i old stage
    rw [accepts] at old
    rw [inLoop] at stage
    obtain ⟨a, here⟩ := worked.handed i old stage
    exact ⟨a, (points a i).mpr here⟩

variable [DecidableEq Call]

theorem World.Owned.moves (owned : w.Owned) {act : Act Call} {shared : Shared Call} {pc : Pc Call}
    (moved : Moves call w.shared (w.pc call) act shared pc) :
    World.Owned { shared, pc := Function.update w.pc call pc } := by
  rcases moved.gate_cases with ⟨same, serving⟩ | ⟨owns, _, idle, serving⟩
  · have owns : ∀ a, (Function.update w.pc call pc a).owns = (w.pc a).owns := by
      intro a
      by_cases acting : a = call
      · rw [acting, Function.update_self, same]
      · rw [Function.update_of_ne acting]
    constructor
    · intro a b
      simp only [owns]
      exact owned.owner a b
    · intro a
      simp only [owns, serving]
      exact owned.gate a
    · simp only [owns, serving]
      exact owned.held
  · have alone : ∀ a, (Function.update w.pc call pc a).owns = true → a = call := by
      intro a owning
      by_contra other
      rw [Function.update_of_ne other] at owning
      rw [owned.gate a owning] at idle
      cases idle
    refine ⟨fun a b left right => (alone a left).trans (alone b right).symm,
      fun _ _ => serving, fun _ => ⟨call, ?_⟩⟩
    simp only [Function.update_self]
    exact owns

theorem World.Worked.accept (worked : w.Worked) (owned : w.Owned) (remote : Remote)
    (accepting : w.pc call = .accept) :
    World.Worked {
      shared := { w.shared.setConn w.shared.accepts { remote } with
        accepts := w.shared.accepts + 1 }
      pc := Function.update w.pc call (.working w.shared.accepts) } := by
  have others : ∀ a i, w.pc a ≠ .working i := by
    intro a i here
    have same : a = call := owned.owner a call (by rw [here]; rfl) (by rw [accepting]; rfl)
    rw [same, accepting] at here
    cases here
  have alone : ∀ i < w.shared.accepts, (w.shared.conn i).stage.inLoop = false := by
    intro i old
    by_contra inside
    obtain ⟨a, here⟩ := worked.handed i old (by simpa using inside)
    exact others a i here
  constructor
  · intro i new
    simp only [Shared.setConn, Function.update_of_ne (Nat.ne_of_gt new)]
    exact worked.fresh i (Nat.le_of_succ_le new)
  · intro a i here
    simp only [Function.update_apply] at here
    split_ifs at here with acting
    · subst acting
      cases here
      simp only [Shared.setConn, Function.update_self]
      exact ⟨Nat.lt_succ_self _, rfl⟩
    · exact absurd here (others a i)
  · intro i old inside
    by_cases new : i = w.shared.accepts
    · exact ⟨call, by rw [new]; exact Function.update_self ..⟩
    · simp only [Shared.setConn, Function.update_of_ne new] at inside
      rw [alone i (Nat.lt_of_le_of_ne (Nat.le_of_lt_succ old) new)] at inside
      cases inside

theorem World.Worked.work (worked : w.Worked) (owned : w.Owned) {i : Nat} {server : Server Call}
    {c : Conn} (here : w.pc call = .working i) :
    World.Worked {
      shared := (w.shared.withServer server).setConn i c
      pc := Function.update w.pc call (c.afterWork i) } := by
  have others : ∀ a j, w.pc a = .working j → a = call ∧ j = i := by
    intro a j there
    have same : a = call := owned.owner a call (by rw [there]; rfl) (by rw [here]; rfl)
    rw [same, here] at there
    cases there
    exact ⟨same, rfl⟩
  obtain ⟨old, _⟩ := worked.working call i here
  constructor
  · intro j new
    have apart : j ≠ i := fun same => absurd (same ▸ new) (Nat.not_le.mpr old)
    simp only [Shared.setConn, Function.update_of_ne apart]
    exact worked.fresh j new
  · intro a j there
    simp only [Function.update_apply] at there
    split_ifs at there with acting
    · subst acting
      obtain ⟨rfl, inLoop⟩ := (c.afterWork_working i j).mp there
      simp only [Shared.setConn, Function.update_self]
      exact ⟨old, inLoop⟩
    · exact absurd (others a j there).1 acting
  · intro j earlier inside
    by_cases same : j = i
    · subst same
      simp only [Shared.setConn, Function.update_self] at inside
      refine ⟨call, ?_⟩
      simp only [Function.update_self]
      exact (c.afterWork_working j j).mpr ⟨rfl, inside⟩
    · simp only [Shared.setConn, Function.update_of_ne same] at inside
      obtain ⟨a, there⟩ := worked.handed j earlier inside
      exact absurd (others a j there).2 same

theorem World.Owned.step {action : Action Call} (owned : w.Owned)
    (stepped : w.step action = some next) : next.Owned := by
  rcases World.step_cases stepped with ⟨call, act, shared, pc, _, moved, rfl⟩ |
    ⟨i, server, c, _, advanced, rfl⟩ | ⟨i, _, rfl⟩
  · exact owned.moves moved
  · have serving := (advance_kept advanced).serving
    refine ⟨owned.owner, fun a owning => serving.trans (owned.gate a owning), fun found => ?_⟩
    exact owned.held (serving ▸ found)
  · exact ⟨owned.owner, owned.gate, owned.held⟩

theorem World.Worked.step {action : Action Call} (worked : w.Worked) (owned : w.Owned)
    (stepped : w.step action = some next) : next.Worked := by
  rcases World.step_cases stepped with ⟨call, act, shared, pc, _, moved, rfl⟩ |
    ⟨i, server, c, outside, advanced, rfl⟩ | ⟨i, handling, rfl⟩
  · rcases moved.loop_cases with ⟨remote, here, rfl, rfl⟩ |
      ⟨i, server, c, here, rfl, _, rfl⟩ | ⟨accepts, stages, points⟩
    · exact worked.accept owned remote here
    · exact worked.work owned here
    · refine worked.stay accepts (fun i => .inl (stages i)) fun a i => ?_
      by_cases acting : a = call
      · subst acting
        simp only [Function.update_self]
        exact points i
      · simp only [Function.update_of_ne acting]
  · refine worked.stay rfl (fun j => ?_) fun _ _ => .rfl
    by_cases same : j = i
    · subst same
      simp only [Shared.setConn, Function.update_self]
      exact .inr ⟨outside, advance_outside outside advanced⟩
    · exact .inl (congrArg Conn.stage (Function.update_of_ne same _ _))
  · refine worked.stay rfl (fun j => ?_) fun _ _ => .rfl
    by_cases same : j = i
    · subst same
      simp only [Shared.setConn, Function.update_self, handling]
      exact .inr ⟨rfl, rfl⟩
    · exact .inl (congrArg Conn.stage (Function.update_of_ne same _ _))

end Runs

end Netx.Tcp
