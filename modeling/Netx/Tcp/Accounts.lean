import Netx.Tcp.AcceptLoop

/-!
# The accounts of the TCP server

Along every run the limiters and counters of the server are the totals over the
connections accepted so far.
-/

set_option autoImplicit false

namespace Netx.Tcp

open Errors Limit Netip Transition

/-- The connections accepted so far add up to what the server has written down. -/
structure Shared.Accounts {Call : Type} (o : Options) (s : Shared Call) : Prop where
  slots : ∀ i < s.accepts, (s.conn i).Slots s.server.admission.isSome
  keyable : ∀ i < s.accepts, (s.conn i).keyed = true → s.server.perIP.isSome = true
  counts : ∀ counter, s.server.count counter =
    tally (Finset.range s.accepts) s.conn fun c => c.stage.count counter
  admission : ∀ limiter, s.server.admission = some limiter →
    limiter.inUse = tally (Finset.range s.accepts) s.conn Conn.inUse
  perIP : ∀ limiter, s.server.perIP = some limiter → limiter.max = o.maxConnsPerIP ∧
    limiter.Holds (tally (Finset.range s.accepts) s.conn Conn.heldKeys) ∧
    ∀ k, ((tally (Finset.range s.accepts) s.conn Conn.heldKeys).count k : ℤ) ≤ o.maxConnsPerIP
  sound : s.server.overReleased = false

theorem Stage.admitSlots_le (stage : Stage) : stage.admitSlots.2 ≤ stage.admitSlots.1 := by
  cases stage with
  | gone fate => cases fate <;> decide
  | admitCas loaded => exact Nat.le_refl 0
  | _ => decide

theorem Conn.Slots.released_le {limited : Bool} {c : Conn} (slots : c.Slots limited) :
    c.released ≤ c.admitted := by
  have admission := slots.admission
  cases limited with
  | false =>
      obtain ⟨admitted, released⟩ := Prod.mk.inj admission
      rw [admitted, released]
  | true =>
      have le := c.stage.admitSlots_le
      rw [← show (c.admitted, c.released) = c.stage.admitSlots from admission] at le
      exact le

section Runs

variable {Call : Type} {o : Options} {s s' : Shared Call}

/-- What the connections other than number `i` hold of `Admit` and of the
per-address limit. -/
def Shared.others (s : Shared Call) (i : Nat) : ℤ × Multiset Addr :=
  (tally ((Finset.range s.accepts).erase i) s.conn Conn.inUse,
    tally ((Finset.range s.accepts).erase i) s.conn Conn.heldKeys)

theorem Shared.Accounts.others_nonneg (accounts : s.Accounts o) (i : Nat) :
    0 ≤ (s.others i).1 := by
  have each : ∀ j ∈ (Finset.range s.accepts).erase i, 0 ≤ (s.conn j).inUse := by
    intro j member
    have slots := accounts.slots j (Finset.mem_range.mp (Finset.mem_of_mem_erase member))
    exact Int.sub_nonneg_of_le (Int.ofNat_le.mpr slots.released_le)
  exact Finset.sum_nonneg each

variable {c : Conn} {i : Nat}

theorem Shared.Accounts.balanced (accounts : s.Accounts o) (old : i < s.accepts) :
    Balanced o.maxConnsPerIP s.server (s.conn i) (s.others i).1 (s.others i).2 := by
  have member := Finset.mem_range.mpr old
  refine ⟨accounts.slots i old, accounts.keyable i old, ?_, ?_, accounts.sound⟩
  · intro limiter limited
    exact (accounts.admission limiter limited).trans (tally_split Conn.inUse member)
  · intro limiter limited
    have held := accounts.perIP limiter limited
    rw [tally_split Conn.heldKeys member] at held
    exact held

/-- Replacing one accepted connection and the server with it. -/
theorem Shared.Accounts.set (accounts : s.Accounts o) (old : i < s.accepts) {server : Server Call}
    (kept : s.server.Kept server)
    (balanced : Balanced o.maxConnsPerIP server c (s.others i).1 (s.others i).2)
    (counts : ∀ counter, server.count counter - c.stage.count counter =
      s.server.count counter - (s.conn i).stage.count counter) :
    ((s.withServer server).setConn i c).Accounts o := by
  have member := Finset.mem_range.mpr old
  constructor
  · intro j earlier
    by_cases same : j = i
    · subst same
      simp only [Shared.setConn, Shared.withServer, Function.update_self]
      exact balanced.slots
    · simp only [Shared.setConn, Shared.withServer, Function.update_of_ne same, kept.admission]
      exact accounts.slots j earlier
  · intro j earlier
    by_cases same : j = i
    · subst same
      simp only [Shared.setConn, Shared.withServer, Function.update_self]
      exact balanced.keyable
    · simp only [Shared.setConn, Shared.withServer, Function.update_of_ne same, kept.perIP]
      exact accounts.keyable j earlier
  · intro counter
    have before := accounts.counts counter
    rw [tally_split (fun c : Conn => c.stage.count counter) member] at before
    have changed := counts counter
    simp only [Shared.setConn, Shared.withServer]
    rw [tally_update _ c member]
    omega
  · intro limiter limited
    simp only [Shared.setConn, Shared.withServer]
    rw [tally_update _ c member]
    exact balanced.admission limiter limited
  · intro limiter limited
    simp only [Shared.setConn, Shared.withServer]
    rw [tally_update _ c member]
    exact balanced.perIP limiter limited
  · exact balanced.sound

theorem Shared.Accounts.advance (accounts : s.Accounts o) (old : i < s.accepts)
    {server : Server Call} (advanced : advance i s.server (s.conn i) = some (server, c)) :
    ((s.withServer server).setConn i c).Accounts o :=
  accounts.set old (advance_kept advanced)
    (advance_balanced (accounts.others_nonneg i) (accounts.balanced old) advanced)
    (advance_count advanced)

/-- A connection may be closed, or its handler return, at any time. -/
theorem Shared.Accounts.setConn (accounts : s.Accounts o) (old : i < s.accepts)
    (slots : c.admitted = (s.conn i).admitted ∧ c.released = (s.conn i).released ∧
      c.granted = (s.conn i).granted ∧ c.returned = (s.conn i).returned ∧
      c.keyed = (s.conn i).keyed ∧ c.ipKey = (s.conn i).ipKey)
    (stage : c.stage.admitSlots = (s.conn i).stage.admitSlots ∧
      c.stage.keyPhase = (s.conn i).stage.keyPhase)
    (counters : c.stage.counters = (s.conn i).stage.counters) : (s.setConn i c).Accounts o := by
  refine accounts.set old (.refl s.server)
    ((accounts.balanced old).move ⟨rfl, rfl, rfl⟩ slots stage) fun counter => ?_
  rw [Stage.count, counters, Stage.count]

theorem Shared.Accounts.closeConn (accounts : s.Accounts o) (i : Nat) :
    (s.setConn i (s.conn i).close).Accounts o := by
  by_cases old : i < s.accepts
  · exact accounts.setConn old ⟨rfl, rfl, rfl, rfl, rfl, rfl⟩ ⟨rfl, rfl⟩ rfl
  · have outside : i ∉ Finset.range s.accepts := by simpa using old
    have earlier : ∀ j < s.accepts, (s.setConn i (s.conn i).close).conn j = s.conn j := by
      intro j before
      have apart : j ≠ i := fun same => old (by rw [← same]; exact before)
      exact Function.update_of_ne apart _ _
    constructor
    · intro j before
      rw [earlier j before]
      exact accounts.slots j before
    · intro j before
      rw [earlier j before]
      exact accounts.keyable j before
    · intro counter
      exact (accounts.counts counter).trans (tally_update_of_notMem _ _ outside).symm
    · intro limiter limited
      exact (accounts.admission limiter limited).trans (tally_update_of_notMem _ _ outside).symm
    · intro limiter limited
      simp only [Shared.setConn]
      rw [tally_update_of_notMem _ _ outside]
      exact accounts.perIP limiter limited
    · exact accounts.sound

theorem Shared.Accounts.accept (accounts : s.Accounts o) (remote : Remote) :
    Shared.Accounts o
      { s.setConn s.accepts { remote } with accepts := s.accepts + 1 } := by
  constructor
  · intro j before
    by_cases same : j = s.accepts
    · subst same
      simp only [Shared.setConn, Function.update_self]
      exact ⟨by cases s.server.admission.isSome <;> rfl, rfl, rfl, rfl⟩
    · simp only [Shared.setConn, Function.update_of_ne same]
      exact accounts.slots j (Nat.lt_of_le_of_ne (Nat.le_of_lt_succ before) same)
  · intro j before
    by_cases same : j = s.accepts
    · subst same
      simp only [Shared.setConn, Function.update_self]
      intro keyed
      cases keyed
    · simp only [Shared.setConn, Function.update_of_ne same]
      exact accounts.keyable j (Nat.lt_of_le_of_ne (Nat.le_of_lt_succ before) same)
  · intro counter
    simp only [Shared.setConn]
    rw [tally_range_succ]
    exact (accounts.counts counter).trans (zero_add _).symm
  · intro limiter limited
    simp only [Shared.setConn]
    rw [tally_range_succ]
    exact (accounts.admission limiter limited).trans (zero_add _).symm
  · intro limiter limited
    simp only [Shared.setConn]
    rw [tally_range_succ, Conn.heldKeys_of_even rfl, zero_add]
    exact accounts.perIP limiter limited
  · exact accounts.sound

/-- Steps that touch no connection, limiter or counter. -/
theorem Shared.Accounts.control (accounts : s.Accounts o)
    (conns : s'.conn = s.conn ∧ s'.accepts = s.accepts)
    (limits : s'.server.admission = s.server.admission ∧ s'.server.perIP = s.server.perIP ∧
      s'.server.overReleased = s.server.overReleased)
    (counts : ∀ counter, s'.server.count counter = s.server.count counter) :
    s'.Accounts o := by
  obtain ⟨conn, accepts⟩ := conns
  obtain ⟨admission, perIP, released⟩ := limits
  constructor <;> simp only [conn, accepts, admission, perIP, released, counts]
  · exact accounts.slots
  · exact accounts.keyable
  · exact accounts.counts
  · exact accounts.admission
  · exact accounts.perIP
  · exact accounts.sound

variable [DecidableEq Call] {call : Call} {pc pc' : Pc Call} {act : Act Call}

theorem Moves.accounts (accounts : s.Accounts o)
    (working : ∀ i, pc = .working i → i < s.accepts) (moved : Moves call s pc act s' pc') :
    s'.Accounts o := by
  cases moved with
  | accept remote => exact accounts.accept remote
  | work i server c inLoop advanced => exact accounts.advance (working i rfl) advanced
  | closeConn i after rest member => exact accounts.closeConn i
  | _ => exact accounts.control ⟨rfl, rfl⟩ ⟨rfl, rfl, rfl⟩ fun counter => by cases counter <;> rfl

theorem World.accounts_step {w next : World Call} {action : Action Call} (worked : w.Worked)
    (accounts : w.shared.Accounts o) (stepped : w.step action = some next) :
    next.shared.Accounts o := by
  rcases World.step_cases stepped with ⟨call, act, shared, pc, _, moved, rfl⟩ |
    ⟨i, server, c, outside, advanced, rfl⟩ | ⟨i, handling, rfl⟩
  · exact moved.accounts accounts fun i here => (worked.working call i here).1
  · exact accounts.advance (worked.outside outside) advanced
  · have outside : (w.shared.conn i).stage.inLoop = false := by rw [handling]; rfl
    exact accounts.setConn (worked.outside outside) ⟨rfl, rfl, rfl, rfl, rfl, rfl⟩
      (by rw [handling]; exact ⟨rfl, rfl⟩) (by rw [handling]; rfl)

end Runs

end Netx.Tcp
