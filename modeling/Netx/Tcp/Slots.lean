import Netx.Tcp.Server
import Netx.Transition.Tally

/-!
# Admission slots and counters of the TCP server

The stage of a connection tells which counters it was added to and which slots
it holds. One step on a connection keeps the books of the server balanced
against those of all other connections.
-/

set_option autoImplicit false

namespace Netx.Tcp

open Errors Limit Netip Transition

inductive Counter where
  | accepted
  | rejected
  | rejectedPerIP
  | active
  | closed
  | wg
  deriving DecidableEq, Repr

def Server.count {Call : Type} (s : Server Call) : Counter → ℤ
  | .accepted => s.accepted
  | .rejected => s.rejected
  | .rejectedPerIP => s.rejectedPerIP
  | .active => s.active
  | .closed => s.closed
  | .wg => s.wg

/-- The counters a connection was added to and not yet taken from again. -/
def Stage.counters : Stage → List Counter
  | .closePerIP | .gone .rejectedPerIP => [.rejectedPerIP]
  | .closeRejected | .gone .rejected => [.rejected]
  | .countActive => [.accepted]
  | .wgAdd => [.accepted, .active]
  | .spawn | .ready | .handling | .close => [.accepted, .active, .wg]
  | .releaseAdmit | .releasePerIP | .untrack | .uncountActive => [.accepted, .active, .wg]
  | .countClosed => [.accepted, .wg]
  | .wgDone => [.accepted, .wg, .closed]
  | .gone .served => [.accepted, .closed]
  | _ => []

def Stage.count (stage : Stage) (counter : Counter) : ℤ :=
  if counter ∈ stage.counters then 1 else 0

/-- The `Admit` slots given to a connection and given back by it, under a limiter. -/
def Stage.admitSlots : Stage → Nat × Nat
  | .naming | .track | .refuseAdmit | .countAccepted | .countActive | .wgAdd => (1, 0)
  | .spawn | .ready | .handling | .close | .releaseAdmit => (1, 0)
  | .refusePerIP | .refuseClose | .gone .refused => (1, 1)
  | .releasePerIP | .untrack | .uncountActive | .countClosed | .wgDone => (1, 1)
  | .gone .served => (1, 1)
  | _ => (0, 0)

/-- The per-address slot of a connection: not asked for, being asked for, held by a
keyed connection, or behind it. -/
inductive KeyPhase where
  | before
  | asking
  | held
  | after

def Stage.keyPhase : Stage → KeyPhase
  | .keying => .before
  | .perIP => .asking
  | .countPerIP | .closePerIP | .countRejected | .closeRejected | .refuseClose => .after
  | .untrack | .uncountActive | .countClosed | .wgDone | .gone _ => .after
  | _ => .held

structure Conn.Slots (limited : Bool) (c : Conn) : Prop where
  admission : (c.admitted, c.released) = if limited then c.stage.admitSlots else (0, 0)
  perIP : match c.stage.keyPhase with
    | .before => c.keyed = false ∧ c.granted = 0 ∧ c.returned = 0
    | .asking => c.keyed = true ∧ c.granted = 0 ∧ c.returned = 0
    | .held => c.granted = (if c.keyed then 1 else 0) ∧ c.returned = 0
    | .after => c.keyed = false ∧ c.returned = c.granted ∧ c.granted ≤ 1

def Conn.inUse (c : Conn) : ℤ :=
  (c.admitted : ℤ) - c.released

def Conn.heldKeys (c : Conn) : Multiset Addr :=
  if c.returned < c.granted then {c.ipKey} else 0

theorem Conn.heldKeys_of_even {c : Conn} (even : c.returned = c.granted) : c.heldKeys = 0 := by
  simp [Conn.heldKeys, even]

/-- The books of the server with one connection set apart from the rest, who have
`others` slots of `Admit` and hold the per-address slots `keys`, at most `max` for
each address. -/
structure Balanced {Call : Type} (max : ℤ) (s : Server Call) (c : Conn) (others : ℤ)
    (keys : Multiset Addr) : Prop where
  slots : c.Slots s.admission.isSome
  keyable : c.keyed = true → s.perIP.isSome = true
  admission : ∀ limiter, s.admission = some limiter → limiter.inUse = c.inUse + others
  perIP : ∀ limiter, s.perIP = some limiter → limiter.max = max ∧
    limiter.Holds (c.heldKeys + keys) ∧ ∀ k, ((c.heldKeys + keys).count k : ℤ) ≤ max
  sound : s.overReleased = false

section Advance

variable {Call : Type} {max : ℤ}

private theorem releaseAdmit_count (s : Server Call) (c : Conn) (counter : Counter) :
    (releaseAdmit s c).1.count counter = s.count counter ∧
      (releaseAdmit s c).2.stage = c.stage := by
  unfold releaseAdmit
  split
  · exact ⟨rfl, rfl⟩
  · cases counter <;> exact ⟨rfl, rfl⟩

private theorem releasePerIP_count (s : Server Call) (c : Conn) (counter : Counter) :
    (releasePerIP s c).1.count counter = s.count counter ∧
      (releasePerIP s c).2.stage = c.stage := by
  unfold releasePerIP
  split
  · split <;> cases counter <;> exact ⟨rfl, rfl⟩
  · exact ⟨rfl, rfl⟩

/-- What no step on a connection changes in the server. -/
structure Server.Kept (s s' : Server Call) : Prop where
  serving : s'.serving = s.serving
  stopped : s'.stopped = s.stopped
  stopOnce : s'.stopOnce = s.stopOnce
  listening : s'.listening = s.listening
  draining : s'.draining = s.draining
  done : s'.done = s.done
  aborted : s'.aborted = s.aborted
  admission : s'.admission.isSome = s.admission.isSome
  perIP : s'.perIP.isSome = s.perIP.isSome

theorem Server.Kept.refl (s : Server Call) : s.Kept s :=
  ⟨rfl, rfl, rfl, rfl, rfl, rfl, rfl, rfl, rfl⟩

private theorem releaseAdmit_kept (s : Server Call) (c : Conn) : s.Kept (releaseAdmit s c).1 := by
  unfold releaseAdmit
  split
  · exact .refl s
  · rename_i limited
    exact ⟨rfl, rfl, rfl, rfl, rfl, rfl, rfl, by rw [limited]; rfl, rfl⟩

private theorem releasePerIP_kept (s : Server Call) (c : Conn) : s.Kept (releasePerIP s c).1 := by
  unfold releasePerIP
  split
  · split
    · exact ⟨rfl, rfl, rfl, rfl, rfl, rfl, rfl, rfl, rfl⟩
    · rename_i limited
      exact ⟨rfl, rfl, rfl, rfl, rfl, rfl, rfl, rfl, by rw [limited]; rfl⟩
  · exact .refl s

variable {s s' : Server Call} {c c' : Conn} {keys : Multiset Addr} {others : ℤ} {i : Nat}

theorem advance_kept (advanced : advance i s c = some (s', c')) : s.Kept s' := by
  have moved := advance_advances advanced
  generalize c.stage = stage at moved
  cases moved with
  | underPerIP limiter next limited =>
      exact ⟨rfl, rfl, rfl, rfl, rfl, rfl, rfl, rfl, by rw [limited]; rfl⟩
  | admits limiter loaded limited =>
      exact ⟨rfl, rfl, rfl, rfl, rfl, rfl, rfl, by rw [limited]; rfl, rfl⟩
  | unkey | refusePerIP | releasePerIP => exact releasePerIP_kept s c
  | refuseAdmit | releaseAdmit => exact releaseAdmit_kept s c
  | _ => exact ⟨rfl, rfl, rfl, rfl, rfl, rfl, rfl, rfl, rfl⟩

/-- A step on a connection changes a counter exactly as the connection's own part
in it changes. -/
theorem advance_count (advanced : advance i s c = some (s', c')) (counter : Counter) :
    s'.count counter - c'.stage.count counter = s.count counter - c.stage.count counter := by
  have moved := advance_advances advanced
  generalize c.stage = stage at moved ⊢
  cases moved with
  | keyed key keyed => cases keyed <;> cases counter <;> rfl
  | unkey | refusePerIP | releasePerIP =>
      rw [(releasePerIP_count s c counter).1]
      cases counter <;> rfl
  | refuseAdmit | releaseAdmit =>
      rw [(releaseAdmit_count s c counter).1]
      cases counter <;> rfl
  | _ =>
      cases counter <;>
        simp [Server.count, Stage.count, Stage.counters, Conn.goto, Conn.close, wgDone]

/-- A step that gives and takes no slot keeps the books, if both ends of it hold
the same slots. -/
theorem Balanced.move (balanced : Balanced max s c others keys)
    (server : s'.admission = s.admission ∧ s'.perIP = s.perIP ∧ s'.overReleased = s.overReleased)
    (conn : c'.admitted = c.admitted ∧ c'.released = c.released ∧ c'.granted = c.granted ∧
      c'.returned = c.returned ∧ c'.keyed = c.keyed ∧ c'.ipKey = c.ipKey)
    (stage : c'.stage.admitSlots = c.stage.admitSlots ∧ c'.stage.keyPhase = c.stage.keyPhase) :
    Balanced max s' c' others keys := by
  obtain ⟨admission, perIP, released⟩ := server
  obtain ⟨admitted, back, granted, returned, keyed, key⟩ := conn
  obtain ⟨slots, phase⟩ := stage
  have inUse : c'.inUse = c.inUse := by rw [Conn.inUse, Conn.inUse, admitted, back]
  have held : c'.heldKeys = c.heldKeys := by
    rw [Conn.heldKeys, Conn.heldKeys, returned, granted, key]
  constructor
  · constructor
    · rw [admitted, back, admission, slots]
      exact balanced.slots.admission
    · rw [phase, keyed, granted, returned]
      exact balanced.slots.perIP
  · rw [keyed, perIP]
    exact balanced.keyable
  · intro limiter found
    rw [inUse]
    exact balanced.admission limiter (admission ▸ found)
  · intro limiter found
    rw [held]
    exact balanced.perIP limiter (perIP ▸ found)
  · exact released.trans balanced.sound

/-- Giving back the `Admit` slot of a connection that holds one if there is a limiter. -/
theorem Balanced.releaseAdmit {stage : Stage} (balanced : Balanced max s c others keys)
    (nonneg : 0 ≤ others) (holding : c.stage.admitSlots = (1, 0))
    (given : stage.admitSlots = (1, 1)) (phase : stage.keyPhase = c.stage.keyPhase) :
    Balanced max (releaseAdmit s c).1 ((releaseAdmit s c).2.goto stage) others keys := by
  have slots := balanced.slots.admission
  cases limited : s.admission with
  | none =>
      have unchanged : Tcp.releaseAdmit s c = (s, c) := by simp only [Tcp.releaseAdmit, limited]
      rw [limited] at slots
      rw [unchanged]
      refine ⟨⟨?_, ?_⟩, balanced.keyable, balanced.admission, balanced.perIP, balanced.sound⟩
      · rw [limited]
        exact slots
      · simp only [Conn.goto, phase]
        exact balanced.slots.perIP
  | some limiter =>
      rw [limited, holding] at slots
      obtain ⟨admitted, released⟩ : c.admitted = 1 ∧ c.released = 0 := by simpa using slots
      have inUse := balanced.admission limiter limited
      have held : 0 < limiter.inUse := by
        rw [inUse, Conn.inUse, admitted, released]
        omega
      have changed : Tcp.releaseAdmit s c =
          ({ s with
            admission := some { limiter with inUse := limiter.inUse - 1 }
            overReleased := s.overReleased || false },
          { c with released := c.released + 1 }) := by
        simp only [Tcp.releaseAdmit, limited, Concurrency.release_eq held]
      rw [changed]
      refine ⟨⟨?_, ?_⟩, balanced.keyable, ?_, balanced.perIP, ?_⟩
      · simp [Conn.goto, given, admitted, released]
      · simp only [Conn.goto, phase]
        exact balanced.slots.perIP
      · intro other same
        cases same
        simp only [Conn.goto, Conn.inUse, admitted, released] at inUse ⊢
        omega
      · simpa using balanced.sound

/-- Giving back the per-address slot of a connection that holds one if it is keyed. -/
theorem Balanced.releasePerIP {stage : Stage} (balanced : Balanced max s c others keys)
    (holding : c.stage.keyPhase = .held) (given : stage.keyPhase = .after)
    (slots : stage.admitSlots = c.stage.admitSlots) :
    Balanced max (releasePerIP s c).1 ((releasePerIP s c).2.goto stage) others keys := by
  have phase := balanced.slots.perIP
  rw [holding] at phase
  obtain ⟨granted, returned⟩ := phase
  cases keyed : c.keyed with
  | false =>
      have unchanged : Tcp.releasePerIP s c = (s, c) := by simp [Tcp.releasePerIP, keyed]
      rw [keyed] at granted
      rw [unchanged]
      refine ⟨⟨?_, ?_⟩, balanced.keyable, balanced.admission, balanced.perIP, balanced.sound⟩
      · simp only [Conn.goto, slots]
        exact balanced.slots.admission
      · simp [Conn.goto, given, keyed, granted, returned]
  | true =>
      rw [keyed] at granted
      obtain ⟨limiter, limited⟩ := Option.isSome_iff_exists.mp (balanced.keyable keyed)
      have heldKeys : c.heldKeys = {c.ipKey} := by
        simp [Conn.heldKeys, granted, returned]
      obtain ⟨maximal, holds, bounded⟩ := balanced.perIP limiter limited
      rw [heldKeys, Multiset.singleton_add] at holds bounded
      obtain ⟨next, released, same, holdsNext⟩ := holds.release (Multiset.mem_cons_self _ _)
      rw [Multiset.erase_cons_head] at holdsNext
      have changed : Tcp.releasePerIP s c =
          ({ s with perIP := some next, overReleased := s.overReleased || false },
          { c with keyed := false, returned := c.returned + 1 }) := by
        simp only [Tcp.releasePerIP, keyed, limited, released, if_true]
      rw [changed]
      refine ⟨⟨?_, ?_⟩, nofun, balanced.admission, ?_, ?_⟩
      · simp only [Conn.goto, slots]
        exact balanced.slots.admission
      · simp [Conn.goto, given, granted, returned]
      · intro other found
        cases found
        rw [Conn.heldKeys_of_even (by simp [Conn.goto, granted, returned]), zero_add]
        refine ⟨same.trans maximal, holdsNext, fun k => ?_⟩
        exact (Int.ofNat_le.mpr (Multiset.count_le_count_cons k c.ipKey keys)).trans (bounded k)
      · simpa using balanced.sound

theorem Balanced.ask (balanced : Balanced max s c others keys) (asking : c.stage = .perIP)
    {limiter : PerKey Addr} (limited : s.perIP = some limiter) :
    (limiter.tryAcquire c.ipKey = (false, limiter) ∧
      Balanced max s { c with keyed := false, stage := .countPerIP } others keys) ∨
    ∃ next, limiter.tryAcquire c.ipKey = (true, next) ∧
      Balanced max { s with perIP := some next }
        { c with granted := c.granted + 1, stage := .admission } others keys := by
  have admission := balanced.slots.admission
  have phase := balanced.slots.perIP
  rw [asking] at admission phase
  obtain ⟨keyed, granted, returned⟩ := phase
  have none : c.heldKeys = 0 := Conn.heldKeys_of_even (returned.trans granted.symm)
  obtain ⟨maximal, holds, bounded⟩ := balanced.perIP limiter limited
  rw [none, zero_add] at holds bounded
  rcases holds.tryAcquire c.ipKey with refused | ⟨next, accepted, free, kept, holdsNext⟩
  · refine .inl ⟨refused, ⟨admission, ?_⟩, nofun, balanced.admission, balanced.perIP,
      balanced.sound⟩
    exact ⟨rfl, returned.trans granted.symm, granted.le.trans (Nat.zero_le 1)⟩
  · refine .inr ⟨next, accepted, ⟨admission, ?_⟩, fun _ => rfl, balanced.admission, ?_,
      balanced.sound⟩
    · simp [Stage.keyPhase, keyed, granted, returned]
    · intro other same
      cases same
      have held : Conn.heldKeys { c with granted := c.granted + 1, stage := .admission } =
          {c.ipKey} := by
        simp [Conn.heldKeys, granted, returned]
      rw [held, Multiset.singleton_add]
      refine ⟨kept.trans maximal, holdsNext, fun k => ?_⟩
      by_cases same : k = c.ipKey
      · subst same
        rw [Multiset.count_cons_self]
        omega
      · rw [Multiset.count_cons_of_ne same]
        exact bounded k

theorem Balanced.admitted (balanced : Balanced max s c others keys) {loaded : Int}
    (trying : c.stage = .admitCas loaded) {limiter : Concurrency}
    (limited : s.admission = some limiter) (same : limiter.inUse = loaded) :
    Balanced max { s with admission := some { limiter with inUse := loaded + 1 } }
      { c with admitted := c.admitted + 1, stage := .naming } others keys := by
  have admission := balanced.slots.admission
  have phase := balanced.slots.perIP
  rw [trying] at phase
  rw [trying, limited] at admission
  obtain ⟨admitted, released⟩ : c.admitted = 0 ∧ c.released = 0 := by
    simpa [Stage.admitSlots] using admission
  have inUse := balanced.admission limiter limited
  refine ⟨⟨?_, phase⟩, balanced.keyable, ?_, balanced.perIP, balanced.sound⟩
  · simp [Stage.admitSlots, admitted, released]
  · intro other found
    cases found
    simp only [Conn.inUse, admitted, released] at inUse ⊢
    omega

theorem Balanced.unlimited (balanced : Balanced max s c others keys) (asking : c.stage = .admission)
    (unlimited : s.admission = none) : Balanced max s (c.goto .naming) others keys := by
  have admission := balanced.slots.admission
  have phase := balanced.slots.perIP
  rw [asking] at phase
  rw [unlimited] at admission
  refine ⟨⟨?_, phase⟩, balanced.keyable, balanced.admission, balanced.perIP, balanced.sound⟩
  rw [unlimited]
  exact admission

theorem Balanced.key (balanced : Balanced max s c others keys) (asking : c.stage = .keying)
    (limited : s.perIP.isSome = true) (key : Addr) (keyed : Bool) :
    Balanced max s { c with
      ipKey := key
      keyed := keyed
      stage := if keyed then .perIP else .admission } others keys := by
  have admission := balanced.slots.admission
  have phase := balanced.slots.perIP
  rw [asking] at admission phase
  obtain ⟨_, granted, returned⟩ := phase
  refine ⟨⟨?_, ?_⟩, fun _ => limited, balanced.admission, ?_, balanced.sound⟩
  · cases keyed <;> exact admission
  · cases keyed <;> simp [Stage.keyPhase, granted, returned]
  · intro limiter found
    have even : c.returned = c.granted := returned.trans granted.symm
    have holds := balanced.perIP limiter found
    rw [Conn.heldKeys_of_even even] at holds
    rw [Conn.heldKeys_of_even (by exact even)]
    exact holds

theorem advance_balanced (nonneg : 0 ≤ others) (balanced : Balanced max s c others keys)
    (advanced : advance i s c = some (s', c')) : Balanced max s' c' others keys := by
  have moved := advance_advances advanced
  generalize here : c.stage = stage at moved
  cases moved with
  | unkeyed unlimited =>
      have admission := balanced.slots.admission
      have phase := balanced.slots.perIP
      rw [here] at admission phase
      obtain ⟨keyed, granted, returned⟩ := phase
      refine ⟨⟨admission, ?_⟩, balanced.keyable, balanced.admission, balanced.perIP,
        balanced.sound⟩
      simp [Conn.goto, Stage.keyPhase, keyed, granted, returned]
  | keyed key keyed limited => exact balanced.key here limited key keyed
  | overPerIP limiter next limited asked =>
      rcases balanced.ask here limited with ⟨_, kept⟩ | ⟨_, accepted, _⟩
      · exact kept
      · cases asked.symm.trans accepted
  | underPerIP limiter next limited asked =>
      rcases balanced.ask here limited with ⟨refused, _⟩ | ⟨_, accepted, kept⟩
      · cases asked.symm.trans refused
      · cases asked.symm.trans accepted
        exact kept
  | unlimited unlimited => exact balanced.unlimited here unlimited
  | admits limiter loaded limited same => exact balanced.admitted here limited same
  | unkey | refusePerIP | releasePerIP =>
      exact balanced.releasePerIP (by rw [here]; rfl) rfl (by rw [here]; rfl)
  | refuseAdmit | releaseAdmit =>
      exact balanced.releaseAdmit nonneg (by rw [here]; rfl) rfl (by rw [here]; rfl)
  | _ =>
      exact balanced.move ⟨rfl, rfl, rfl⟩ ⟨rfl, rfl, rfl, rfl, rfl, rfl⟩
        (by rw [here]; exact ⟨rfl, rfl⟩)

end Advance

end Netx.Tcp
