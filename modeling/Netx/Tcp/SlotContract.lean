import Netx.Tcp.Contract

/-!
# No slot is leaked or freed twice

The accounts of the server in terms of the connections themselves: who holds a
slot, who has given it back, and which counter has counted whom.
-/

set_option autoImplicit false

namespace Netx.Tcp

open Errors Limit Netip Transition

/-- The counters that count what the accept loop decided about a connection. -/
def Counter.decides : Counter → Bool
  | .accepted | .rejected | .rejectedPerIP => true
  | .active | .closed | .wg => false

/-- The accepted connections that satisfy `p`. -/
def Shared.those {Call : Type} (s : Shared Call) (p : Conn → Prop) [DecidablePred p] :
    Finset Nat :=
  (Finset.range s.accepts).filter fun i => p (s.conn i)

structure SlotContract {Call : Type} [DecidableEq Call] (o : Options) (w : World Call) : Prop where
  /-- A slot is given at most once and given back at most once. -/
  once : ∀ i < w.shared.accepts,
    (w.shared.conn i).released ≤ (w.shared.conn i).admitted ∧ (w.shared.conn i).admitted ≤ 1 ∧
    (w.shared.conn i).returned ≤ (w.shared.conn i).granted ∧ (w.shared.conn i).granted ≤ 1
  /-- A connection that is done with has given back all it was given. -/
  back : ∀ i < w.shared.accepts, ∀ fate, (w.shared.conn i).stage = .gone fate →
    (w.shared.conn i).released = (w.shared.conn i).admitted ∧
    (w.shared.conn i).returned = (w.shared.conn i).granted
  /-- And every connection can get there. -/
  finishes : ∀ i < w.shared.accepts, ∃ actions final fate,
    (system Call o).exec w actions = some final ∧ (final.shared.conn i).stage = .gone fate
  noPanic : w.shared.server.overReleased = false ∧ w.shared.server.crashed = false
  admission : ∀ limiter, w.shared.server.admission = some limiter →
    limiter.inUse = (w.shared.those fun c => c.released < c.admitted).card
  perIP : ∀ limiter, w.shared.server.perIP = some limiter →
    (∀ k, limiter.inUse k =
        (w.shared.those fun c => c.returned < c.granted ∧ c.ipKey = k).card ∧
      limiter.inUse k ≤ o.maxConnsPerIP) ∧
    limiter.keys = ((w.shared.those fun c => c.returned < c.granted).image fun i =>
      (w.shared.conn i).ipKey).card
  closed : w.shared.server.closed ≤ (w.shared.those fun c => c.stage.everTracked = true ∧
    c.released = c.admitted ∧ c.returned = c.granted).card
  counts : ∀ counter, w.shared.server.count counter =
    (w.shared.those fun c => counter ∈ c.stage.counters).card
  /-- The accept loop counts each connection once, unless it came too late to be
  tracked and was refused. -/
  counted : ∀ i < w.shared.accepts, (w.shared.conn i).stage.inLoop = false →
    (∃ counter, (w.shared.conn i).stage.counters.filter Counter.decides = [counter]) ∨
    (w.shared.conn i).stage = .gone .refused ∧ (w.shared.conn i).stage.counters = [] ∧
      w.shared.server.stopped = true

section Slots

variable {limited : Bool} {c : Conn}

theorem Stage.admitSlots_le_one (stage : Stage) : stage.admitSlots.1 ≤ 1 := by
  cases stage with
  | gone fate => cases fate <;> decide
  | admitCas loaded => exact Nat.zero_le 1
  | _ => decide

theorem Conn.Slots.admitted_le (slots : c.Slots limited) : c.admitted ≤ 1 := by
  have admission := slots.admission
  cases limited with
  | false => exact (Prod.mk.inj admission).1.trans_le (Nat.zero_le 1)
  | true => exact (congrArg Prod.fst admission).trans_le c.stage.admitSlots_le_one

theorem Conn.Slots.returned_le (slots : c.Slots limited) :
    c.returned ≤ c.granted ∧ c.granted ≤ 1 := by
  have phase := slots.perIP
  cases at_phase : c.stage.keyPhase with
  | before | asking =>
      rw [at_phase] at phase
      obtain ⟨_, granted, returned⟩ := phase
      omega
  | held =>
      rw [at_phase] at phase
      obtain ⟨granted, returned⟩ := phase
      split at granted <;> omega
  | after =>
      rw [at_phase] at phase
      obtain ⟨_, returned, granted⟩ := phase
      exact ⟨returned.le, granted⟩

theorem Conn.Slots.inUse_eq (slots : c.Slots limited) :
    c.inUse = if c.released < c.admitted then 1 else 0 := by
  have released := slots.released_le
  have admitted := slots.admitted_le
  unfold Conn.inUse
  split <;> omega

/-- Where both slots have been given back. -/
theorem Conn.Slots.even (slots : c.Slots limited)
    (admission : c.stage.admitSlots.2 = c.stage.admitSlots.1) (phase : c.stage.keyPhase = .after) :
    c.released = c.admitted ∧ c.returned = c.granted := by
  constructor
  · have pair := slots.admission
    cases limited with
    | false =>
        obtain ⟨admitted, released⟩ := Prod.mk.inj pair
        rw [admitted, released]
    | true =>
        have pair : (c.admitted, c.released) = c.stage.admitSlots := pair
        rw [← pair] at admission
        exact admission
  · have keyed := slots.perIP
    rw [phase] at keyed
    exact keyed.2.1

theorem Conn.Slots.gone (slots : c.Slots limited) {fate : Fate} (gone : c.stage = .gone fate) :
    c.released = c.admitted ∧ c.returned = c.granted := by
  refine slots.even ?_ (by rw [gone]; rfl)
  rw [gone]
  cases fate <;> rfl

theorem Conn.Slots.closed (slots : c.Slots limited) (counted : .closed ∈ c.stage.counters) :
    c.stage.everTracked = true ∧ c.released = c.admitted ∧ c.returned = c.granted := by
  cases here : c.stage with
  | wgDone => exact ⟨rfl, slots.even (by rw [here]; rfl) (by rw [here]; rfl)⟩
  | gone fate =>
      rw [here] at counted
      cases fate with
      | served => exact ⟨rfl, slots.gone here⟩
      | _ => simp [Stage.counters] at counted
  | _ =>
      rw [here] at counted
      simp [Stage.counters] at counted

end Slots

theorem Stage.counted_once {stage : Stage} (outside : stage.inLoop = false) :
    (∃ counter, stage.counters.filter Counter.decides = [counter]) ∨
      stage = .gone .refused ∧ stage.counters = [] := by
  cases stage with
  | gone fate =>
      cases fate with
      | refused => exact .inr ⟨rfl, rfl⟩
      | _ => exact .inl ⟨_, rfl⟩
  | ready | handling | close | releaseAdmit | releasePerIP | untrack | uncountActive
  | countClosed | wgDone => exact .inl ⟨_, rfl⟩
  | _ => cases outside

section Runs

variable {Call : Type} {o : Options} {w : World Call}

theorem Shared.tally_those {s : Shared Call} {weight : Conn → ℤ} {p : Conn → Prop}
    [DecidablePred p]
    (each : ∀ i < s.accepts, weight (s.conn i) = if p (s.conn i) then 1 else 0) :
    tally (Finset.range s.accepts) s.conn weight = (s.those p).card :=
  tally_indicator fun i member => each i (Finset.mem_range.mp member)

theorem World.Sound.perIP_inUse (sound : w.Sound o) {limiter : PerKey Addr}
    (limited : w.shared.server.perIP = some limiter) (k : Addr) :
    limiter.inUse k =
        (w.shared.those fun c => c.returned < c.granted ∧ c.ipKey = k).card ∧
      limiter.inUse k ≤ o.maxConnsPerIP := by
  obtain ⟨_, holds, bounded⟩ := sound.accounts.perIP limiter limited
  rw [holds.inUse k]
  exact ⟨congrArg Int.ofNat (count_tally k), bounded k⟩

variable [DecidableEq Call]

/-- The connection takes its own steps, whatever the others were about to do. -/
theorem World.Sound.finishes (sound : w.Sound o) {i : Nat} (old : i < w.shared.accepts) :
    ∃ actions final fate, (system Call o).exec w actions = some final ∧
      (final.shared.conn i).stage = .gone fate := by
  induction distance : (w.shared.conn i).stage.remaining w.shared.server using
    Nat.strong_induction_on generalizing w with
  | _ distance closer =>
      by_cases ended : ∃ fate, (w.shared.conn i).stage = .gone fate
      · obtain ⟨fate, gone⟩ := ended
        exact ⟨[], w, fate, rfl, gone⟩
      · obtain ⟨action, next, stepped, accepts, less⟩ :=
          World.advances sound.worked sound.accounts sound.trying old (not_exists.mp ended)
        obtain ⟨actions, final, fate, executed, gone⟩ :=
          closer _ (distance ▸ less) (sound.step stepped) (accepts ▸ old) rfl
        refine ⟨action :: actions, final, fate, ?_, gone⟩
        rw [System.exec_cons, show (system Call o).step w action = some next from stepped]
        exact executed

/-- In every reachable world each admission slot is given and given back at most
once, the limiters hold exactly the slots of the connections between the two, and
every accepted connection is counted once. -/
theorem slots_kept (o : Options) (reached : (system Call o).Reachable w) :
    SlotContract o w := by
  have sound := reachable_sound reached
  have accounts := sound.accounts
  have counts : ∀ counter, w.shared.server.count counter =
      (w.shared.those fun c => counter ∈ c.stage.counters).card := by
    intro counter
    rw [accounts.counts counter]
    exact Shared.tally_those fun _ _ => rfl
  constructor
  · intro i old
    have slots := accounts.slots i old
    exact ⟨slots.released_le, slots.admitted_le, slots.returned_le⟩
  · exact fun i old fate gone => (accounts.slots i old).gone gone
  · exact fun i old => sound.finishes old
  · exact ⟨accounts.sound, sound.finishing.sound⟩
  · intro limiter limited
    rw [accounts.admission limiter limited]
    exact Shared.tally_those fun i old => (accounts.slots i old).inUse_eq
  · intro limiter limited
    refine ⟨sound.perIP_inUse limited, ?_⟩
    obtain ⟨_, holds, _⟩ := accounts.perIP limiter limited
    rw [holds.keys]
    exact congrArg Finset.card toFinset_tally
  · rw [show w.shared.server.closed = w.shared.server.count .closed from rfl, counts .closed]
    refine Int.ofNat_le.mpr (Finset.card_le_card fun i member => ?_)
    obtain ⟨old, counted⟩ := Finset.mem_filter.mp member
    have slots := accounts.slots i (Finset.mem_range.mp old)
    exact Finset.mem_filter.mpr ⟨old, slots.closed counted⟩
  · exact counts
  · intro i old outside
    refine (Stage.counted_once outside).imp_right ?_
    intro ⟨refused, uncounted⟩
    refine ⟨refused, uncounted, ?_⟩
    exact sound.tracking.refused i (by rw [refused]; rfl)

end Runs

def crowdedOptions : Options where
  admission := some 5
  maxConnsPerIP := 1
  ipv6PrefixBits := 0

/-- Two connections from one address, one allowed. -/
def crowdedRun : List (Action Nat) :=
  [.call 0 (.call .serve)] ++ .replicate 2 (.call 0 .next) ++
    [.call 0 (.accept (.tcp ⟨[10, 0, 0, 1], 4001, ""⟩))] ++ .replicate 10 (.call 0 .next) ++
    [.conn 0 false, .call 0 (.accept (.tcp ⟨[10, 0, 0, 1], 4002, ""⟩))] ++
    .replicate 4 (.call 0 .next)

theorem slots_kept_crowded :
    ∃ w, (system Nat crowdedOptions).exec
        (.start (.empty (some ⟨5, 0⟩) (some ⟨1, ∅⟩) 64)) crowdedRun = some w ∧
      w.shared.accepts = 2 ∧ w.shared.server.accepted = 1 ∧
      w.shared.server.rejectedPerIP = 1 ∧ SlotContract crowdedOptions w := by
  have executed : (system Nat crowdedOptions).exec
      (.start (.empty (some ⟨5, 0⟩) (some ⟨1, ∅⟩) 64)) crowdedRun = some _ := rfl
  exact ⟨_, executed, rfl, rfl, rfl,
    slots_kept crowdedOptions (.exec (.initial ⟨_, _, rfl, rfl, rfl⟩) executed)⟩

end Netx.Tcp
