import Netx.FlowTable.Sparing
import Netx.FlowTable.Numbers

/-!
# Idle expiry of an active flow

`Run` sweeps once a tick. One flow is watched that is touched between any two
sweeps, while everybody else does as they like with the other flows.
-/

set_option autoImplicit false

namespace Netx.FlowTable

/-- The time between two sweeps of `Run`, in nanoseconds. -/
def tick (idle : Int) : Int :=
  if 0 < idle then min (max (idle / 4) 10000000) 1000000000 else 1000000000

/-- The time of a sweep of `Run`. The first is number 0, one tick after `Run` began. -/
def instant (idle first : Int) (round : Nat) : Int :=
  first + round * tick idle

/-- The coarse clock after so many sweeps: `NewTable` sets it, and sweeps move it forward
only. -/
def coarse (idle start first : Int) : Nat → Int
  | 0 => start
  | round + 1 => max start (instant idle first round)

/-- A table swept by `Run`: how many sweeps have begun and the one in progress. Of the
watched flow, the calls that read the clock for a `Touch` since the last sweep ended,
and whether one of them has returned since then. -/
structure Paced (K : Type) where
  world : World K Nat
  rounds : Nat
  sweeper : Option Nat
  reading : List Nat
  touched : Bool

def Pc.isReturned {K : Type} : Pc K → Bool
  | .returned _ => true
  | _ => false

/-- The call is about to read the clock to touch flow `f`. -/
def Pc.readsClock {K : Type} (f : Nat) : Pc K → Bool
  | .touchClock g _ => g = f
  | _ => false

section System

variable {K : Type} [DecidableEq K]

/-- `Run` sweeps when the last sweep is over, the first time at `first`, then one tick after
the last and always at a time that is an `int64`. By then the watched flow has been touched.
Nobody closes that flow, removes it or closes the table. -/
def Paced.allows (t : Table K) (first : Int) (f : Nat) (p : Paced K) : Action K Nat → Bool
  | .call _ (.call (.sweep now)) =>
      p.sweeper.isNone && decide (now = instant t.idle first p.rounds) &&
        decide (now < 2 ^ 63) && (decide (p.world.shared.created ≤ f) || p.touched)
  | .call _ (.call op) => op.spares f
  | .call c .next =>
      match p.world.pc c with
      | .remove k id => decide ((p.world.shared.shard (t.shard k)).m.lookup k = some f →
          (p.world.shared.flow f).id ≠ id)
      | _ => true
  | _ => true

/-- `fresh` says whether opening the watched flow counts as touching it. -/
def Paced.after (fresh : Bool) (f : Nat) (p : Paced K) (next : World K Nat) :
    Action K Nat → Paced K
  | .nextID => { p with world := next }
  | .call c (.call (.sweep _)) => {
      world := next
      rounds := p.rounds + 1
      sweeper := some c
      reading := []
      touched := false }
  | .call c _ => {
      world := next
      rounds := p.rounds
      sweeper := if p.sweeper = some c ∧ (next.pc c).isReturned then none else p.sweeper
      reading := if p.sweeper = none ∧ (p.world.pc c).readsClock f then c :: p.reading
        else p.reading
      touched := p.touched || decide (p.sweeper = none ∧
        (c ∈ p.reading ∧ (next.pc c).isReturned ∨
          fresh ∧ p.world.shared.created ≤ f ∧ f < next.shared.created)) }

def Paced.start (start : Int) (lastID : UInt64) : Paced K where
  world := .start start lastID
  rounds := 0
  sweeper := none
  reading := []
  touched := false

/-- The runs in which flow `f` is active. -/
def paced (t : Table K) (start first : Int) (fresh : Bool) (f : Nat) :
    Transition.System (Paced K) (Action K Nat) where
  initial p := ∃ lastID, p = .start start lastID
  step p action :=
    if p.allows t first f action then (p.world.step t action).map (p.after fresh f · action)
    else none

/-- No sweep evicts an active flow, whatever the number of shards and the hash. -/
def NeverEvicts (idle start first : Int) (fresh : Bool) : Prop :=
  ∀ (K : Type) [DecidableEq K] (t : Table K), t.idle = idle → ∀ f p,
    (paced t start first fresh f).Reachable p → f < p.world.shared.created →
      p.world.shared.Stored f

/-- A tick and the lost lowest bit fit into `IdleTimeout`, and so does the time from
`NewTable` to the first sweep, whose cutoff does not overflow. -/
def Fits (idle start first : Int) : Prop :=
  (10000000 < idle ∨ idle = 10000000 ∧ first % 2 = 0) ∧
    -2 ^ 63 ≤ first - idle ∧ first - idle ≤ clear start

end System

section Arithmetic

variable {idle start first : Int}

theorem tick_bounds (positive : 0 < idle) : 10000000 ≤ tick idle ∧ tick idle ≤ 1000000000 := by
  rw [tick, if_pos positive]
  omega

theorem instant_zero : instant idle first 0 = first := by
  rw [instant, Nat.cast_zero, Int.zero_mul, Int.add_zero]

theorem instant_succ (round : Nat) :
    instant idle first (round + 1) = instant idle first round + tick idle := by
  simp only [instant, Nat.cast_add, Nat.cast_one, Int.add_mul, Int.one_mul]
  omega

theorem instant_mono (positive : 0 < idle) (round : Nat) :
    first ≤ instant idle first round := by
  have bound := (tick_bounds positive).1
  have wait : 0 ≤ (round : Int) * tick idle :=
    Int.mul_nonneg (Int.natCast_nonneg round) (by omega)
  simp only [instant]
  omega

theorem start_le_coarse (rounds : Nat) : start ≤ coarse idle start first rounds := by
  cases rounds with
  | zero => exact le_rfl
  | succ round => exact le_max_left _ _

theorem coarse_le_succ (positive : 0 < idle) (rounds : Nat) :
    coarse idle start first rounds ≤ coarse idle start first (rounds + 1) := by
  cases rounds with
  | zero => exact start_le_coarse 1
  | succ round =>
      refine max_le_max le_rfl ?_
      have bound := (tick_bounds positive).1
      rw [instant_succ]
      omega

/-- The cutoff of a sweep is not after the time that a touch before it recorded. -/
theorem Fits.cutoff_le (positive : 0 < idle) (fits : Fits idle start first) {round : Nat}
    (high : instant idle first round < 2 ^ 63) :
    (instant idle first round - idle).bmod (2 ^ 64) ≤ clear (coarse idle start first round) := by
  obtain ⟨long, low, early⟩ := fits
  have bounds := tick_bounds positive
  have later := @instant_mono idle first positive round
  have exact_ : (instant idle first round - idle).bmod (2 ^ 64) =
      instant idle first round - idle := by
    rw [Int.bmod_eq_of_le] <;> omega
  rw [exact_]
  cases round with
  | zero =>
      rw [instant_zero]
      exact early
  | succ round =>
      refine le_trans ?_ (clear_mono (le_max_right start _))
      rw [instant_succ]
      rcases long with long | ⟨rfl, even⟩
      · have short : tick idle < idle := by
          rw [tick, if_pos positive]
          omega
        simp only [clear]
        omega
      · have short : tick 10000000 = 10000000 := by decide
        have parity : instant 10000000 first round % 2 = 0 := by
          simp only [instant, short]
          omega
        simp only [clear, parity, short]
        omega

end Arithmetic

section Runs

variable {K : Type} {pc : Pc K} {shared : Shared K Nat} {act : Act K} {c : Nat}

theorem after_ordinary {p : Paced K} {f : Nat} (ordinary : ∀ now, act ≠ .call (.sweep now))
    (fresh : Bool) (next : World K Nat) : p.after fresh f next (.call c act) = {
      world := next
      rounds := p.rounds
      sweeper := if p.sweeper = some c ∧ (next.pc c).isReturned then none else p.sweeper
      reading := if p.sweeper = none ∧ (p.world.pc c).readsClock f then c :: p.reading
        else p.reading
      touched := p.touched || decide (p.sweeper = none ∧
        (c ∈ p.reading ∧ (next.pc c).isReturned ∨
          fresh ∧ p.world.shared.created ≤ f ∧ f < next.shared.created)) } := by
  cases act with
  | call op =>
      cases op with
      | sweep now => exact absurd rfl (ordinary now)
      | _ => rfl
  | _ => rfl

variable [DecidableEq K]

/-- What is known while `Run` sweeps and flow `f` is active. -/
structure Active (t : Table K) (start first : Int) (f : Nat) (p : Paced K) : Prop where
  frozen : p.world.Frozen t
  spares : ∀ c, (p.world.pc c).Spares f
  others : ∀ c, p.sweeper ≠ some c → (p.world.pc c).sweeping = false
  between : p.sweeper = none → p.world.shared.now = coarse t.idle start first p.rounds
  during : ∀ c, p.sweeper = some c → (p.reading = [] ∧ p.touched = false) ∧
    ∃ j, p.rounds = j + 1 ∧ instant t.idle first j < 2 ^ 63 ∧
      (p.world.pc c).SweepsAt t start p.world.shared.now (instant t.idle first j) ∧
      coarse t.idle start first j ≤ p.world.shared.now ∧
      p.world.shared.now ≤ coarse t.idle start first (j + 1)
  reading : ∀ c ∈ p.reading, (∃ stage reply, p.world.pc c = .touch stage f reply ∧
    stage.now = clear (coarse t.idle start first p.rounds)) ∨
      ∃ reply, p.world.pc c = .returned reply
  stored : f < p.world.shared.created →
    p.world.shared.Stored f ∧ isFrozen (p.world.shared.flow f).seen = false
  recent : f < p.world.shared.created → p.touched = true →
    clear (coarse t.idle start first p.rounds) ≤ (p.world.shared.flow f).seen
  kept : f < p.world.shared.created → ∀ c j, p.sweeper = some c → p.rounds = j + 1 →
    clear (coarse t.idle start first j) ≤ (p.world.shared.flow f).seen

variable {t : Table K} {start first : Int} {f : Nat} {p : Paced K}

theorem Active.initial (lastID : UInt64) : Active t start first f (.start start lastID) where
  frozen := .start start lastID
  spares _ := trivial
  others _ _ := rfl
  between _ := rfl
  during _ := nofun
  reading _ := nofun
  stored old := absurd old (Nat.not_lt_zero f)
  recent old := absurd old (Nat.not_lt_zero f)
  kept old := absurd old (Nat.not_lt_zero f)

/-- A sweep keeps the watched flow. -/
theorem Active.expire (positive : 0 < t.idle) (fits : Fits t.idle start first)
    (active : Active t start first f p) {cutoff : Int} {i : Nat} {rest : Flows K}
    {found : List (Victim K)} {k : K} (here : p.world.pc c = .scan cutoff i rest found)
    (present : rest.lookup k = some f) :
    (p.world.shared.flow f).expire cutoff = .returns false := by
  have sweeper : p.sweeper = some c := by
    by_contra other
    have quiet := active.others c other
    rw [here] at quiet
    cases quiet
  obtain ⟨_, j, round, high, sweeps, _⟩ := active.during c sweeper
  have guards := active.frozen.guarded.guards c
  rw [here] at sweeps guards
  have old : f < p.world.shared.created :=
    active.frozen.filed.lt_created (active.frozen.filed.stored i k f (guards k f present)).1
  have live := (active.stored old).2
  have bound := fits.cutoff_le positive high
  have seen := active.kept old c j sweeper round
  unfold Flow.expire
  rw [if_pos]
  rw [clear_of_live live, sweeps.1]
  exact le_trans bound seen

/-- What a step of a call does to the watched flow. -/
theorem Active.flow_moves (active : Active t start first f p)
    (moved : Moves t c p.world.shared (p.world.pc c) act shared pc) (old : f < shared.created) :
    (f < p.world.shared.created ∧
      (p.world.shared.flow f).seen ≤ (shared.flow f).seen ∧
      isFrozen (shared.flow f).seen = false) ∨
    (p.world.shared.created = f ∧ (shared.flow f).seen = clear p.world.shared.now ∧
      shared.Stored f) := by
  have before : f < p.world.shared.created → f < p.world.shared.created ∧
      (p.world.shared.flow f).seen ≤ (shared.flow f).seen ∧
      isFrozen (shared.flow f).seen = false := by
    intro before
    have forward := moved.seen_spared (active.spares c) (active.frozen.freezes c) before
    exact ⟨before, forward.1, forward.2 (active.stored before).2⟩
  cases moved.numbers with
  | quiet _ flows => exact .inl (before (flows.1 ▸ old))
  | draws k _ same => exact .inl (before (by rw [same] at old; exact old))
  | inserts k id here same =>
      subst same
      rcases Nat.lt_succ_iff_lt_or_eq.mp old with earlier | rfl
      · exact .inl (before earlier)
      · have guards := active.frozen.guarded.guards c
        rw [here] at guards
        refine .inr ⟨rfl, ?_, ?_⟩
        · rw [Shared.insert_flow, if_pos rfl]
          rfl
        · exact (active.frozen.filed.stored_opens guards
            (fun i => p.world.shared.insert_m i k t id) _).mpr (.inl rfl)

theorem Active.stored_moves (active : Active t start first f p)
    (moved : Moves t c p.world.shared (p.world.pc c) act shared pc) (old : f < shared.created) :
    shared.Stored f ∧ isFrozen (shared.flow f).seen = false := by
  rcases active.flow_moves moved old with ⟨before, _, live⟩ | ⟨_, seen, stored⟩
  · refine ⟨?_, live⟩
    by_contra left
    rcases moved.leaves active.frozen.filed (active.frozen.guarded.guards c)
      (active.frozen.freezes c) (active.stored before).1 left with frozen | ⟨i, k, _, here, _⟩
    · rw [live] at frozen
      cases frozen
    · have spares := active.spares c
      rw [here] at spares
      exact spares
  · exact ⟨stored, by rw [seen]; exact isFrozen_clear _⟩

/-- A call that read the clock for a `Touch` goes on with it until it has recorded the
time it read. -/
theorem Active.reading_moves (active : Active t start first f p)
    (moved : Moves t c p.world.shared (p.world.pc c) act shared pc) (member : c ∈ p.reading) :
    (∃ stage reply, pc = .touch stage f reply ∧
      stage.now = clear (coarse t.idle start first p.rounds)) ∨
    (∃ reply, pc = .returned reply) ∧ shared.created = p.world.shared.created ∧
      (f < shared.created →
        clear (coarse t.idle start first p.rounds) ≤ (shared.flow f).seen) := by
  rcases active.reading c member with ⟨stage, reply, here, read⟩ | ⟨reply, here⟩
  · rw [here] at moved
    cases moved with
    | touching _ stage' _ _ flow swapped =>
        refine .inl ⟨stage', reply, rfl, ?_⟩
        rw [← read]
        exact Flow.touch_goes_now (congrArg Prod.snd swapped)
    | touched _ _ _ flow result swapped =>
        refine .inr ⟨⟨reply, rfl⟩, rfl, fun old => ?_⟩
        have recorded := Flow.touch_returns (active.stored old).2 (congrArg Prod.snd swapped)
        rw [swapped, read] at recorded
        rwa [Shared.setFlow_self]
  · rw [here] at moved
    cases moved

section Step

variable {c : Nat} {act : Act K} {shared : Shared K Nat} {pc : Pc K}
  (active : Active t start first f p)
  (moved : Moves t c p.world.shared (p.world.pc c) act shared pc)

include active moved

theorem Active.reading_after (c' : Nat)
    (member : c' ∈ if p.sweeper = none ∧ (p.world.pc c).readsClock f then c :: p.reading
      else p.reading) :
    (∃ stage reply, Function.update p.world.pc c pc c' = .touch stage f reply ∧
      stage.now = clear (coarse t.idle start first p.rounds)) ∨
    ∃ reply, Function.update p.world.pc c pc c' = .returned reply := by
  have earlier : c' ∈ p.reading →
      (∃ stage reply, Function.update p.world.pc c pc c' = .touch stage f reply ∧
        stage.now = clear (coarse t.idle start first p.rounds)) ∨
      ∃ reply, Function.update p.world.pc c pc c' = .returned reply := by
    intro listed
    rw [Function.update_apply]
    split_ifs with acting
    · subst acting
      exact (active.reading_moves moved listed).imp (fun going => going) (fun done => done.1)
    · exact active.reading c' listed
  split at member
  · rename_i reads
    rcases List.mem_cons.mp member with rfl | listed
    · rw [Function.update_self]
      have clock := active.between reads.1
      cases here : p.world.pc c' with
      | touchClock g reply =>
          rw [here] at moved reads
          obtain rfl : g = f := of_decide_eq_true reads.2
          cases moved with
          | touchClock =>
              refine .inl ⟨_, reply, rfl, ?_⟩
              rw [← clock]
              rfl
      | _ =>
          rw [here] at reads
          cases reads.2
    · exact earlier listed
  · exact earlier member

theorem Active.recent_moves {fresh : Bool} (old : f < shared.created)
    (touched : (p.touched || decide (p.sweeper = none ∧ (c ∈ p.reading ∧ pc.isReturned ∨
      fresh ∧ p.world.shared.created ≤ f ∧ f < shared.created))) = true) :
    clear (coarse t.idle start first p.rounds) ≤ (shared.flow f).seen := by
  have free : p.sweeper = none := by
    by_contra busy
    obtain ⟨c', sweeper⟩ := Option.ne_none_iff_exists'.mp busy
    rw [(active.during c' sweeper).1.2, decide_eq_false fun both => busy both.1] at touched
    cases touched
  rcases active.flow_moves moved old with ⟨before, later, _⟩ | ⟨_, seen, _⟩
  · cases Bool.or_eq_true_iff.mp touched with
    | inl earlier => exact le_trans (active.recent before earlier) later
    | inr now =>
        rcases (of_decide_eq_true now).2 with ⟨listed, returned⟩ | ⟨_, absent, _⟩
        · rcases active.reading_moves moved listed with ⟨stage, reply, rfl, _⟩ | ⟨_, _, bound⟩
          · cases returned
          · exact bound old
        · omega
  · rw [seen, active.between free]

theorem Active.kept_moves (old : f < shared.created) {c' j : Nat}
    (sweeper : p.sweeper = some c') (round : p.rounds = j + 1) :
    clear (coarse t.idle start first j) ≤ (shared.flow f).seen := by
  rcases active.flow_moves moved old with ⟨before, later, _⟩ | ⟨_, seen, _⟩
  · exact le_trans (active.kept before c' j sweeper round) later
  · obtain ⟨_, j', round', _, _, ahead, _⟩ := active.during c' sweeper
    obtain rfl : j = j' := Nat.succ_injective (round.symm.trans round')
    rw [seen]
    exact clear_mono ahead

variable (ordinary : ∀ now, act ≠ .call (.sweep now))

include ordinary

theorem Active.clock_moves (other : p.sweeper ≠ some c) :
    shared.now = p.world.shared.now ∧ pc.sweeping = false :=
  moved.not_sweeping (active.others c other) ordinary

theorem Active.others_moves (c' : Nat)
    (other : (if p.sweeper = some c ∧ pc.isReturned then none else p.sweeper) ≠ some c') :
    (Function.update p.world.pc c pc c').sweeping = false := by
  rw [Function.update_apply]
  split_ifs with acting
  · subst acting
    by_cases own : p.sweeper = some c'
    · have returned : pc.isReturned = true := by
        by_contra running
        exact other (by rw [if_neg fun both => running both.2, own])
      cases pc with
      | returned => rfl
      | _ => cases returned
    · exact (active.clock_moves moved ordinary own).2
  · refine active.others c' fun sweeper => other ?_
    rw [if_neg, sweeper]
    rintro ⟨own, _⟩
    exact acting (Option.some.inj (sweeper.symm.trans own))

theorem Active.between_moves
    (free : (if p.sweeper = some c ∧ pc.isReturned then none else p.sweeper) = none) :
    shared.now = coarse t.idle start first p.rounds := by
  by_cases own : p.sweeper = some c
  · have returned : pc.isReturned = true := by
      by_contra running
      rw [if_neg fun both => running both.2, own] at free
      cases free
    obtain ⟨_, j, round, _, sweeps, ahead, behind⟩ := active.during c own
    have later := (moved.sweepsAt ((start_le_coarse j).trans ahead) behind sweeps).1
    rw [round]
    cases pc with
    | returned => exact later
    | _ => cases returned
  · rw [if_neg fun both => own both.1] at free
    rw [(active.clock_moves moved ordinary own).1]
    exact active.between free

theorem Active.during_moves {c' : Nat}
    (sweeper : (if p.sweeper = some c ∧ pc.isReturned then none else p.sweeper) = some c') :
    p.sweeper = some c' ∧ ∃ j, p.rounds = j + 1 ∧ instant t.idle first j < 2 ^ 63 ∧
      (Function.update p.world.pc c pc c').SweepsAt t start shared.now
        (instant t.idle first j) ∧
      coarse t.idle start first j ≤ shared.now ∧
      shared.now ≤ coarse t.idle start first (j + 1) := by
  have before : p.sweeper = some c' := by
    split at sweeper
    · cases sweeper
    · exact sweeper
  obtain ⟨_, j, round, high, sweeps, ahead, behind⟩ := active.during c' before
  refine ⟨before, j, round, high, ?_⟩
  rw [Function.update_apply]
  split_ifs with acting
  · subst acting
    obtain ⟨later, forward, bound⟩ :=
      moved.sweepsAt ((start_le_coarse j).trans ahead) behind sweeps
    exact ⟨later, ahead.trans forward, bound⟩
  · have other : p.sweeper ≠ some c := fun own =>
      acting (Option.some.inj (before.symm.trans own))
    rw [(active.clock_moves moved ordinary other).1]
    exact ⟨sweeps, ahead, behind⟩

end Step

section Allowed

variable {c : Nat} {act : Act K} {shared : Shared K Nat} {pc : Pc K}
  (allowed : p.allows t first f (.call c act) = true)

include allowed

theorem Paced.allows_enters (op : Op K) (same : act = .call op) : op.spares f = true := by
  subst same
  cases op with
  | sweep now => rfl
  | _ => exact allowed

theorem Paced.allows_removes
    (moved : Moves t c p.world.shared (p.world.pc c) act shared pc) (k : K) (id : UInt64)
    (here : p.world.pc c = .remove k id)
    (present : (p.world.shared.shard (t.shard k)).m.lookup k = some f) :
    (p.world.shared.flow f).id ≠ id := by
  have same : act = .next := by
    rw [here] at moved
    cases moved <;> rfl
  subst same
  simp only [Paced.allows, here, decide_eq_true_eq] at allowed
  exact allowed present

theorem Active.spares_moves (positive : 0 < t.idle) (fits : Fits t.idle start first)
    (active : Active t start first f p)
    (moved : Moves t c p.world.shared (p.world.pc c) act shared pc) (c' : Nat) :
    (Function.update p.world.pc c pc c').Spares f := by
  rw [Function.update_apply]
  split_ifs with acting
  · subst acting
    exact moved.spares (active.spares c') (p.allows_enters allowed)
      (p.allows_removes allowed moved)
      fun _ _ _ _ _ here present => active.expire positive fits here present
  · exact active.spares c'

end Allowed

section Step

variable {c : Nat} {act : Act K} {shared : Shared K Nat} {pc : Pc K} (fresh : Bool)
  (positive : 0 < t.idle) (fits : Fits t.idle start first) (active : Active t start first f p)
  (moved : Moves t c p.world.shared (p.world.pc c) act shared pc)
  (frozen : World.Frozen t { shared, pc := Function.update p.world.pc c pc })
  (allowed : p.allows t first f (.call c act) = true)

include positive fits active moved frozen allowed

theorem Active.moves (ordinary : ∀ now, act ≠ .call (.sweep now)) :
    Active t start first f (p.after fresh f { shared, pc := Function.update p.world.pc c pc }
      (.call c act)) := by
  rw [after_ordinary ordinary]
  simp only [Function.update_self]
  exact {
    frozen
    spares := active.spares_moves allowed positive fits moved
    others := active.others_moves moved ordinary
    between := active.between_moves moved ordinary
    during := by
      intro c' sweeper
      obtain ⟨before, later⟩ := active.during_moves moved ordinary sweeper
      have busy : p.sweeper ≠ none := by
        rw [before]
        exact Option.some_ne_none c'
      refine ⟨⟨?_, ?_⟩, later⟩
      · exact (if_neg fun both => busy both.1).trans (active.during c' before).1.1
      · rw [(active.during c' before).1.2, decide_eq_false fun both => busy both.1]
        rfl
    reading := active.reading_after moved
    stored := active.stored_moves moved
    recent := active.recent_moves moved
    kept := fun old c' j sweeper round =>
      active.kept_moves moved old (active.during_moves moved ordinary sweeper).1 round }

theorem Active.sweeps {now : Int} (begins : act = .call (.sweep now)) :
    Active t start first f (p.after fresh f { shared, pc := Function.update p.world.pc c pc }
      (.call c act)) := by
  have spares := active.spares_moves allowed positive fits moved
  have stored := active.stored_moves moved
  subst begins
  simp only [Paced.allows, Bool.and_eq_true, Option.isNone_iff_eq_none, decide_eq_true_eq,
    Bool.or_eq_true] at allowed
  obtain ⟨⟨⟨free, rfl⟩, high⟩, touched⟩ := allowed
  have clock := active.between free
  cases here : p.world.pc c with
  | idle =>
      rw [here] at moved
      cases moved with
      | call =>
          exact {
            frozen
            spares
            others := by
              intro c' other
              have distinct : c' ≠ c := fun same => other (congrArg some same.symm)
              show (Function.update p.world.pc c _ c').sweeping = false
              rw [Function.update_of_ne distinct]
              exact active.others c' (by rw [free]; exact nofun)
            between := nofun
            during := by
              rintro _ ⟨⟩
              refine ⟨⟨rfl, rfl⟩, p.rounds, rfl, high, ?_, clock.ge,
                clock.le.trans (coarse_le_succ positive p.rounds)⟩
              show (Function.update p.world.pc c _ c).SweepsAt t start _ _
              rw [Function.update_self]
              rfl
            reading := fun _ => nofun
            stored
            recent := fun _ => nofun
            kept := by
              rintro old _ j ⟨⟩ round
              obtain rfl : p.rounds = j := Nat.succ_injective round
              rcases touched with absent | touched
              · exact absurd old (not_lt.mpr absent)
              · exact active.recent old touched }
  | _ =>
      rw [here] at moved
      cases moved

end Step

theorem Active.step {p' : Paced K} {action : Action K Nat} (fresh : Bool)
    (positive : 0 < t.idle) (fits : Fits t.idle start first) (active : Active t start first f p)
    (stepped : (paced t start first fresh f).step p action = some p') :
    Active t start first f p' := by
  obtain ⟨allowed, mapped⟩ := Option.ite_none_right_eq_some.mp stepped
  obtain ⟨next, moved, rfl⟩ := Option.map_eq_some_iff.mp mapped
  have frozen := active.frozen.step moved
  rcases World.step_cases moved with ⟨c, act, shared, pc, rfl, moves, rfl⟩ | ⟨rfl, rfl⟩
  · by_cases sweeps : ∃ now, act = .call (.sweep now)
    · obtain ⟨now, begins⟩ := sweeps
      exact active.sweeps fresh positive fits moves frozen allowed begins
    · exact active.moves fresh positive fits moves frozen allowed
        fun now begins => sweeps ⟨now, begins⟩
  · exact { active with frozen }

theorem Active.reached (fresh : Bool) (positive : 0 < t.idle) (fits : Fits t.idle start first)
    (reached : (paced t start first fresh f).Reachable p) : Active t start first f p := by
  refine reached.invariant (Active t start first f) ?_
    fun _ _ _ _ active stepped => active.step fresh positive fits stepped
  rintro _ ⟨lastID, rfl⟩
  exact .initial lastID

end Runs

end Netx.FlowTable
