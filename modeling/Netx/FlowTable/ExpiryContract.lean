import Netx.FlowTable.Expiry
import Netx.FlowTable.LeaveContract

/-!
# When an active flow is safe from idle expiry

A tick of `Run` fits into `IdleTimeout` from 10 ms on. Below, the first sweep already
takes out a flow that was touched right before it.
-/

set_option autoImplicit false

namespace Netx.FlowTable

section Steps

private theorem after_world {K : Type} (fresh : Bool) (f : Nat) (p : Paced K) (next : World K Nat)
    (action : Action K Nat) : (p.after fresh f next action).world = next := by
  cases action with
  | nextID => rfl
  | call c act =>
      cases act with
      | call op => cases op <;> rfl
      | _ => rfl

section Points

variable {K : Type}

/-- Call `c` has come to `pc`, and the table to `shared`. -/
def Paced.put (p : Paced K) (c : Nat) (shared : Shared K Nat) (pc : Pc K) : Paced K :=
  { p with world := { shared, pc := Function.update p.world.pc c pc } }

/-- Call `c` begins a sweep. -/
def Paced.begun (p : Paced K) (c : Nat) : Paced K :=
  { p with rounds := p.rounds + 1, sweeper := some c, reading := [], touched := false }

/-- The points from which a call goes on unwatched. -/
def Pc.plain : Pc K → Bool
  | .touchClock _ _ | .remove _ _ => false
  | _ => true

theorem Paced.put_idle {p : Paced K} {c : Nat} (idle : p.world.pc c = .idle) :
    p.put c p.world.shared .idle = p := by
  rw [Paced.put, ← idle, Function.update_eq_self]

theorem Pc.plain_blind {pc : Pc K} {f : Nat} (plain : pc.plain = true) :
    pc.readsClock f = false := by
  cases pc with
  | touchClock g reply => cases plain
  | _ => rfl

end Points

variable {K : Type} [DecidableEq K] {t : Table K} {start first : Int} {fresh : Bool} {f : Nat}
  {p : Paced K}

/-- A run with `Run` is a run of the table. -/
theorem paced_world (reached : (paced t start first fresh f).Reachable p) :
    (system Nat t).Reachable p.world := by
  refine reached.invariant (fun p => (system Nat t).Reachable p.world) ?_ ?_
  · rintro _ ⟨lastID, rfl⟩
    exact .initial ⟨start, lastID, rfl⟩
  · intro p action p' _ before stepped
    obtain ⟨_, mapped⟩ := Option.ite_none_right_eq_some.mp stepped
    obtain ⟨next, moved, rfl⟩ := Option.map_eq_some_iff.mp mapped
    rw [after_world]
    exact before.step moved

variable {c : Nat} {s s' : Shared K Nat} {pc pc' : Pc K} {act : Act K}

private theorem paced_call (allowed : (p.put c s pc).allows t first f (.call c act) = true)
    (effected : effect t c s pc act = some (s', pc')) :
    (paced t start first fresh f).step (p.put c s pc) (.call c act) =
      some ((p.put c s pc).after fresh f (p.put c s' pc').world (.call c act)) := by
  simp only [paced, if_pos allowed]
  simp only [World.step, Paced.put, Function.update_self, effected, Option.map_some,
    Function.update_idem]

theorem Paced.allows_inside (plain : pc.plain = true) (inside : ∀ op, act ≠ .call op) :
    (p.put c s pc).allows t first f (.call c act) = true := by
  cases act with
  | call op => exact absurd rfl (inside op)
  | next =>
      cases pc with
      | remove k id => cases plain
      | _ => simp only [Paced.allows, Paced.put, Function.update_self]
  | _ => rfl

private theorem reachable_goes (reached : (paced t start first fresh f).Reachable (p.put c s pc))
    (allowed : (p.put c s pc).allows t first f (.call c act) = true)
    (ordinary : ∀ now, act ≠ .call (.sweep now))
    (effected : effect t c s pc act = some (s', pc')) (plain : pc.plain = true)
    (going : pc'.isReturned = false) (same : s'.created = s.created) :
    (paced t start first fresh f).Reachable (p.put c s' pc') := by
  have stepped := reached.step (paced_call allowed effected)
  have opened : ¬(s.created ≤ f ∧ f < s.created) := by omega
  rw [after_ordinary ordinary] at stepped
  simpa [Paced.put, Pc.plain_blind plain, going, same, opened] using stepped

private theorem reachable_next (reached : (paced t start first fresh f).Reachable (p.put c s pc))
    (effected : effect t c s pc .next = some (s', pc')) (plain : pc.plain = true)
    (going : pc'.isReturned = false) (same : s'.created = s.created) :
    (paced t start first fresh f).Reachable (p.put c s' pc') :=
  reachable_goes reached (Paced.allows_inside plain (by simp)) (by simp) effected plain going same

/-- A call between two sweeps returns. One that has read the clock has touched the flow. -/
theorem reachable_returns {reply : Reply}
    (reached : (paced t start first fresh f).Reachable (p.put c s pc)) (free : p.sweeper = none)
    (effected : effect t c s pc .next = some (s', .returned reply)) (plain : pc.plain = true) :
    ∃ touched, (paced t start first fresh f).Reachable
        (Paced.put { p with touched } c s' (.returned reply)) ∧
      (c ∈ p.reading → touched = true) := by
  have stepped := reached.step (paced_call (Paced.allows_inside plain (by simp)) effected)
  rw [after_ordinary (by simp)] at stepped
  refine ⟨p.touched || decide (c ∈ p.reading ∨ fresh ∧ s.created ≤ f ∧ f < s'.created), ?_,
    fun listed => by simp [listed]⟩
  simpa [Paced.put, free, Pc.plain_blind plain, Pc.isReturned] using stepped

private theorem touch_reads {reply : Reply} (free : p.sweeper = none)
    (reached : (paced t start first fresh f).Reachable (p.put c s (.touchClock f reply))) :
    (paced t start first fresh f).Reachable (Paced.put { p with reading := c :: p.reading } c s
      (.touch (.load (clear s.now)) f reply)) := by
  have allowed : (p.put c s (.touchClock f reply)).allows t first f (.call c .next) = true := by
    simp [Paced.allows, Paced.put]
  have effected : effect t c s (.touchClock f reply) .next =
      some (s, .touch (.load (clear s.now)) f reply) := rfl
  have opened : ¬(s.created ≤ f ∧ f < s.created) := by omega
  have stepped := reached.step (paced_call allowed effected)
  rw [after_ordinary (by simp)] at stepped
  simpa [Paced.put, free, Pc.readsClock, Pc.isReturned, opened] using stepped

private theorem sweep_begins (reached : (paced t start first fresh f).Reachable p)
    (idle : p.world.pc c = .idle) (free : p.sweeper = none)
    (ready : p.world.shared.created ≤ f ∨ p.touched = true)
    (high : instant t.idle first p.rounds < 2 ^ 63) :
    (paced t start first fresh f).Reachable
      ((p.begun c).put c p.world.shared (.advance (instant t.idle first p.rounds))) := by
  have allowed : p.allows t first f
      (.call c (.call (.sweep (instant t.idle first p.rounds)))) = true := by
    simp only [Paced.allows, free, Option.isNone_none, high, decide_true, Bool.and_true,
      Bool.true_and, Bool.or_eq_true, decide_eq_true_eq]
    exact ready
  rw [← Paced.put_idle idle] at allowed reached
  exact reached.step (paced_call allowed rfl)

private theorem sweep_advances {now : Int} (positive : 0 < t.idle)
    (reached : (paced t start first fresh f).Reachable (p.put c s (.advance now))) :
    (paced t start first fresh f).Reachable (p.put c { s with now := max s.now now }
      (.sweep ((now - t.idle).bmod (2 ^ 64)) 0 [])) := by
  have swept : afterAdvance t now = .sweep ((now - t.idle).bmod (2 ^ 64)) 0 [] :=
    if_neg (not_le.mpr positive)
  by_cases late : now ≤ s.now
  · rw [max_eq_left late]
    refine reachable_next reached ?_ rfl rfl rfl
    simp only [effect, next, if_pos late, swept]
  · rw [max_eq_right (not_le.mp late).le]
    have loaded : effect t c s (.advance now) .next = some (s, .advanceCas now s.now) := by
      simp only [effect, next, if_neg late]
    refine reachable_next (reachable_next reached loaded rfl rfl rfl) ?_ rfl rfl rfl
    simp only [effect, next, if_true, swept]

/-- A sweep that is due comes to the first shard. -/
theorem sweep_scans {m : Flows K} (positive : 0 < t.idle) (size : 0 < t.size)
    (reached : (paced t start first fresh f).Reachable p) (idle : p.world.pc c = .idle)
    (free : p.sweeper = none) (ready : p.world.shared.created ≤ f ∨ p.touched = true)
    (high : instant t.idle first p.rounds < 2 ^ 63)
    (shard : p.world.shared.shard 0 = { mu := none, m }) :
    (paced t start first fresh f).Reachable ((p.begun c).put c
      ({ p.world.shared with
        now := max p.world.shared.now (instant t.idle first p.rounds) }.lock 0 c)
      (.scan ((instant t.idle first p.rounds - t.idle).bmod (2 ^ 64)) 0 m [])) := by
  refine reachable_next (sweep_advances positive (sweep_begins reached idle free ready high)) ?_
    rfl rfl rfl
  simp only [effect, next, if_pos size, shard]

private theorem sweep_returns {count : Nat}
    (reached : (paced t start first fresh f).Reachable ((p.begun c).put c s (.victims [] count))) :
    (paced t start first fresh f).Reachable
      (Paced.put { p.begun c with sweeper := none } c s (.returned (.swept count))) := by
  have effected : effect t c s (.victims [] count) .next = some (s, .returned (.swept count)) := rfl
  have stepped := reached.step (paced_call (Paced.allows_inside rfl (by simp)) effected)
  rw [after_ordinary (by simp)] at stepped
  simpa [Paced.put, Paced.begun, Pc.isReturned] using stepped

variable {i : Nat} {k : K} {cutoff v : Int} {rest : Flows K}
  {found : List (Victim K)}

private theorem effect_scan (present : rest.lookup k = some f)
    (expires : (s.flow f).expire cutoff = .goes v) :
    effect t c s (.scan cutoff i rest found) (.visit k) =
      some (s, .scanCas cutoff i k f v rest found) := by
  simp only [effect, visit, present, Option.map_some, expires]

private theorem effect_scanCas (unchanged : (s.flow f).seen = v) :
    effect t c s (.scanCas cutoff i k f v rest found) .next =
      some ((s.setFlow f { s.flow f with seen := setFrozen v }).delete i k f c,
        .scan cutoff i (rest.erase k) (found ++ [⟨k, f⟩])) := by
  simp only [effect, next, Flow.expireCas, unchanged, if_true, afterExpire]

end Steps

/-- One shard for all keys. -/
def lone (idle : Int) : Table Nat :=
  newTable ⟨1, idle, false⟩ fun _ => 0

private theorem lone_shard (idle : Int) (k : Nat) : (lone idle).shard k = 0 :=
  Nat.zero_and _

/-- Between two sweeps the table is empty, and no call from `c` on has begun. -/
structure Quiet (idle start first : Int) (c : Nat) (p : Paced Nat) : Prop where
  created : p.world.shared.created = 0
  clock : p.world.shared.now = coarse idle start first p.rounds
  shard : p.world.shared.shard 0 = { mu := none, m := ∅ }
  free : p.sweeper = none
  idle : ∀ c' ≥ c, p.world.pc c' = .idle

/-- Between two sweeps flow 0 is open under key 7, and no call from `c` on has begun. -/
structure Alone (idle start first : Int) (c : Nat) (p : Paced Nat) : Prop where
  created : p.world.shared.created = 1
  seen : (p.world.shared.flow 0).seen = clear p.world.shared.now
  clock : p.world.shared.now = coarse idle start first p.rounds
  shard : p.world.shared.shard 0 = { mu := none, m := (∅ : Flows Nat).insert 7 0 }
  key : p.world.shared.key 0 = some 7
  free : p.sweeper = none
  idle : ∀ c' ≥ c, p.world.pc c' = .idle

private theorem max_coarse {idle start first : Int} (positive : 0 < idle) (rounds : Nat) :
    max (coarse idle start first rounds) (instant idle first rounds) =
      coarse idle start first (rounds + 1) := by
  refine le_antisymm (max_le (coarse_le_succ positive rounds) (le_max_right _ _)) ?_
  exact max_le_max (start_le_coarse rounds) le_rfl

section Eviction

variable {idle start first : Int} {fresh : Bool} {c : Nat} {p : Paced Nat}

private theorem idle_after {pc : Nat → Pc Nat} (idle : ∀ c' ≥ c, pc c' = .idle) (point : Pc Nat) :
    ∀ c' ≥ c + 1, Function.update pc c point c' = .idle := by
  intro c' later
  rw [Function.update_of_ne (Nat.ne_of_gt later)]
  exact idle c' (Nat.le_of_lt later)

/-- A sweep of the empty table only moves the clock. -/
theorem Quiet.swept (quiet : Quiet idle start first c p) (positive : 0 < idle)
    (reached : (paced (lone idle) start first fresh 0).Reachable p)
    (high : instant idle first p.rounds < 2 ^ 63) :
    ∃ next, (paced (lone idle) start first fresh 0).Reachable next ∧
      Quiet idle start first (c + 1) next ∧ next.rounds = p.rounds + 1 := by
  have scans := sweep_scans (c := c) (t := lone idle) positive Nat.one_pos reached
    (quiet.idle c le_rfl) quiet.free (.inl quiet.created.le) high quiet.shard
  have unlocked := reachable_next scans rfl rfl rfl rfl
  refine ⟨_, sweep_returns (reachable_next unlocked rfl rfl rfl rfl), ?_, rfl⟩
  refine ⟨quiet.created, ?_, ?_, rfl, idle_after quiet.idle _⟩
  · show max p.world.shared.now (instant idle first p.rounds) = _
    rw [quiet.clock, max_coarse positive]
    rfl
  · simp [Paced.put, Shared.lock, Shared.unlock, Shared.setShard, quiet.shard]

private theorem exists_quiet (positive : 0 < idle) (fresh : Bool) {rounds : Nat}
    (high : instant idle first rounds < 2 ^ 63) :
    ∃ c p, (paced (lone idle) start first fresh 0).Reachable p ∧
      Quiet idle start first c p ∧ p.rounds = rounds := by
  induction rounds with
  | zero => exact ⟨0, .start start 0, .initial ⟨0, rfl⟩, ⟨rfl, rfl, rfl, rfl, fun _ _ => rfl⟩, rfl⟩
  | succ rounds ih =>
      have bound := (tick_bounds positive).1
      rw [instant_succ] at high
      obtain ⟨c, p, reached, quiet, rfl⟩ := ih (by omega)
      obtain ⟨next, reached, quiet, same⟩ := quiet.swept positive reached (by omega)
      exact ⟨c + 1, next, reached, quiet, same⟩

theorem Quiet.opened (quiet : Quiet idle start first c p)
    (reached : (paced (lone idle) start first fresh 0).Reachable p) :
    ∃ next, (paced (lone idle) start first fresh 0).Reachable next ∧
      Alone idle start first (c + 1) next ∧ next.rounds = p.rounds := by
  rw [← Paced.put_idle (quiet.idle c le_rfl)] at reached
  have entered : effect (lone idle) c p.world.shared .idle (.call (.getOrOpen 7 false)) =
      some (p.world.shared, .getOrOpen 7 false) := rfl
  have absent : effect (lone idle) c p.world.shared (.getOrOpen 7 false) .next =
      some (p.world.shared.lock 0 c, .nextID 7) := by
    simp only [effect, next, lone_shard, quiet.shard]
    rfl
  have locked := reachable_next (reachable_goes reached rfl (by simp) entered rfl rfl rfl) absent
    rfl rfl rfl
  obtain ⟨touched, returned, _⟩ := reachable_returns (reachable_next locked rfl rfl rfl rfl)
    quiet.free rfl rfl
  refine ⟨_, returned, ⟨?_, ?_, quiet.clock, ?_, ?_, quiet.free,
    idle_after quiet.idle _⟩, rfl⟩
  · exact congrArg (· + 1) quiet.created
  all_goals simp [Paced.put, Shared.insert, Shared.setShard, Shared.lock, Flow.newInTable,
    lone_shard, quiet.created, quiet.shard]

theorem Alone.touched (alone : Alone idle start first c p)
    (reached : (paced (lone idle) start first fresh 0).Reachable p) :
    ∃ next, (paced (lone idle) start first fresh 0).Reachable next ∧
      Alone idle start first (c + 1) next ∧ next.rounds = p.rounds ∧ next.touched = true := by
  rw [← Paced.put_idle (alone.idle c le_rfl)] at reached
  have entered : effect (lone idle) c p.world.shared .idle (.call (.touch 0)) =
      some (p.world.shared, .touchClock 0 .touched) := by
    simp [effect, enter, alone.created]
  have read := touch_reads alone.free (reachable_goes reached rfl (by simp) entered rfl rfl rfl)
  have kept : effect (lone idle) c p.world.shared
      (.touch (.load (clear p.world.shared.now)) 0 .touched) .next =
        some (p.world.shared.setFlow 0 (p.world.shared.flow 0), .returned .touched) := by
    simp only [effect, next, Flow.touch, alone.seen, le_rfl, or_true, if_true]
  obtain ⟨touched, returned, recorded⟩ := reachable_returns read alone.free kept rfl
  refine ⟨_, returned, ⟨alone.created, ?_, alone.clock, alone.shard, alone.key, alone.free,
    idle_after alone.idle _⟩, rfl, recorded List.mem_cons_self⟩
  exact (congrArg Flow.seen (Shared.setFlow_self _ _)).trans alone.seen

theorem Alone.evicted (alone : Alone idle start first c p) (touched : p.touched = true)
    (positive : 0 < idle) (high : instant idle first p.rounds < 2 ^ 63)
    (late : clear (coarse idle start first p.rounds) <
      (instant idle first p.rounds - idle).bmod (2 ^ 64))
    (reached : (paced (lone idle) start first fresh 0).Reachable p) :
    ∃ next, (paced (lone idle) start first fresh 0).Reachable next ∧
      0 < next.world.shared.created ∧ ¬next.world.shared.Stored 0 := by
  rw [← alone.clock] at late
  have scans := sweep_scans (t := lone idle) positive Nat.one_pos reached (alone.idle c le_rfl)
    alone.free (.inr touched) high alone.shard
  have expires : (p.world.shared.flow 0).expire
      ((instant idle first p.rounds - idle).bmod (2 ^ 64)) =
      .goes (clear p.world.shared.now) := by
    have even : clear (clear p.world.shared.now) = clear p.world.shared.now :=
      clear_of_live (isFrozen_clear _)
    rw [Flow.expire, alone.seen, even, if_neg (not_le.mpr late), isFrozen_clear]
    rfl
  have visited := reachable_goes scans (Paced.allows_inside rfl (by simp)) (by simp)
    (effect_scan (k := 7) rfl expires) rfl rfl rfl
  have swapped := reachable_next visited (effect_scanCas alone.seen) rfl rfl rfl
  refine ⟨_, swapped, ?_, ?_⟩
  · show 0 < p.world.shared.created
    rw [alone.created]
    exact Nat.one_pos
  · refine (World.Frozen.reached (paced_world swapped)).filed.not_stored (k := 7) alone.key ?_
    simp only [Paced.put, lone_shard, Shared.delete, Shared.setShard, Function.update_self,
      AList.lookup_erase]

/-- Otherwise some cutoff is after the time that a touch before it records. -/
theorem exists_late (positive : 0 < idle) (small : idle < 2 ^ 63) (low : -2 ^ 63 ≤ first)
    (high : max start first + 2 * tick idle < 2 ^ 63) (unfit : ¬Fits idle start first) :
    ∃ round, instant idle first round < 2 ^ 63 ∧ clear (coarse idle start first round) <
      (instant idle first round - idle).bmod (2 ^ 64) := by
  have bounds := tick_bounds positive
  by_cases overflow : first - idle < -2 ^ 63
  · -- the last sweep whose cutoff wraps around
    have fraction := Int.emod_add_mul_ediv (-2 ^ 63 - 1 - (first - idle)) (tick idle)
    have least := Int.emod_nonneg (-2 ^ 63 - 1 - (first - idle)) (show tick idle ≠ 0 by omega)
    have most := Int.emod_lt_of_pos (-2 ^ 63 - 1 - (first - idle)) (show 0 < tick idle by omega)
    have count : 0 ≤ (-2 ^ 63 - 1 - (first - idle)) / tick idle :=
      Int.ediv_nonneg (by omega) (by omega)
    obtain ⟨round, same⟩ := Int.eq_ofNat_of_zero_le count
    have here : instant idle first round =
        first + tick idle * ((-2 ^ 63 - 1 - (first - idle)) / tick idle) := by
      rw [instant, same, Int.mul_comm]
    have wrapped : (instant idle first round - idle).bmod (2 ^ 64) =
        instant idle first round - idle + 2 ^ 64 := by
      rw [← Int.add_bmod_right, Int.bmod_eq_of_le] <;> omega
    have behind : coarse idle start first round ≤ max start (instant idle first round) :=
      coarse_le_succ positive round
    refine ⟨round, by omega, ?_⟩
    rw [wrapped]
    simp only [clear]
    omega
  · have exact_ {round : Nat} (next : instant idle first round < 2 ^ 63) :
        (instant idle first round - idle).bmod (2 ^ 64) = instant idle first round - idle := by
      have later := @instant_mono idle first positive round
      rw [Int.bmod_eq_of_le] <;> omega
    by_cases early : first - idle ≤ clear start
    · -- a sweep after the clock has caught up with the sweeps
      have short : ¬(10000000 < idle ∨ idle = 10000000 ∧ first % 2 = 0) := fun long =>
        unfit ⟨long, not_lt.mp overflow, early⟩
      have least : tick idle = 10000000 := by
        rw [tick, if_pos positive]
        omega
      obtain ⟨round, ahead, near⟩ : ∃ round, start ≤ instant idle first round ∧
          instant idle first round ≤ max start first + tick idle := by
        refine ⟨((start - first) / 10000000 + 1).toNat, ?_, ?_⟩ <;> rw [instant, least] <;> omega
      have parity : instant idle first round % 2 = first % 2 := by
        rw [instant, least]
        omega
      have next := @instant_succ idle first round
      refine ⟨round + 1, by omega, ?_⟩
      rw [exact_ (by omega), coarse, max_eq_right ahead, next, least]
      simp only [clear]
      omega
    · refine ⟨0, by rw [instant_zero]; omega, ?_⟩
      rw [exact_ (by rw [instant_zero]; omega), instant_zero]
      exact not_le.mp early

end Eviction

theorem active_flow_spared_iff (idle start first : Int) (fresh : Bool) (positive : 0 < idle)
    (small : idle < 2 ^ 63) (low : -2 ^ 63 ≤ first)
    (high : max start first + 2 * tick idle < 2 ^ 63) :
    NeverEvicts idle start first fresh ↔ Fits idle start first := by
  constructor
  · intro never
    by_contra unfit
    obtain ⟨round, next, late⟩ := exists_late positive small low high unfit
    obtain ⟨c, p, reached, quiet, rfl⟩ := exists_quiet positive fresh next
    obtain ⟨p₁, reached, alone, rounds⟩ := quiet.opened reached
    obtain ⟨p₂, reached, alone, rounds', touched⟩ := alone.touched reached
    rw [← rounds, ← rounds'] at next late
    obtain ⟨last, reached, created, gone⟩ := alone.evicted touched positive next late reached
    exact gone (never Nat (lone idle) rfl 0 last reached created)
  · rintro fits K _ t rfl f p reached old
    exact ((Active.reached fresh positive fits reached).stored old).1

/-- A minute of `IdleTimeout`, from the beginning of 2026, with a first sweep after ten
seconds. -/
theorem active_flow_spared_iff_minute :
    Fits 60000000000 1767225600000000000 1767225610000000000 ∧
      NeverEvicts 60000000000 1767225600000000000 1767225610000000000 false := by
  have fits : Fits 60000000000 1767225600000000000 1767225610000000000 :=
    ⟨.inl (by decide), by decide, by decide⟩
  exact ⟨fits, (active_flow_spared_iff 60000000000 1767225600000000000 1767225610000000000 false
    (by decide) (by decide) (by decide) (by decide)).mpr fits⟩


/-- A sweep of the empty table, and then a flow is opened, touched and swept, with
an `IdleTimeout` of 1 ms. -/
def evictionRun : List (Action Nat Nat) :=
  calls 0 (.call (.sweep 10000000)) ++ nexts 0 6 ++
    calls 1 (.call (.getOrOpen 7 false)) ++ nexts 1 3 ++
    calls 2 (.call (.touch 0)) ++ nexts 2 2 ++
    calls 3 (.call (.sweep 20000000)) ++ nexts 3 3 ++ calls 3 (.visit 7) ++ nexts 3 1

theorem touched_flow_evicted :
    (∃ p, (paced (lone 1000000) 0 10000000 false 0).exec (.start 0 0) evictionRun = some p ∧
      p.rounds = 2 ∧ p.world.shared.created = 1 ∧ ¬p.world.shared.Stored 0) ∧
    ¬NeverEvicts 1000000 0 10000000 false := by
  have checked : ((paced (lone 1000000) 0 10000000 false 0).exec (.start 0 0) evictionRun).any
      (fun p => decide (p.rounds = 2 ∧ p.world.shared.created = 1 ∧
        p.world.shared.key 0 = some 7 ∧
        (p.world.shared.shard ((lone 1000000).shard 7)).m.lookup 7 = none)) = true := by
    decide +kernel
  obtain ⟨p, executed, facts⟩ := Transition.System.exec_of_check _ checked
  obtain ⟨rounds, created, known, gone⟩ := of_decide_eq_true facts
  have reached : (paced (lone 1000000) 0 10000000 false 0).Reachable p :=
    Transition.System.Reachable.exec (.initial ⟨0, rfl⟩) executed
  have evicted : ¬p.world.shared.Stored 0 :=
    (World.Frozen.reached (paced_world reached)).filed.not_stored known gone
  refine ⟨⟨p, executed, rounds, created, evicted⟩, fun never => evicted ?_⟩
  exact never Nat (lone 1000000) rfl 0 p reached (by rw [created]; exact Nat.one_pos)

end Netx.FlowTable
