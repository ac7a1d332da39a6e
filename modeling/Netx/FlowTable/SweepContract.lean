import Netx.FlowTable.LeaveContract
import Netx.FlowTable.LoneSweep

/-!
# The decisions of a sweep

A `Sweep` among any other calls is justified in what it takes out, and alone at the
table it takes out exactly what it should.
-/

set_option autoImplicit false

namespace Netx.FlowTable

open Transition

section Contract

variable {K Call : Type} [DecidableEq K] [DecidableEq Call]

/-- What is known at the end of a run about a call `c` that is `Sweep` at time `now`. -/
structure SweepJustified (t : Table K) (w₀ : World K Call) (actions : List (Action K Call))
    (w : World K Call) (c : Call) (now : Int) : Prop where
  /-- A flow is taken out only if its `LastSeen` is before the cutoff, and keeps it. -/
  decided : ∀ action next f, w.Evicts t c f action next →
    (w.shared.flow f).lastSeen < now - t.idle ∧
      ∀ later final, (system Call t).exec next later = some final →
        (final.shared.flow f).lastSeen = (w.shared.flow f).lastSeen
  /-- A `Touch` that has swapped in a time from the cutoff on prevents that. -/
  spared : ∀ front back u d f stored reply, actions = front ++ .call d .next :: back →
    (system Call t).exec w₀ front = some u →
    u.pc d = .touch (.cas stored (u.shared.flow f).seen) f reply → now - t.idle ≤ stored →
    ∀ action next, ¬w.Evicts t c f action next
  /-- A `Touch` that starts after the sweep advanced the clock has recorded that time when
  it returns, or finds the flow frozen. -/
  touched : ∀ front back u d stage f reply next, actions = front ++ back →
    (system Call t).exec w₀ front = some u → .call c (.call (.sweep now)) ∈ front →
    (u.pc c).advanced = true → (u.pc d).touching = false → w.pc d = .touch stage f reply →
    w.step t (.call d .next) = some next → next.pc d = .returned reply →
    clear now ≤ (next.shared.flow f).lastSeen ∨ isFrozen (next.shared.flow f).seen = true

/-- What a call `c` of `Sweep` does from a state in which no call is in progress. -/
structure SweepAlone (t : Table K) (w : World K Call) (c : Call) (now : Int) : Prop where
  /-- It takes out the flows seen before the cutoff, each once, and keeps the others. -/
  exactly : ∀ acts final reply,
    (system Call t).exec w ((Act.call (.sweep now) :: acts).map (.call c)) = some final →
    final.pc c = .returned reply →
    (∀ i k, (final.shared.shard i).m.lookup k = w.shared.survivor (now - t.idle) i k) ∧
    ∃ evicted : List (Victim K),
      final.shared.removed = w.shared.removed ++ evicted.map (fun v => (v.2, c)) ∧
      evicted.Nodup ∧ ∀ k f, ⟨k, f⟩ ∈ evicted ↔
        (w.shared.shard (t.shard k)).m.lookup k = some f ∧
          (w.shared.flow f).lastSeen < now - t.idle
  returns : ∃ acts final count,
    (system Call t).exec w ((Act.call (.sweep now) :: acts).map (.call c)) = some final ∧
      final.pc c = .returned (.swept count)

variable {t : Table K} {w₀ w : World K Call} {actions : List (Action K Call)} {c : Call}
  {now : Int}

private theorem bmod_of_fits {x : Int} (low : -2 ^ 63 ≤ x) (high : x < 2 ^ 63) :
    x.bmod (2 ^ 64) = x := by
  apply Int.bmod_eq_of_le <;> omega

/-- The run splits at a state it passes through. -/
theorem exec_split {front back : List (Action K Call)} {u : World K Call}
    (executed : (system Call t).exec w₀ (front ++ back) = some w)
    (reached : (system Call t).exec w₀ front = some u) :
    (system Call t).exec u back = some w := by
  rw [System.exec_append, reached] at executed
  exact executed

theorem World.Timed.justified (timed : w₀.Timed t) (low : -2 ^ 63 ≤ now - t.idle)
    (high : now - t.idle < 2 ^ 63) (executed : (system Call t).exec w₀ actions = some w)
    (called : .call c (.call (.sweep now)) ∈ actions) :
    SweepJustified t w₀ actions w c now where
  decided action next f evicts := by
    have sweeps := sweepOf_called timed executed called
    obtain ⟨old, before, frozen, same⟩ := (timed.exec executed).1.evicts sweeps evicts
    rw [bmod_of_fits low high] at before
    refine ⟨before, fun later final rest => ?_⟩
    have reached := (timed.exec executed).1.step evicts.1
    rw [((reached.exec rest).2.flows f old).lastSeen_eq frozen, same]
  spared := by
    rintro front back u d f stored reply rfl reached here recent action next evicts
    have sweeps := sweepOf_called timed executed called
    obtain ⟨_, before, _, _⟩ := (timed.exec executed).1.evicts sweeps evicts
    rw [bmod_of_fits low high] at before
    obtain ⟨v, stepped, rest⟩ :=
      Option.bind_eq_some_iff.mp (exec_split executed reached)
    have taken : u.step t (.call d .next) = some v := stepped
    obtain ⟨old, recorded⟩ := (timed.exec reached).1.touch_swaps here taken
    have later := (((timed.exec reached).1.step taken).exec rest).2.flows f old
    have order := later.lastSeen
    omega
  touched := by
    rintro front back u d stage f reply next rfl reached before advanced idle here stepped
      returned
    have clock := (sweepOf_called timed reached before).clock advanced
    have since := exec_split executed reached
    have time := (timed.exec reached).1.touching since clock idle here
    rcases (timed.exec executed).1.touch_records here stepped returned with recorded | frozen
    · exact .inl (Int.le_trans time recorded)
    · exact .inr frozen

theorem World.Timed.alone (timed : w.Timed t) (positive : 0 < t.idle)
    (low : -2 ^ 63 ≤ now - t.idle) (high : now - t.idle < 2 ^ 63) (idle : w.pc c = .idle)
    (quiet : ∀ d, (w.pc d).resting = true) : SweepAlone t w c now := by
  have begins : (solo t c).step (w.shared, w.pc c) (.call (.sweep now)) =
      some (w.shared, .advance now) := by
    rw [idle]
    rfl
  have filed := timed.frozen.filed
  have free : ∀ j, (w.shared.shard j).mu = none := by
    intro j
    rw [Option.eq_none_iff_forall_ne_some]
    intro d held
    rw [timed.frozen.guarded.mu, Pc.locks_resting (quiet d)] at held
    cases held
  constructor
  · intro acts final reply executed returned
    rw [exec_solo, Option.map_eq_some_iff] at executed
    obtain ⟨⟨s, pc⟩, ran, rfl⟩ := executed
    rw [System.exec_cons, begins] at ran
    simp only [Function.update_self] at returned
    subst returned
    have sweeping := sweeping_exec positive filed ran
    rw [← bmod_of_fits low high]
    refine ⟨fun i k => (sweeping.maps i k).1 trivial, ?_⟩
    obtain ⟨evicted, list, distinct, exactly⟩ := sweeping.evicted
    refine ⟨evicted, list, distinct, fun k f => (exactly k f).trans ?_⟩
    constructor
    · rintro ⟨j, _, present, old⟩
      obtain rfl := (filed.stored j k f present).2
      exact ⟨present, old⟩
    · rintro ⟨present, old⟩
      exact ⟨t.shard k, trivial, present, old⟩
  · obtain ⟨s, count, acts, ran⟩ := leads_returned (c := c) positive now w.shared free
    refine ⟨acts, { shared := s, pc := Function.update w.pc c (.returned (.swept count)) },
      count, ?_, ?_⟩
    · rw [exec_solo, System.exec_cons, begins]
      exact congrArg _ ran
    · simp only [Function.update_self]

/-- Whatever else happens at the table, its clock moves forward, a `Sweep` takes out only
flows whose `LastSeen` is and stays before its cutoff, and alone it takes out exactly
those. -/
theorem sweep_justified (positive : 0 < t.idle) (low : -2 ^ 63 ≤ now - t.idle)
    (high : now - t.idle < 2 ^ 63) (initial : (system Call t).initial w₀)
    (executed : (system Call t).exec w₀ actions = some w) (c : Call) :
    (∀ later final, (system Call t).exec w later = some final →
      w.shared.now ≤ final.shared.now) ∧
    (.call c (.call (.sweep now)) ∈ actions → SweepJustified t w₀ actions w c now) ∧
    (w.pc c = .idle → (∀ d, (w.pc d).resting = true) → SweepAlone t w c now) := by
  obtain ⟨clock, lastID, rfl⟩ := initial
  have timed : (World.start clock lastID : World K Call).Timed t := .start clock lastID
  have reached := (timed.exec executed).1
  exact ⟨fun later final rest => (reached.exec rest).2.now,
    timed.justified low high executed, reached.alone positive low high⟩

end Contract

/-- Two flows are opened, a sweep advances the clock, and one of the flows is touched before
the sweep comes to it. -/
def touchedInTime : List (Action Nat Nat) :=
  calls 0 (.call (.getOrOpen 7 false)) ++ nexts 0 3 ++ calls 1 (.call (.getOrOpen 8 false)) ++
    nexts 1 3 ++ calls 2 (.call (.sweep 31)) ++ nexts 2 2 ++ calls 3 (.call (.touch 1)) ++
    nexts 3 3 ++ nexts 2 1 ++ calls 2 (.visit 8) ++ calls 2 (.visit 7) ++ nexts 2 1

theorem sweep_justified_in_time :
    ∃ w, (system Nat (newTable ⟨1, 20, true⟩ id)).exec (.start 0 0) touchedInTime = some w ∧
      (w.shared.removed = [(0, 2)] ∧ (w.shared.flow 0).seen = 1 ∧
        (w.shared.flow 1).seen = 30) ∧
      SweepJustified (newTable ⟨1, 20, true⟩ id) (.start 0 0) touchedInTime w 2 31 := by
  have checked : ((system Nat (newTable ⟨1, 20, true⟩ id)).exec (.start 0 0) touchedInTime).any
      (fun w => decide (w.shared.removed = [(0, 2)] ∧ (w.shared.flow 0).seen = 1 ∧
        (w.shared.flow 1).seen = 30)) = true := by
    decide +kernel
  obtain ⟨w, executed, facts⟩ := System.exec_of_check _ checked
  exact ⟨w, executed, of_decide_eq_true facts,
    (sweep_justified (by decide) (by decide) (by decide) ⟨0, 0, rfl⟩ executed 2).2.1
      (by simp [touchedInTime, calls])⟩

end Netx.FlowTable
