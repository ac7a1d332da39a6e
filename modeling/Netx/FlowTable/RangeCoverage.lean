import Netx.FlowTable.Coverage

/-!
# What `Range` passes to its callback

`Range` locks one shard after the other while other calls open and remove flows. The
callback gets no key twice, it gets only flows that are in the table then, and it gets
every flow that is in the table all the while.
-/

set_option autoImplicit false

namespace Netx.FlowTable

open Transition

section Call

variable {K : Type} [DecidableEq K]

def Pc.RangeOf : Pc K → Prop
  | .range _ | .rangeLocked _ _ | .inRange _ _ | .returned _ => True
  | _ => False

def Pc.passes : Pc K → K → Option Nat
  | .rangeLocked _ rest, k => rest.lookup k
  | _, _ => none

/-- The callback may still get flow `f` under key `k`. -/
def Pc.Ahead (t : Table K) (k : K) (f : Nat) : Pc K → Prop
  | .range i => i ≤ t.shard k
  | .rangeLocked i rest | .inRange i rest =>
      i < t.shard k ∨ i = t.shard k ∧ rest.lookup k = some f
  | _ => False

variable {Call : Type} {t : Table K} {call : Call} {s s' : Shared K Call} {pc pc' : Pc K}
  {act : Act K}

def Pc.RangeKnows (s : Shared K Call) : Pc K → Prop
  | .rangeLocked i rest | .inRange i rest =>
      ∀ k f, rest.lookup k = some f → (s.shard i).m.lookup k = some f
  | _ => True

theorem Pc.RangeKnows.congr (knows : pc.RangeKnows s)
    (same : ∀ i, pc.locks t = some i → (s'.shard i).m = (s.shard i).m) : pc.RangeKnows s' := by
  cases pc with
  | rangeLocked i rest | inRange i rest =>
      simp only [Pc.RangeKnows, same i rfl]
      exact knows
  | _ => trivial

theorem Moves.range_goes (ranges : pc.RangeOf) (knows : pc.RangeKnows s)
    (moved : Moves t call s pc act s' pc') : pc'.RangeOf ∧ pc'.RangeKnows s' := by
  cases moved with
  | range i =>
      refine ⟨trivial, fun k f present => ?_⟩
      rwa [Shared.lock_m]
  | rangeDone | rangeNext | rangeStops | rangePanics => exact ⟨trivial, trivial⟩
  | rangeVisit i rest k f => exact ⟨trivial, fun _ _ => (lookup_of_erase knows · |>.2)⟩
  | rangeAgain => exact ⟨trivial, knows⟩
  | _ => exact ranges.elim

theorem Moves.ahead (ranges : pc.RangeOf)
    (moved : Moves t call s pc act s' pc') {k : K} {f : Nat} (ahead : pc'.Ahead t k f) :
    pc.Ahead t k f := by
  cases moved with
  | range i inside free =>
      rcases ahead with later | ⟨here, _⟩
      · exact Nat.le_of_lt later
      · exact Nat.le_of_eq here
  | rangeNext i rest => exact .inl ahead
  | rangeVisit i rest k' f' =>
      refine ahead.imp_right fun ⟨here, present⟩ => ⟨here, ?_⟩
      exact (lookup_of_erase (fun _ _ known => known) present).2
  | rangeAgain => exact ahead
  | rangeDone | rangeStops | rangePanics => exact ahead.elim
  | _ => exact ranges.elim

theorem Moves.passed (filed : s.Filed t) (knows : pc.RangeKnows s) {k : K} {f : Nat}
    (moved : Moves t call s pc (.visit k) s' pc') (passed : pc.passes k = some f) :
    (s.shard (t.shard k)).m.lookup k = some f ∧ pc.Ahead t k f ∧
      ∀ f', ¬pc'.Ahead t k f' := by
  cases moved with
  | rangeVisit i rest =>
      have present := knows k f passed
      have place : t.shard k = i := (filed.stored i k f present).2
      refine ⟨place.symm ▸ present, .inr ⟨place.symm, passed⟩, ?_⟩
      rintro f' (later | ⟨_, again⟩)
      · omega
      · rw [AList.lookup_erase] at again
        cases again
  | _ => cases passed

theorem Moves.ahead_stays {k : K} {f : Nat}
    (present : (s.shard (t.shard k)).m.lookup k = some f) (ahead : pc.Ahead t k f)
    (moved : Moves t call s pc act s' pc') :
    pc'.Ahead t k f ∨ act = .visit k ∧ pc.passes k = some f ∨ act = .returns false ∨
      pc' = .returned .panicked := by
  cases moved with
  | range i =>
      rcases Nat.lt_or_eq_of_le ahead with later | here
      · exact .inl (.inl later)
      · refine .inl (.inr ⟨here, ?_⟩)
        rw [here]
        exact present
  | rangeDone i last =>
      have bound := t.shard_lt k
      have reached : i ≤ t.shard k := ahead
      omega
  | rangeNext i rest empty =>
      rcases ahead with later | ⟨_, left⟩
      · exact .inl later
      · rw [lookup_of_keys_nil empty] at left
        cases left
  | rangeVisit i rest k' f' =>
      rcases ahead with later | ⟨here, left⟩
      · exact .inl (.inl later)
      · by_cases key : k = k'
        · subst key
          exact .inr (.inl ⟨rfl, left⟩)
        · exact .inl (.inr ⟨here, (AList.lookup_erase_ne key).trans left⟩)
  | rangeAgain => exact .inl ahead
  | rangeStops => exact .inr (.inr (.inl rfl))
  | rangePanics => exact .inr (.inr (.inr rfl))
  | _ => exact ahead.elim

end Call

section Runs

variable {K Call : Type} [DecidableEq K] [DecidableEq Call] {t : Table K} {c : Call}
  {w₀ w next : World K Call} {action : Action K Call}

def passes (c : Call) (w : World K Call) : Action K Call → World K Call → List (K × Nat)
  | .call call (.visit k), _ =>
      if call = c then ((w.pc c).passes k).toList.map (k, ·) else []
  | _, _ => []

/-- What a run passes to the callback of call `c`, in order. -/
def passedTo (t : Table K) (c : Call) (w : World K Call) (actions : List (Action K Call)) :
    List (K × Nat) :=
  (system Call t).trace (passes c) w actions

private theorem passedTo_cons (stepped : w.step t action = some next)
    (rest : List (Action K Call)) :
    passedTo t c w (action :: rest) = passes c w action next ++ passedTo t c next rest := by
  rw [passedTo, System.trace, show (system Call t).step w action = some next from stepped]
  rfl

private theorem mem_passes {k : K} {f : Nat} (passed : (k, f) ∈ passes c w action next) :
    action = .call c (.visit k) ∧ (w.pc c).passes k = some f := by
  unfold passes at passed
  split at passed
  · split at passed
    · rename_i k' same
      subst same
      simp only [List.mem_map, Option.mem_toList, Prod.mk.injEq] at passed
      obtain ⟨_, found, rfl, rfl⟩ := passed
      exact ⟨rfl, found⟩
    · cases passed
  · cases passed

private theorem passes_keys_nodup : ((passes c w action next).map Prod.fst).Nodup := by
  unfold passes
  split
  · split
    · rename_i call k same
      cases (w.pc c).passes k with
      | none => exact List.nodup_nil
      | some f => exact List.nodup_singleton _
    · exact List.nodup_nil
  · exact List.nodup_nil

structure World.Ranging (t : Table K) (c : Call) (w : World K Call) : Prop where
  timed : w.Timed t
  ranges : (w.pc c).RangeOf
  knows : (w.pc c).RangeKnows w.shared

structure World.RangeStep (t : Table K) (c : Call) (w : World K Call)
    (action : Action K Call) (next : World K Call) : Prop where
  ahead : ∀ k f, (next.pc c).Ahead t k f → (w.pc c).Ahead t k f
  passed : ∀ k f, (k, f) ∈ passes c w action next →
    (w.shared.shard (t.shard k)).m.lookup k = some f ∧ (w.pc c).Ahead t k f ∧
      ∀ f', ¬(next.pc c).Ahead t k f'
  stays : ∀ k f, (w.shared.shard (t.shard k)).m.lookup k = some f → (w.pc c).Ahead t k f →
    (next.pc c).Ahead t k f ∨ (k, f) ∈ passes c w action next ∨
      action = .call c (.returns false) ∨ next.pc c = .returned .panicked

theorem World.Ranging.step (ranging : w.Ranging t c) (stepped : w.step t action = some next) :
    next.Ranging t c ∧ w.RangeStep t c action next := by
  have timed := ranging.timed.step stepped
  rcases World.step_cases stepped with ⟨call, act, shared, pc, rfl, moved, rfl⟩ | ⟨rfl, rfl⟩
  · by_cases acting : c = call
    · subst acting
      obtain ⟨ranges, knows⟩ := moved.range_goes ranging.ranges ranging.knows
      refine ⟨⟨timed, ?_, ?_⟩, ?_, ?_, ?_⟩ <;> simp only [Function.update_self]
      · exact ranges
      · exact knows
      · exact fun k f => moved.ahead ranging.ranges
      · intro k f given
        obtain ⟨same, found⟩ := mem_passes given
        cases same
        exact moved.passed ranging.timed.frozen.filed ranging.knows found
      · intro k f present ahead
        rcases moved.ahead_stays present ahead with still | ⟨rfl, found⟩ | rfl | panicked
        · exact .inl still
        · refine .inr (.inl ?_)
          simp [passes, found]
        · exact .inr (.inr (.inl rfl))
        · exact .inr (.inr (.inr panicked))
    · have stays : ∀ i, (w.pc c).locks t = some i → (shared.shard i).m = (w.shared.shard i).m :=
        fun i => ranging.timed.frozen.guarded.map_stays moved acting
      refine ⟨⟨timed, ?_, ?_⟩, ?_, ?_, ?_⟩ <;> simp only [Function.update_of_ne acting]
      · exact ranging.ranges
      · exact ranging.knows.congr stays
      · exact fun k f ahead => ahead
      · intro k f given
        obtain ⟨same, _⟩ := mem_passes given
        cases same
        exact absurd rfl acting
      · exact fun k f _ ahead => .inl ahead
  · refine ⟨⟨timed, ranging.ranges, ranging.knows⟩, fun k f ahead => ahead, ?_,
      fun k f _ ahead => .inl ahead⟩
    intro k f given
    cases given

theorem World.Ranging.passedTo_ahead (ranging : w₀.Ranging t c)
    {actions : List (Action K Call)} (executed : (system Call t).exec w₀ actions = some w) :
    ((passedTo t c w₀ actions).map Prod.fst).Nodup ∧
      ∀ k f, (k, f) ∈ passedTo t c w₀ actions → (w₀.pc c).Ahead t k f ∧
        ∃ u, (system Call t).Visits w₀ actions u ∧
          (u.shared.shard (t.shard k)).m.lookup k = some f := by
  induction actions generalizing w₀ with
  | nil => exact ⟨List.nodup_nil, fun k f given => by cases given⟩
  | cons action rest ih =>
      obtain ⟨next, stepped, remaining⟩ := Option.bind_eq_some_iff.mp executed
      obtain ⟨rangingNext, here⟩ := ranging.step stepped
      obtain ⟨nodup, later⟩ := ih rangingNext remaining
      rw [passedTo_cons stepped]
      constructor
      · rw [List.map_append]
        refine List.Nodup.append passes_keys_nodup nodup ?_
        intro k first second
        obtain ⟨⟨k, f⟩, given, rfl⟩ := List.mem_map.mp first
        obtain ⟨⟨k', f'⟩, again, same⟩ := List.mem_map.mp second
        cases same
        exact (here.passed k f given).2.2 f' (later k f' again).1
      · intro k f given
        rcases List.mem_append.mp given with now | after
        · obtain ⟨present, ahead, _⟩ := here.passed k f now
          exact ⟨ahead, w₀, System.visits_start _ _, present⟩
        · obtain ⟨ahead, u, visit, present⟩ := later k f after
          exact ⟨here.ahead k f ahead, u, (System.visits_cons stepped).mpr (.inr visit), present⟩

theorem returned_stays {reply : Reply} (stepped : w.step t action = some next)
    (returned : w.pc c = .returned reply) : next.pc c = .returned reply := by
  rcases World.step_cases stepped with ⟨call, act, shared, pc, rfl, moved, rfl⟩ | ⟨rfl, rfl⟩
  · by_cases acting : c = call
    · subst acting
      rw [returned] at moved
      cases moved
    · simp only [Function.update_of_ne acting]
      exact returned
  · exact returned

theorem World.Ranging.ahead_passed (ranging : w₀.Ranging t c)
    {actions : List (Action K Call)} (executed : (system Call t).exec w₀ actions = some w)
    (returned : w.pc c = .returned .ranged) (goesOn : .call c (.returns false) ∉ actions)
    {k : K} {f : Nat} (ahead : (w₀.pc c).Ahead t k f)
    (stays : ∀ u, (system Call t).Visits w₀ actions u →
      (u.shared.shard (t.shard k)).m.lookup k = some f) :
    (k, f) ∈ passedTo t c w₀ actions := by
  induction actions generalizing w₀ with
  | nil =>
      cases executed
      rw [returned] at ahead
      exact ahead.elim
  | cons action rest ih =>
      obtain ⟨next, stepped, remaining⟩ := Option.bind_eq_some_iff.mp executed
      obtain ⟨rangingNext, here⟩ := ranging.step stepped
      rw [passedTo_cons stepped, List.mem_append]
      rcases here.stays k f (stays w₀ (System.visits_start _ _)) ahead with
        still | given | rfl | panicked
      · refine .inr (ih rangingNext remaining ?_ still fun u visit => ?_)
        · exact fun member => goesOn (List.mem_cons_of_mem _ member)
        · exact stays u ((System.visits_cons stepped).mpr (.inr visit))
      · exact .inl given
      · exact absurd List.mem_cons_self goesOn
      · have last : w.pc c = .returned .panicked :=
          System.exec_keeps (fun u : World K Call => u.pc c = .returned .panicked)
            (fun _ _ _ held moved => returned_stays moved held) panicked remaining
        rw [returned] at last
        cases last

structure RangeContract (t : Table K) (c : Call) (w₀ : World K Call)
    (actions : List (Action K Call)) : Prop where
  once : ((passedTo t c w₀ actions).map Prod.fst).Nodup
  stored : ∀ k f, (k, f) ∈ passedTo t c w₀ actions →
    ∃ u, (system Call t).Visits w₀ actions u ∧
      (u.shared.shard (t.shard k)).m.lookup k = some f
  complete : .call c (.returns false) ∉ actions → ∀ k f,
    (∀ u, (system Call t).Visits w₀ actions u →
      (u.shared.shard (t.shard k)).m.lookup k = some f) →
    (k, f) ∈ passedTo t c w₀ actions

theorem range_passes_what_stays {actions : List (Action K Call)}
    (reached : (system Call t).Reachable w₀) (called : w₀.pc c = .range 0)
    (executed : (system Call t).exec w₀ actions = some w)
    (returned : w.pc c = .returned .ranged) : RangeContract t c w₀ actions := by
  have start : w₀.Ranging t c := by
    refine ⟨.reached reached, ?_, ?_⟩ <;> rw [called] <;> trivial
  obtain ⟨once, given⟩ := start.passedTo_ahead executed
  refine ⟨once, fun k f passed => (given k f passed).2, fun goesOn k f stays => ?_⟩
  refine start.ahead_passed executed returned goesOn ?_ stays
  rw [called]
  exact Nat.zero_le _

end Runs

def rangeCalled : List (Action Nat Nat) :=
  [opens 0 7, opens 1 8, calls 2 (.call .range)].flatten

/-- A third flow is opened in the table before `Range` has the lock. -/
def rangeOvertaken : List (Action Nat Nat) :=
  [opens 3 9, nexts 2 1, calls 2 (.visit 9), calls 2 (.returns true), calls 2 (.visit 7),
    calls 2 (.returns true), calls 2 (.visit 8), calls 2 (.returns true), nexts 2 2].flatten

theorem range_passes_what_stays_overtaken :
    ∃ w₀ w, (system Nat oneShard).exec (.start 0 0) rangeCalled = some w₀ ∧
      (system Nat oneShard).exec w₀ rangeOvertaken = some w ∧
      passedTo oneShard 2 w₀ rangeOvertaken = [(9, 2), (7, 0), (8, 1)] ∧
      RangeContract oneShard 2 w₀ rangeOvertaken := by
  have result : ∀ w₀ w : World Nat Nat,
      (system Nat oneShard).exec (.start 0 0) rangeCalled = some w₀ → w₀.pc 2 = .range 0 →
      (system Nat oneShard).exec w₀ rangeOvertaken = some w → w.pc 2 = .returned .ranged →
      RangeContract oneShard 2 w₀ rangeOvertaken :=
    fun w₀ w opened called executed returned =>
      range_passes_what_stays (.exec (.initial ⟨0, 0, rfl⟩) opened) called executed returned
  exact ⟨_, _, rfl, rfl, rfl, result _ _ rfl rfl rfl rfl⟩

end Netx.FlowTable
