import Netx.FlowTable.Closing
import Netx.FlowTable.Whereabouts

/-!
# `OnClose` exactly once

Whatever the calls on the table and on its flows do, each flow that leaves is
reported once, by the call that took it out.
-/

set_option autoImplicit false

namespace Netx.FlowTable

open Transition (Custody)

section Runs

variable {K Call : Type} [DecidableEq K] [DecidableEq Call] {t : Table K}

structure World.Sound (t : Table K) (w : World K Call) : Prop where
  guarded : w.Guarded t
  keyed : w.Keyed t
  placed : w.Placed
  stands : ∀ call, (w.pc call).Stands w.shared
  counts : ∀ call, (w.pc call).Counts (w.shared.taken call)

theorem World.Sound.start (now : Int) (lastID : UInt64) :
    (World.start now lastID : World K Call).Sound t where
  guarded := .start now lastID
  keyed := .start now lastID
  placed := .start now lastID
  stands _ := trivial
  counts _ := rfl

variable {w next : World K Call} {action : Action K Call}

theorem Passes.history {call : Call} {s s' : Shared K Call} {pc pc' : Pc K}
    (passes : Passes t call s pc s' pc') : s.reports ⊆ s'.reports ∧
      ∀ other, other ≠ call → s'.taken other = s.taken other := by
  cases passes with
  | quiet _ _ history | opens _ _ _ _ history =>
      exact ⟨history.2 ▸ List.Subset.refl _, fun _ _ => by rw [Shared.taken, history.1]; rfl⟩
  | reports _ _ _ _ history =>
      refine ⟨?_, fun _ _ => by rw [Shared.taken, history.1]; rfl⟩
      rw [history.2]
      exact List.subset_append_left _ _
  | takes j victims _ _ _ _ history =>
      refine ⟨history.2 ▸ List.Subset.refl _, fun other apart => ?_⟩
      have none : (victims.map fun v => (v.2, call)).countP (fun entry => entry.2 = other) = 0 := by
        simp [List.countP_eq_zero, Ne.symm apart]
      simp only [Shared.taken, history.1, List.countP_append, none, Nat.add_zero]

theorem World.Sound.step (set : t.onClose = true) (sound : w.Sound t)
    (returns : calm w action = true) (stepped : w.step t action = some next) :
    next.Sound t := by
  have guarded := sound.guarded.step stepped
  rcases World.step_cases stepped with ⟨call, act, shared, pc, rfl, moved, rfl⟩ | ⟨rfl, rfl⟩
  · have passes := moved.passes set (sound.guarded.guards call) returns
    obtain ⟨reports, taken⟩ := passes.history
    refine ⟨guarded, sound.keyed.passes passes, sound.placed.passes sound.keyed passes, ?_, ?_⟩
    · intro other
      simp only [Function.update_apply]
      split_ifs with acting
      · subst acting
        exact moved.stands (sound.stands other)
      · refine (sound.stands other).forward (fun v named => ?_) reports
        exact moved.flow_forward (sound.keyed.lt_created named)
    · intro other
      by_cases acting : other = call
      · subst acting
        simp only [Function.update_self]
        exact moved.counts (sound.counts other)
      · simp only [Function.update_of_ne acting, taken other acting]
        exact sound.counts other
  · exact ⟨guarded, ⟨sound.keyed.stored, sound.keyed.named, sound.keyed.reports,
      sound.keyed.created⟩, sound.placed, fun call => (sound.stands call).forward
      (fun _ _ => .refl _) (List.Subset.refl _), sound.counts⟩

/-- Where a flow is: stored, with the call that took it out, or reported. -/
inductive Situation (Call : Type) where
  | stored
  | leaving (call : Call)
  | reported

/-- How often the flow was taken out of the table, and how often `OnClose` was called
for it. -/
def Shared.removals (s : Shared K Call) (f : Nat) : Nat :=
  (s.removed.map Prod.fst).count f

def Shared.closes (s : Shared K Call) (f : Nat) : Nat :=
  (s.reports.map Prod.snd).count f

def World.At (t : Table K) (w : World K Call) (f : Nat) : Situation Call → Prop
  | .stored => w.shared.removals f = 0 ∧ w.shared.closes f = 0 ∧
      (∀ call, f ∉ w.leaving call) ∧ ∃ k, w.shared.key f = some k ∧
        ∀ i k', (w.shared.shard i).m.lookup k' = some f ↔ i = t.shard k ∧ k' = k
  | .leaving call => w.shared.removals f = 1 ∧ w.shared.closes f = 0 ∧
      (f, call) ∈ w.shared.removed ∧ ¬w.shared.Stored f ∧
        ∀ other, (w.leaving other).count f = if other = call then 1 else 0
  | .reported => w.shared.removals f = 1 ∧ w.shared.closes f = 1 ∧
      (∃ k, w.shared.key f = some k ∧ (k, f) ∈ w.shared.reports) ∧ ¬w.shared.Stored f ∧
        ∀ call, f ∉ w.leaving call

structure LeaveContract (t : Table K) (w : World K Call) : Prop where
  situation : ∀ f < w.shared.created, ∃! situation, w.At t f situation
  /-- `OnClose` is given the key, after the flow was closed and taken out. -/
  onClose : ∀ call k f after,
    w.pc call = .onClose k f after ∨ w.pc call = .inOnClose k f after →
    w.shared.key f = some k ∧ (w.shared.flow f).state = .closed ∧ ¬w.shared.Stored f
  sweep : ∀ call n, w.pc call = .returned (.swept n) → n = w.shared.taken call

theorem World.At.unique {f : Nat} {a b : Situation Call} (left : w.At t f a)
    (right : w.At t f b) : a = b := by
  cases a with
  | stored =>
      cases b with
      | stored => rfl
      | leaving call | reported => exact absurd (left.1.symm.trans right.1) nofun
  | leaving call =>
      cases b with
      | stored => exact absurd (left.1.symm.trans right.1) nofun
      | leaving other =>
          have here := right.2.2.2.2 call
          rw [left.2.2.2.2 call, if_pos rfl] at here
          by_cases same : call = other
          · rw [same]
          · rw [if_neg same] at here
            cases here
      | reported => exact absurd (left.2.1.symm.trans right.2.1) nofun
  | reported =>
      cases b with
      | stored => exact absurd (left.1.symm.trans right.1) nofun
      | leaving call => exact absurd (left.2.1.symm.trans right.2.1) nofun
      | reported => rfl

theorem World.Sound.situated (sound : w.Sound t) {f : Nat} (old : f < w.shared.created) :
    ∃ situation, w.At t f situation := by
  obtain ⟨place, custody, absent⟩ := sound.placed
  have untaken : (∀ call, place f ≠ .held call ∧ place f ≠ .logged call) →
      w.shared.removals f = 0 := by
    intro nobody
    refine List.count_eq_zero.mpr fun member => ?_
    obtain ⟨⟨_, call⟩, entry, rfl⟩ := List.mem_map.mp member
    exact ((custody.taken _ call).mp entry).elim (nobody call).1 (nobody call).2
  have taken : ∀ call, (f, call) ∈ w.shared.removed → w.shared.removals f = 1 :=
    fun call entry => List.count_eq_one_of_mem custody.taken_once (List.mem_map_of_mem entry)
  have unreported : (∀ call, place f ≠ .logged call) → w.shared.closes f = 0 := by
    intro nobody
    refine List.count_eq_zero.mpr fun member => ?_
    obtain ⟨call, logged⟩ := (custody.logged f).mp member
    exact nobody call logged
  have inHand : ∀ call, f ∈ w.leaving call ↔ place f = .held call := fun call =>
    custody.held call f
  cases here : place f with
  | absent => exact absurd ((absent f).mp here) (Nat.not_le.mpr old)
  | stored =>
      refine ⟨.stored, untaken (by simp [here]), unreported (by simp [here]),
        fun call => by simp [inHand, here], ?_⟩
      obtain ⟨i, k, present⟩ := (custody.stored f).mpr here
      obtain ⟨key, rfl⟩ := sound.keyed.stored i k f present
      refine ⟨k, key, fun i k' => ?_⟩
      constructor
      · intro other
        obtain ⟨key', same⟩ := sound.keyed.stored i k' f other
        obtain rfl : k' = k := Option.some.inj (key'.symm.trans key)
        exact ⟨same.symm, rfl⟩
      · rintro ⟨rfl, rfl⟩
        exact present
  | held call =>
      have entry := (custody.taken f call).mpr (.inl here)
      refine ⟨.leaving call, taken call entry, unreported (by simp [here]), entry, ?_, ?_⟩
      · simp [custody.stored, here]
      · intro other
        split
        · rename_i same
          subst same
          exact List.count_eq_one_of_mem (custody.held_once other) ((inHand other).mpr here)
        · rename_i other
          refine List.count_eq_zero.mpr ?_
          simp [inHand, here, Ne.symm other]
  | logged call =>
      have member := (custody.logged f).mpr ⟨call, here⟩
      refine ⟨.reported, taken call ((custody.taken f call).mpr (.inr here)),
        List.count_eq_one_of_mem custody.logged_once member, ?_, ?_, ?_⟩
      · obtain ⟨⟨k, _⟩, report, rfl⟩ := List.mem_map.mp member
        exact ⟨k, sound.keyed.reports _ report, report⟩
      · simp [custody.stored, here]
      · exact fun other => by simp [inHand, here]

theorem World.Sound.called (sound : w.Sound t) {call : Call} {k : K} {f : Nat} {after : After K}
    (here : w.pc call = .onClose k f after ∨ w.pc call = .inOnClose k f after) :
    w.shared.key f = some k ∧ (w.shared.flow f).state = .closed ∧ ¬w.shared.Stored f := by
  obtain ⟨place, custody, _⟩ := sound.placed
  have stands := sound.stands call
  have named := sound.keyed.named call
  have left : place f ≠ .stored → ¬w.shared.Stored f := fun apart => by
    rwa [custody.stored]
  rcases here with calling | called
  · rw [calling] at stands named
    refine ⟨named ⟨k, f⟩ List.mem_cons_self, stands, left ?_⟩
    have held : place f = .held call := by
      rw [← custody.held, World.leaving, calling]
      exact List.mem_cons_self
    rw [held]
    intro stored
    cases stored
  · rw [called] at stands named
    refine ⟨named ⟨k, f⟩ List.mem_cons_self, stands.1, left ?_⟩
    obtain ⟨other, logged⟩ := (custody.logged f).mp (List.mem_map_of_mem stands.2)
    rw [logged]
    intro stored
    cases stored

/-- Every flow that leaves the table is taken out and reported once. -/
theorem onClose_exactly_once (t : Table K) (set : t.onClose = true)
    (reached : ((system Call t).restrict calm).Reachable w) : LeaveContract t w := by
  have sound : w.Sound t := by
    refine Transition.System.Reachable.invariant (World.Sound t) ?_ ?_ reached
    · rintro _ ⟨now, lastID, rfl⟩
      exact .start now lastID
    · intro state action next _ held stepped
      obtain ⟨returns, moved⟩ := Transition.System.restrict_step.mp stepped
      exact held.step set returns moved
  constructor
  · intro f old
    obtain ⟨situation, here⟩ := sound.situated old
    exact ⟨situation, here, fun _ other => other.unique here⟩
  · exact fun call k f after => sound.called
  · intro call n here
    have counts := sound.counts call
    rw [here] at counts
    exact counts.symm

end Runs

def smallTable : Table Nat :=
  newTable ⟨1, 10, true⟩ fun k => k

def nexts (call times : Nat) : List (Action Nat Nat) :=
  .replicate times (.call call .next)

def calls (call : Nat) (act : Act Nat) : List (Action Nat Nat) :=
  [.call call act]

/-- Two flows are opened and the first is closed by a caller. A `Sweep` takes both out
and reports the first, and its key is used again. -/
def sweepRun : List (Action Nat Nat) :=
  calls 0 (.call (.getOrOpen 7 false)) ++ nexts 0 3 ++
    calls 1 (.call (.getOrOpen 8 true)) ++ nexts 1 1 ++ calls 1 (.returns true) ++ nexts 1 2 ++
    calls 2 (.call (.flowClose 0)) ++ nexts 2 3 ++
    calls 3 (.call (.sweep 100)) ++ nexts 3 3 ++ calls 3 (.visit 7) ++ calls 3 (.visit 8) ++
    nexts 3 6 ++ calls 3 (.returns true) ++ nexts 3 1 ++
    calls 4 (.call (.getOrOpen 7 false)) ++ nexts 4 3

theorem onClose_exactly_once_swept :
    ∃ w : World Nat Nat,
      ((system Nat smallTable).restrict calm).exec (.start 0 0) sweepRun = some w ∧
      (w.leaving 3 = [1] ∧ w.shared.reports = [(7, 0)] ∧
        (w.shared.shard 0).m.lookup 7 = some 2) ∧
      LeaveContract smallTable w := by
  have checked : (((system Nat smallTable).restrict calm).exec (.start 0 0) sweepRun).any
      (fun w => decide (w.leaving 3 = [1] ∧ w.shared.reports = [(7, 0)] ∧
        (w.shared.shard 0).m.lookup 7 = some 2)) = true := by
    decide +kernel
  obtain ⟨w, executed, facts⟩ := Transition.System.exec_of_check _ checked
  exact ⟨w, executed, of_decide_eq_true facts, onClose_exactly_once smallTable rfl
    (.exec (.initial ⟨0, 0, rfl⟩) executed)⟩

end Netx.FlowTable
