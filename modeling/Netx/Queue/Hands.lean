import Netx.Queue.ThreadsProperties
import Netx.Transition.Tally
import Mathlib.Algebra.BigOperators.Group.Multiset.Basic

/-!
# Items in the hands of the calls

An item is in the ring, in the hands of a call, or with the callers. A step of a call
moves it and does nothing else to it.
-/

set_option autoImplicit false

namespace Netx.Queue

open Transition (tally tally_exchange)

variable {T : Type}

def Op.hand : Op T → Multiset T
  | .push v | .pushWait v => {v}
  | _ => 0

def Act.hand : Act T → Multiset T
  | .call op => op.hand
  | _ => 0

/-- What the call in progress has that is not in the ring. -/
def Pc.hand : Pc T → Multiset T
  | .push v | .pushWait v _ | .pushWaitSelect v => {v}
  | .pushSignal _ evicted => (evicted.toList : Multiset T)
  | .pushDrop _ dropped => {dropped}
  | .popSignal v _ _ | .popMore v _ => {v}
  | .drainDrop _ rest => (rest : Multiset T)
  | _ => 0

/-- What the caller has once the call has returned. -/
def Reply.hand : Reply T → Multiset T
  | .push v false => {v}
  | .pushWait v (some _) => {v}
  | .pop item => (item.toList : Multiset T)
  | .popWait (.ok v) => {v}
  | _ => 0

def Effect.returned (e : Effect T) : Multiset T :=
  (e.replies.map Reply.hand).sum

variable [Inhabited T]

/-- A step of a call keeps the items, wherever it moves them. -/
def Conserves (s : Shared T) (pc : Pc T) (act : Act T) (e : Effect T) : Prop :=
  (s.ring.contents : Multiset T) + pc.hand + act.hand =
    e.shared.ring.contents + e.pc.hand + e.returned + e.drops

variable {act : Act T} {s : Shared T} {e : Effect T} {pc : Pc T}

theorem Conserves.of_contents (contents : e.shared.ring.contents = s.ring.contents)
    (moved : pc.hand + act.hand = e.pc.hand + e.returned + e.drops) : Conserves s pc act e := by
  rw [Conserves, contents, add_assoc, moved]
  simp only [add_assoc]

theorem Moves.conserves (moved : Moves s pc act e) (valid : s.ring.Valid)
    (hook : s.ring.onDrop = true) : Conserves s pc act e := by
  cases moved with
  | pushRefused v result =>
      obtain ⟨_, _, _, _, contents⟩ := Ring.push_spec valid result
      exact .of_contents contents (by simp [Effect.reply, Effect.returned, Reply.hand, Pc.hand,
        Act.hand])
  | @push v evicted ring result =>
      obtain ⟨_, _, _, pushed⟩ := Ring.push_spec valid result
      cases evicted with
      | none =>
          obtain ⟨_, _, _, contents⟩ := pushed
          simp [Conserves, Effect.returned, Pc.hand, Act.hand, contents, ← Multiset.coe_add]
      | some oldest =>
          obtain ⟨_, _, _, rest, before, after⟩ := pushed
          simp only [Conserves, Effect.returned, Pc.hand, Act.hand, before, after,
            ← Multiset.coe_add, ← Multiset.cons_coe, ← Multiset.singleton_add,
            Option.toList_some, List.map_nil, List.sum_nil, Multiset.coe_nil, add_zero]
          ac_rfl
  | pushWaitRefused v woken result =>
      obtain ⟨_, _, _, _, _, contents⟩ := Ring.pushWait_spec valid result
      exact .of_contents contents (by simp [Effect.reply, Effect.returned, Reply.hand, Pc.hand,
        Act.hand])
  | pushWaitPark v woken result =>
      obtain ⟨_, _, _, _, rfl, _⟩ := Ring.pushWait_spec valid result
      exact .of_contents rfl (by simp [Effect.returned, Pc.hand, Act.hand])
  | pushWait v woken result =>
      obtain ⟨_, _, _, _, _, _, _, contents⟩ := Ring.pushWait_spec valid result
      simp [Conserves, Effect.returned, Pc.hand, Act.hand, contents, ← Multiset.coe_add]
  | popNone result | popWaitNone woken result =>
      obtain ⟨_, _, _, _, rfl⟩ := Ring.pop_spec valid result
      exact .of_contents rfl rfl
  | pop v more caller result =>
      obtain ⟨_, _, _, _, _, contents⟩ := Ring.pop_spec valid result
      simp [Conserves, Effect.returned, Pc.hand, Act.hand, contents, ← Multiset.cons_coe,
        ← Multiset.singleton_add, add_comm]
  | drainDrops result =>
      obtain ⟨_, _, _, _, rfl, contents⟩ := Ring.drain_spec valid result
      simp [Conserves, Effect.returned, Pc.hand, Act.hand, contents]
  | drain result unset =>
      rw [hook] at unset
      cases unset
  | call op => cases op <;> exact .of_contents rfl rfl
  | closeFirst result | closeAgain result =>
      obtain ⟨_, _, _, _, contents, _⟩ := Ring.close_spec valid result
      exact .of_contents contents rfl
  | pushSignal v evicted quiet =>
      rcases quiet with rfl | unset
      · exact .of_contents rfl rfl
      · rw [hook] at unset
        cases unset
  | popSignal v caller | popMore v caller => cases caller <;> exact .of_contents rfl rfl
  | drainDrop count v rest =>
      refine .of_contents rfl ?_
      simp [Pc.hand, Act.hand, Effect.returned, ← Multiset.cons_coe, ← Multiset.singleton_add,
        add_comm]
  | _ => exact .of_contents rfl rfl

/-- A step makes at most one call of `OnDrop` and returns at most once, and a call that
returns right after `OnDrop` gives nothing back. -/
theorem Moves.single (moved : Moves s pc act e) :
    (e.drops = [] ∧ (e.replies = [] ∨ ∃ reply, e.replies = [reply])) ∨
      ∃ dropped, e.drops = [dropped] ∧ e.returned = 0 := by
  cases moved with
  | pushDrop v dropped | drainDrop count v rest => exact .inr ⟨_, rfl, rfl⟩
  | call | pushSignalDrop | push | pushWait | pushWaitPark | pushWaitSignalMore | pushWaitToken
  | pushWaitClosed | popWaitNone | pop | popSignalMore | popWaitPark | popWaitToken
  | popWaitClosed | closeFirst | drainDrops => exact .inl ⟨rfl, .inl rfl⟩
  | _ => exact .inl ⟨rfl, .inr ⟨_, rfl⟩⟩

theorem Moves.call_quiet {op : Op T} (moved : Moves s pc (.call op) e) :
    e.returned = 0 ∧ e.drops = [] := by
  cases moved
  exact ⟨rfl, rfl⟩

section Threads

variable {Tid : Type} [DecidableEq Tid] [Fintype Tid]

def State.items (s : State Tid T) : Multiset T :=
  s.shared.ring.contents + tally Finset.univ s.thread Pc.hand

omit [DecidableEq Tid] in
theorem State.items_eq_zero {s : State Tid T} (empty : s.shared.ring.contents = [])
    (idle : ∀ tid, s.thread tid = .idle) : s.items = 0 := by
  have none : tally Finset.univ s.thread Pc.hand = 0 :=
    Finset.sum_eq_zero fun tid _ => by rw [idle tid]; rfl
  rw [State.items, empty, none]
  rfl

theorem State.apply_items {s : State Tid T} {tid : Tid} {act : Act T} {e : Effect T}
    (conserves : Conserves s.shared (s.thread tid) act e) :
    s.items + act.hand = (s.apply tid e).items + (e.returned + e.drops) := by
  have hands : tally Finset.univ (Function.update s.thread tid e.pc) Pc.hand +
      (s.thread tid).hand = tally Finset.univ s.thread Pc.hand + e.pc.hand :=
    tally_exchange Pc.hand rfl (Finset.mem_univ tid)
  refine add_right_cancel (b := (s.thread tid).hand) ?_
  calc s.items + act.hand + (s.thread tid).hand
      = (s.shared.ring.contents + (s.thread tid).hand + act.hand) +
          tally Finset.univ s.thread Pc.hand := by
        unfold State.items
        ac_rfl
    _ = (e.shared.ring.contents + e.pc.hand + e.returned + e.drops) +
          tally Finset.univ s.thread Pc.hand := by rw [conserves]
    _ = e.shared.ring.contents + (tally Finset.univ s.thread Pc.hand + e.pc.hand) +
          (e.returned + e.drops) := by ac_rfl
    _ = e.shared.ring.contents +
          (tally Finset.univ (Function.update s.thread tid e.pc) Pc.hand +
            (s.thread tid).hand) + (e.returned + e.drops) := by rw [hands]
    _ = (s.apply tid e).items + (e.returned + e.drops) + (s.thread tid).hand := by
        unfold State.items State.apply
        ac_rfl

end Threads

theorem reachable_onDrop {Tid : Type} [DecidableEq Tid] {o : Options} {s : State Tid T}
    (reached : (system Tid T o).Reachable s) : s.shared.ring.onDrop = o.onDrop := by
  refine reached.invariant (fun s => s.shared.ring.onDrop = o.onDrop) ?_ ?_
  · rintro _ ⟨ring, created, rfl⟩
    unfold Ring.new at created
    split at created
    · cases created
    · cases created
      rfl
  · rintro before ⟨tid, act⟩ next reachedBefore held stepped
    obtain ⟨e, moved, rfl⟩ := State.step_moves stepped
    have fixed := (moved.balanced (reachable_ledger reachedBefore).1).fixed
    exact fixed.onDrop.trans held

end Netx.Queue
