import Mathlib.Data.List.Basic
import Mathlib.Data.Nat.ModEq
import Mathlib.Logic.Relation

/-!
# Windows of a circular buffer

A window is a run of slots of a list read around its end. These are the laws
of adding a value behind a window and of taking the value at its front, and
the abstract first-in first-out list that such a window stands for.
-/

set_option autoImplicit false

namespace Netx.Circular

/-- Doubling `size` while it is below `least`, at most `rounds` times. -/
def doubleUntil (least : Nat) : Nat → Nat → Nat
  | 0, size => size
  | rounds + 1, size => if size < least then doubleUntil least rounds (size <<< 1) else size

/-- The first power of two that is at least `least`. -/
def roundUp (least : Nat) : Nat :=
  doubleUntil least least 1

theorem doubleUntil_power (least rounds k : Nat) :
    ∃ j, doubleUntil least rounds (2 ^ k) = 2 ^ j := by
  induction rounds generalizing k with
  | zero => exact ⟨k, rfl⟩
  | succ rounds ih =>
      unfold doubleUntil
      split
      · rw [Nat.shiftLeft_eq, ← Nat.pow_add]
        exact ih (k + 1)
      · exact ⟨k, rfl⟩

theorem roundUp_power (least : Nat) : ∃ k, roundUp least = 2 ^ k :=
  doubleUntil_power least least 0

variable {α : Type*} [Inhabited α]

/-- The `count` values from slot `head` on, wrapping at the end of the list. -/
def window (slots : List α) (head count : Nat) : List α :=
  (List.range count).map fun offset => slots.getD ((head + offset) % slots.length) default

/-- Every slot outside the window holds the default value. -/
def Blank (slots : List α) (head count : Nat) : Prop :=
  ∀ place < slots.length, (∀ offset < count, (head + offset) % slots.length ≠ place) →
    slots.getD place default = default

@[simp] theorem length_window (slots : List α) (head count : Nat) :
    (window slots head count).length = count := by
  simp [window]

@[simp] theorem window_zero (slots : List α) (head : Nat) : window slots head 0 = [] := rfl

theorem window_succ (slots : List α) (head count : Nat) :
    window slots head (count + 1) =
      window slots head count ++ [slots.getD ((head + count) % slots.length) default] := by
  simp [window, List.range_succ]

theorem window_mod (slots : List α) (head count : Nat) :
    window slots (head % slots.length) count = window slots head count := by
  simp [window]

theorem window_eq_cons (slots : List α) (head count : Nat) :
    window slots head (count + 1) =
      slots.getD (head % slots.length) default :: window slots (head + 1) count := by
  simp [window, List.range_succ_eq_map, Nat.add_assoc, Nat.add_comm 1]

variable {count head place : Nat} {slots : List α}

theorem getD_set_of_ne {other : Nat} (value : α) (different : place ≠ other) :
    (slots.set place value).getD other default = slots.getD other default := by
  simp [List.getD_eq_getElem?_getD, List.getElem?_set_ne different]

theorem getD_set_self (value : α) (inside : place < slots.length) :
    (slots.set place value).getD place default = value := by
  simp [List.getD_eq_getElem?_getD, inside]

/-- Offsets below the size of the buffer name different slots. -/
theorem offset_injective {size first second : Nat} (small : first < size) (bounded : second < size)
    (same : (head + first) % size = (head + second) % size) : first = second := by
  have congruent : first ≡ second [MOD size] := Nat.ModEq.add_left_cancel' head same
  rwa [Nat.ModEq, Nat.mod_eq_of_lt small, Nat.mod_eq_of_lt bounded] at congruent

theorem window_set (value : α)
    (outside : ∀ offset < count, (head + offset) % slots.length ≠ place) :
    window (slots.set place value) head count = window slots head count := by
  unfold window
  refine List.map_congr_left fun offset member => ?_
  rw [List.length_set]
  exact getD_set_of_ne value (outside offset (List.mem_range.mp member)).symm

/-- Writing the slot behind a window that is not full appends to the window. -/
theorem window_push (value : α) (room : count < slots.length) :
    window (slots.set ((head + count) % slots.length) value) head (count + 1) =
      window slots head count ++ [value] := by
  have inside : (head + count) % slots.length < slots.length := Nat.mod_lt _ (by omega)
  rw [window_succ, List.length_set, getD_set_self value inside, window_set]
  intro offset before same
  have := offset_injective (by omega) room same
  omega

theorem Blank.push (value : α) (blank : Blank slots head count) :
    Blank (slots.set ((head + count) % slots.length) value) head (count + 1) := by
  intro place inside outside
  rw [List.length_set] at inside outside
  have behind := outside count (Nat.lt_succ_self _)
  rw [getD_set_of_ne value behind]
  exact blank place inside fun offset before => outside offset (by omega)

/-- Taking the front slot leaves the rest of the window. -/
theorem window_pop (value : α) (bounded : count < slots.length) :
    window slots head (count + 1) =
      slots.getD (head % slots.length) default ::
        window (slots.set (head % slots.length) value) (head + 1) count := by
  rw [window_eq_cons, window_set]
  intro offset before same
  have shifted : (head + (1 + offset)) % slots.length = (head + 0) % slots.length := by
    rw [← Nat.add_assoc]
    exact same
  have := offset_injective (by omega) (by omega) shifted
  omega

theorem Blank.pop (blank : Blank slots head (count + 1)) :
    Blank (slots.set (head % slots.length) default) (head + 1) count := by
  intro place inside outside
  rw [List.length_set] at inside outside
  by_cases front : head % slots.length = place
  · subst front
    exact getD_set_self default inside
  · rw [getD_set_of_ne default front]
    refine blank place inside fun offset before => ?_
    cases offset with
    | zero => exact front
    | succ offset =>
        rw [Nat.add_comm offset 1, ← Nat.add_assoc]
        exact outside offset (by omega)

theorem Blank.mod (blank : Blank slots head count) : Blank slots (head % slots.length) count := by
  intro place inside outside
  refine blank place inside fun offset before => ?_
  rw [← Nat.mod_add_mod]
  exact outside offset before

/-- A bounded first-in first-out list with everything it accepted and removed. -/
structure Fifo (α : Type*) where
  accepted : List α
  removed : List α
  live : List α

namespace Fifo

omit [Inhabited α]

def empty : Fifo α := ⟨[], [], []⟩

inductive Step (bound : Nat) : Fifo α → Fifo α → Prop where
  | accept {fifo : Fifo α} (value : α) : fifo.live.length < bound →
      Step bound fifo ⟨fifo.accepted ++ [value], fifo.removed, fifo.live ++ [value]⟩
  | remove {fifo : Fifo α} {value : α} {rest : List α} : fifo.live = value :: rest →
      Step bound fifo ⟨fifo.accepted, fifo.removed ++ [value], rest⟩

def Steps (bound : Nat) : Fifo α → Fifo α → Prop :=
  Relation.ReflTransGen (Step bound)

/-- What is live is what was accepted and not removed, oldest first. -/
def Conserved (bound : Nat) (fifo : Fifo α) : Prop :=
  fifo.accepted = fifo.removed ++ fifo.live ∧ fifo.live.length ≤ bound

theorem Steps.conserved {bound : Nat} {first last : Fifo α} (steps : Steps bound first last)
    (start : first.Conserved bound) : last.Conserved bound := by
  induction steps with
  | refl => exact start
  | tail _ step ih =>
      obtain ⟨split, bounded⟩ := ih
      cases step with
      | accept value room =>
          refine ⟨?_, ?_⟩
          · simp [split]
          · simp only [List.length_append, List.length_singleton]
            omega
      | remove front =>
          rw [front] at split bounded
          refine ⟨by simp [split], ?_⟩
          exact Nat.le_of_succ_le bounded

/-- Removing the whole live list one by one. -/
theorem Steps.drain {bound : Nat} (fifo : Fifo α) :
    Steps bound fifo ⟨fifo.accepted, fifo.removed ++ fifo.live, []⟩ := by
  obtain ⟨accepted, removed, live⟩ := fifo
  induction live generalizing removed with
  | nil =>
      rw [List.append_nil]
      exact .refl
  | cons value rest ih =>
      have rest := ih (removed ++ [value])
      rw [List.append_assoc, List.singleton_append] at rest
      exact Relation.ReflTransGen.head (.remove rfl) rest

end Fifo

end Netx.Circular
