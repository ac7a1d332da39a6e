import Mathlib.Data.List.Basic

/-!
# Slices that reuse their backing array

A slice of pointers that starts where its array starts. Cells of the array
beyond the slice's length still keep alive what they point to.
-/

set_option autoImplicit false

namespace Netx.Slices

/-- A cell is `none` when it holds the nil pointer. -/
structure Reused (α : Type) where
  cells : List (Option α)
  len : Nat
  bounded : len ≤ cells.length

namespace Reused

variable {α : Type}

def empty : Reused α := ⟨[], 0, Nat.le_refl 0⟩

def items (s : Reused α) : Vector (Option α) s.len :=
  ⟨(s.cells.take s.len).toArray, by simp [s.bounded]⟩

/-- `append`: a full array is left for a longer one with `room` cells to spare. -/
def append (room : Nat) (s : Reused α) (item : α) : Reused α :=
  if free : s.len < s.cells.length then
    ⟨s.cells.set s.len (some item), s.len + 1, by rwa [List.length_set]⟩
  else ⟨s.items.toList ++ some item :: List.replicate room none, s.len + 1, by simp⟩

/-- The same slice after its elements were assigned, through it or an alias. -/
def assign (s : Reused α) (items : Vector (Option α) s.len) : Reused α :=
  ⟨items.toList ++ s.cells.drop s.len, s.len, by simp⟩

/-- `clear(s)`. -/
def clear (s : Reused α) : Reused α :=
  s.assign (Vector.replicate s.len none)

/-- `s[:0]`. -/
def truncate (s : Reused α) : Reused α :=
  ⟨s.cells, 0, Nat.zero_le _⟩

/-- Nothing is kept alive, also not by the cells beyond the slice. -/
def Vacant (s : Reused α) : Prop :=
  ∀ cell ∈ s.cells, cell = none

/-- The slice's elements, in order, are all its array points to. -/
structure Holds (s : Reused α) (items : List α) : Prop where
  items : s.items.toList = items.map some
  rest : ∀ cell ∈ s.cells.drop s.len, cell = none

@[simp] theorem items_toList (s : Reused α) : s.items.toList = s.cells.take s.len :=
  rfl

theorem holds_empty : (empty : Reused α).Holds [] :=
  ⟨rfl, fun _ member => by cases member⟩

section

variable {s : Reused α} {items : List α}

theorem Holds.len_eq (holds : s.Holds items) : s.len = items.length := by
  have lengths := congrArg List.length holds.items
  rwa [Vector.length_toList, List.length_map] at lengths

theorem Holds.append (holds : s.Holds items) (room : Nat) (item : α) :
    (s.append room item).Holds (items ++ [item]) := by
  have front : s.cells.take s.len = items.map some := holds.items
  unfold Reused.append
  split
  · rename_i free
    constructor
    · simp only [items_toList, List.map_append, List.map_cons, List.map_nil, ← front]
      rw [List.take_add_one, List.take_set_of_le (Nat.le_refl _), List.getElem?_set_self free]
      rfl
    · intro cell member
      have later : s.cells.drop (s.len + 1) = (s.cells.drop s.len).drop 1 := by
        rw [List.drop_drop]
      rw [List.drop_set_of_lt (Nat.lt_succ_self _), later] at member
      exact holds.rest cell (List.drop_subset 1 _ member)
  · have length : s.len + 1 = (items.map some).length + 1 := by
      rw [holds.len_eq, List.length_map]
    constructor
    · show (s.items.toList ++ _).take (s.len + 1) = _
      rw [holds.items, length, List.take_length_add_append]
      simp
    · intro cell member
      replace member : cell ∈ (s.items.toList ++ _).drop (s.len + 1) := member
      rw [holds.items, length, List.drop_length_add_append] at member
      exact List.eq_of_mem_replicate member

theorem Holds.vacant (holds : s.Holds []) : s.Vacant := by
  intro cell member
  refine holds.rest cell ?_
  rwa [holds.len_eq]

theorem Holds.filterMap_items (holds : s.Holds items) :
    s.items.toList.filterMap id = items := by
  rw [holds.items, List.filterMap_map]
  exact List.filterMap_some

theorem drop_assign (s : Reused α) (items : Vector (Option α) s.len) :
    (s.assign items).cells.drop (s.assign items).len = s.cells.drop s.len :=
  List.drop_left' items.length_toList

/-- Clearing forgets the elements, whatever they were, so the array is vacant
when no cell beyond them was in use. -/
theorem holds_truncate_clear (rest : ∀ cell ∈ s.cells.drop s.len, cell = none) :
    s.clear.truncate.Holds [] := by
  refine ⟨rfl, fun cell member => ?_⟩
  rcases List.mem_append.mp (List.mem_of_mem_drop member) with cleared | beyond
  · exact List.eq_of_mem_replicate (by simpa using cleared)
  · exact rest cell beyond

end

end Reused

end Netx.Slices
