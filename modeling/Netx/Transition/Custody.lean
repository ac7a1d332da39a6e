import Mathlib.Data.List.Nodup
import Mathlib.Data.List.Perm.Basic
import Mathlib.Logic.Function.Basic

/-! Tokens that pass from a store to a holder and from there to a log. That each is
in one place at a time, and is taken and logged at most once, is kept by a few
rules, whatever the store and the holders look like. -/

set_option autoImplicit false

namespace Netx.Transition

/-- Where a token is. Once logged it still knows who took it from the store. -/
inductive Place (Holder : Type) where
  | absent
  | stored
  | held (holder : Holder)
  | logged (holder : Holder)

/-- The store, what is in the hands of the holders, and the two histories agree with
the places. -/
structure Custody {Token Holder : Type} (place : Token → Place Holder) (store : Token → Prop)
    (hand : Holder → List Token) (takes : List (Token × Holder)) (log : List Token) :
    Prop where
  stored : ∀ x, store x ↔ place x = .stored
  held : ∀ holder x, x ∈ hand holder ↔ place x = .held holder
  held_once : ∀ holder, (hand holder).Nodup
  taken : ∀ x holder, (x, holder) ∈ takes ↔ place x = .held holder ∨ place x = .logged holder
  taken_once : (takes.map Prod.fst).Nodup
  logged : ∀ x, x ∈ log ↔ ∃ holder, place x = .logged holder
  logged_once : log.Nodup

namespace Custody

variable {Token Holder : Type} {place : Token → Place Holder} {store store' : Token → Prop}
  {hand hand' : Holder → List Token} {takes : List (Token × Holder)} {log : List Token}

theorem start : Custody (fun _ : Token => .absent) (fun _ => False) (fun _ : Holder => []) []
    [] := by
  constructor <;> simp

/-- The store and the holders may reorder what they have. -/
theorem reorder (custody : Custody place store hand takes log)
    (same : ∀ x, store' x ↔ store x) (order : ∀ holder, (hand' holder).Perm (hand holder)) :
    Custody place store' hand' takes log where
  stored x := (same x).trans (custody.stored x)
  held holder x := (order holder).mem_iff.trans (custody.held holder x)
  held_once holder := (order holder).nodup_iff.mpr (custody.held_once holder)
  taken := custody.taken
  taken_once := custody.taken_once
  logged := custody.logged
  logged_once := custody.logged_once

variable [DecidableEq Token]

/-- A new token enters the store. -/
theorem enter (custody : Custody place store hand takes log) {x : Token}
    (fresh : place x = .absent) (added : ∀ y, store' y ↔ y = x ∨ store y) :
    Custody (Function.update place x .stored) store' hand takes log := by
  have kept : ∀ (y : Token) (spot : Place Holder), spot ≠ .stored → spot ≠ .absent →
      (Function.update place x .stored y = spot ↔ place y = spot) := by
    intro y spot notStored notAbsent
    by_cases same : y = x
    · subst same
      rw [Function.update_self, fresh]
      exact iff_of_false notStored.symm notAbsent.symm
    · rw [Function.update_of_ne same]
  constructor
  · intro y
    rw [added, custody.stored]
    by_cases same : y = x
    · simp [same]
    · simp [same]
  · intro holder y
    rw [custody.held, kept y (.held holder) nofun nofun]
  · exact custody.held_once
  · intro y holder
    rw [custody.taken, kept y (.held holder) nofun nofun, kept y (.logged holder) nofun nofun]
  · exact custody.taken_once
  · intro y
    rw [custody.logged]
    exact exists_congr fun holder => (kept y (.logged holder) nofun nofun).symm
  · exact custody.logged_once

/-- A holder takes tokens out of the store. -/
theorem take (custody : Custody place store hand takes log) {holder : Holder}
    {xs : List Token} (distinct : xs.Nodup) (present : ∀ x ∈ xs, store x)
    (left : ∀ y, store' y ↔ store y ∧ y ∉ xs)
    (received : (hand' holder).Perm (hand holder ++ xs))
    (others : ∀ other, other ≠ holder → hand' other = hand other) :
    Custody (fun y => if y ∈ xs then .held holder else place y) store' hand'
      (takes ++ xs.map fun x => (x, holder)) log := by
  have before : ∀ y ∈ xs, place y = .stored := fun y member =>
    (custody.stored y).mp (present y member)
  constructor
  · intro y
    rw [left, custody.stored]
    by_cases member : y ∈ xs <;> simp [member]
  · intro other y
    by_cases same : other = holder
    · subst same
      rw [received.mem_iff, List.mem_append, custody.held]
      by_cases member : y ∈ xs <;> simp [member]
    · rw [others other same, custody.held]
      by_cases member : y ∈ xs
      · simp [member, before y member, Ne.symm same]
      · simp [member]
  · intro other
    by_cases same : other = holder
    · subst same
      rw [received.nodup_iff]
      refine (custody.held_once other).append distinct fun y inHand member => ?_
      rw [custody.held, before y member] at inHand
      cases inHand
    · rw [others other same]
      exact custody.held_once other
  · intro y other
    rw [List.mem_append, custody.taken]
    by_cases member : y ∈ xs
    · simp [member, before y member, eq_comm]
    · simp [member]
  · rw [List.map_append, List.map_map]
    refine custody.taken_once.append ?_ ?_
    · simpa [Function.comp_def] using distinct
    · intro y earlier member
      obtain ⟨⟨_, other⟩, entry, rfl⟩ := List.mem_map.mp earlier
      obtain ⟨x, here, rfl⟩ := List.mem_map.mp member
      rw [custody.taken] at entry
      dsimp only [Function.comp] at entry
      rw [before x here] at entry
      rcases entry with held | logged
      · cases held
      · cases logged
  · intro y
    rw [custody.logged]
    by_cases member : y ∈ xs
    · simp [member, before y member]
    · simp [member]
  · exact custody.logged_once

/-- A holder logs a token it has. -/
theorem report (custody : Custody place store hand takes log) {holder : Holder} {x : Token}
    (given : (hand holder).Perm (x :: hand' holder))
    (others : ∀ other, other ≠ holder → hand' other = hand other) :
    Custody (Function.update place x (.logged holder)) store hand' takes (log ++ [x]) := by
  have before : place x = .held holder :=
    (custody.held holder x).mp (given.mem_iff.mpr List.mem_cons_self)
  have distinct : x ∉ hand' holder ∧ (hand' holder).Nodup :=
    List.nodup_cons.mp (given.nodup_iff.mp (custody.held_once holder))
  constructor
  · intro y
    rw [custody.stored]
    by_cases same : y = x
    · simp [same, before]
    · rw [Function.update_of_ne same]
  · intro other y
    by_cases acting : other = holder
    · subst acting
      by_cases same : y = x
      · simp [same, distinct.1]
      · have hands := given.mem_iff (a := y)
        rw [custody.held, List.mem_cons] at hands
        rw [Function.update_of_ne same, hands]
        simp [same]
    · rw [others other acting, custody.held]
      by_cases same : y = x
      · simp [same, before, Ne.symm acting]
      · rw [Function.update_of_ne same]
  · intro other
    by_cases acting : other = holder
    · exact acting ▸ distinct.2
    · rw [others other acting]
      exact custody.held_once other
  · intro y other
    rw [custody.taken]
    by_cases same : y = x
    · simp [same, before]
    · rw [Function.update_of_ne same]
  · exact custody.taken_once
  · intro y
    rw [List.mem_append, List.mem_singleton, custody.logged]
    by_cases same : y = x
    · simp [same]
    · simp [same]
  · refine custody.logged_once.append (List.nodup_singleton x) fun y earlier member => ?_
    rw [List.mem_singleton.mp member, custody.logged, before] at earlier
    obtain ⟨_, elsewhere⟩ := earlier
    cases elsewhere

end Custody

end Netx.Transition
