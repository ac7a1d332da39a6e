import Netx.Limit.Concurrency
import Netx.Limit.Limiter
import Mathlib.Logic.Function.Basic

/-!
# All or nothing

A tree of `Concurrency` limiters acquires a permit for every occurrence of a leaf, or
leaves every leaf as it was. A leaf may occur any number of times and at any depth.
-/

set_option autoImplicit false

namespace Netx.Limit

/-- The states of a limiter between calls that do not overlap. -/
inductive Concurrency.Reached : Concurrency → Prop where
  | created {max : Int} {c : Concurrency} : newConcurrency max = some c → Reached c
  | acquired {c : Concurrency} : Reached c → Reached c.tryAcquire.2
  | released {c : Concurrency} : Reached c → Reached c.release.2

theorem Concurrency.Reached.nonneg {c : Concurrency} (reached : c.Reached) : 0 ≤ c.inUse := by
  induction reached with
  | created created => exact (newConcurrency_inUse created).ge
  | acquired _ ih =>
      rw [tryAcquire_eq]
      split
      · exact Int.le_add_one ih
      · exact ih
  | @released c _ ih =>
      unfold release
      split
      · exact ih
      · show 0 ≤ c.inUse - 1
        omega

namespace Limiter

variable {L : Type} [DecidableEq L]

/-- Each leaf is a `Concurrency` with a state of its own. -/
def permits : Leaves L (L → Concurrency) where
  tryAcquire l w :=
    let (ok, c) := (w l).tryAcquire
    (ok, Function.update w l c)
  release l w :=
    let (panics, c) := (w l).release
    (panics, Function.update w l c)

/-- A permit is taken for every occurrence. -/
def taking (w : L → Concurrency) (occurrences : List L) (l : L) : Concurrency :=
  { w l with inUse := (w l).inUse + occurrences.count l }

/-- Every limiter has a permit left for each of its occurrences. -/
def Fits (w : L → Concurrency) (occurrences : List L) : Prop :=
  ∀ l ∈ occurrences, (w l).inUse + occurrences.count l ≤ (w l).max

instance (w : L → Concurrency) (occurrences : List L) : Decidable (Fits w occurrences) :=
  inferInstanceAs (Decidable (∀ l ∈ occurrences, _))

section Counts

variable {w : L → Concurrency}

@[simp] theorem taking_nil (w : L → Concurrency) : taking w [] = w := by
  funext l
  simp [taking]

theorem taking_append (w : L → Concurrency) (front back : List L) :
    taking w (front ++ back) = taking (taking w front) back := by
  funext l
  simp only [taking, List.count_append, Nat.cast_add, add_assoc]

theorem taking_comm (w : L → Concurrency) (front back : List L) :
    taking (taking w front) back = taking (taking w back) front := by
  funext l
  simp only [taking, add_right_comm]

theorem taking_nonneg (nonneg : ∀ l, 0 ≤ (w l).inUse) (occurrences : List L) (l : L) :
    0 ≤ (taking w occurrences l).inUse := by
  have least := nonneg l
  simp only [taking]
  omega

theorem fits_append {front back : List L} :
    Fits w (front ++ back) ↔ Fits w front ∧ Fits (taking w front) back := by
  simp only [Fits, taking, List.count_append, List.mem_append]
  constructor
  · intro fits
    refine ⟨fun l member => ?_, fun l member => ?_⟩
    · have room := fits l (.inl member)
      omega
    · have room := fits l (.inr member)
      omega
  · rintro ⟨first, second⟩ l member
    by_cases behind : l ∈ back
    · have room := second l behind
      omega
    · have none : back.count l = 0 := List.count_eq_zero.mpr behind
      have room := first l (member.resolve_right behind)
      omega

theorem taking_singleton (w : L → Concurrency) (l : L) :
    taking w [l] = Function.update w l { w l with inUse := (w l).inUse + 1 } := by
  funext other
  by_cases same : other = l
  · subst same
    simp [taking]
  · simp [taking, Function.update_of_ne same, Ne.symm same]

private theorem permits_tryAcquire (w : L → Concurrency) (l : L) :
    permits.tryAcquire l w = if Fits w [l] then (true, taking w [l]) else (false, w) := by
  have fits : Fits w [l] ↔ (w l).inUse + 1 ≤ (w l).max := by simp [Fits]
  simp only [permits, Concurrency.tryAcquire_eq]
  by_cases room : (w l).inUse + 1 ≤ (w l).max
  · rw [if_pos room, if_pos (fits.mpr room), taking_singleton]
  · rw [if_neg room, if_neg (mt fits.mp room), Function.update_eq_self]

/-- The leaf gives its permit back. -/
theorem permits_release (nonneg : ∀ l, 0 ≤ (w l).inUse) (l : L) :
    permits.release l (taking w [l]) = (false, w) := by
  have held : 0 < (taking w [l] l).inUse := by
    have least := nonneg l
    simp only [taking, List.count_singleton_self]
    omega
  simp only [permits, Concurrency.release_eq held]
  rw [taking_singleton, Function.update_idem, Function.update_self, Int.add_sub_cancel,
    Function.update_eq_self]

end Counts

section Trees

mutual

/-- `Release` gives back exactly what an acquisition takes. -/
theorem release_taking : (tree : Limiter L) → (w : L → Concurrency) →
    (∀ l, 0 ≤ (w l).inUse) → tree.release permits (taking w tree.occurrences) = (false, w)
  | .leaf l, w, nonneg => by
      rw [release, occurrences]
      exact permits_release nonneg l
  | .all members, w, nonneg => by
      rw [release, occurrences]
      exact releaseAll_taking members w nonneg

private theorem releaseAll_taking : (members : List (Limiter L)) → (w : L → Concurrency) →
    (∀ l, 0 ≤ (w l).inUse) →
      releaseAll permits members (taking w (allOccurrences members)) = (false, w)
  | [], w, _ => by rw [releaseAll, allOccurrences, taking_nil]
  | l :: rest, w, nonneg => by
      have first := release_taking l (taking w (allOccurrences rest)) (taking_nonneg nonneg _)
      rw [releaseAll, allOccurrences, taking_append, taking_comm, first]
      exact releaseAll_taking rest w nonneg

end

private theorem undo_taking (acquired : List (Limiter L)) {w : L → Concurrency}
    (nonneg : ∀ l, 0 ≤ (w l).inUse) :
    undo permits acquired (taking w (allOccurrences acquired)) = (some false, w) := by
  rw [undo, releaseAll_taking acquired w nonneg]

/-- Permits for all occurrences are taken, or the limiters are as in `before`. -/
def Settles (before w : L → Concurrency) (occurrences : List L)
    (result : Option Bool × (L → Concurrency)) : Prop :=
  Fits w occurrences ∧ result = (some true, taking w occurrences) ∨
    ¬Fits w occurrences ∧ result = (some false, before)

mutual

theorem tryAcquire_settles : (tree : Limiter L) → (w : L → Concurrency) →
    (∀ l, 0 ≤ (w l).inUse) → Settles w w tree.occurrences (tree.tryAcquire permits w)
  | .leaf l, w, _ => by
      rw [tryAcquire, occurrences, permits_tryAcquire]
      by_cases fits : Fits w [l]
      · exact .inl ⟨fits, by rw [if_pos fits]⟩
      · exact .inr ⟨fits, by rw [if_neg fits]⟩
  | .all members, w, nonneg => by
      have whole := acquireAll_settles members [] w nonneg
      rw [allOccurrences, taking_nil] at whole
      rw [tryAcquire, occurrences]
      exact whole

/-- The loop behind the members `acquired`, which hold their permits: it either goes on to
hold those of the rest too, or goes back to before the first. -/
theorem acquireAll_settles : (members acquired : List (Limiter L)) → (w : L → Concurrency) →
    (∀ l, 0 ≤ (w l).inUse) →
      Settles w (taking w (allOccurrences acquired)) (allOccurrences members)
        (acquireAll permits acquired members (taking w (allOccurrences acquired)))
  | [], acquired, w, _ => by
      rw [acquireAll, allOccurrences]
      exact .inl ⟨nofun, by rw [taking_nil]⟩
  | l :: rest, acquired, w, nonneg => by
      have here := taking_nonneg nonneg (allOccurrences acquired)
      rw [acquireAll, allOccurrences]
      rcases tryAcquire_settles l (taking w (allOccurrences acquired)) here with
        ⟨fits, taken⟩ | ⟨refused, kept⟩
      · have further := acquireAll_settles rest (l :: acquired) w nonneg
        rw [allOccurrences, taking_append, taking_comm] at further
        rw [taken]
        rcases further with ⟨more, reached⟩ | ⟨less, undone⟩
        · exact .inl ⟨fits_append.mpr ⟨fits, more⟩, by rw [taking_append]; exact reached⟩
        · exact .inr ⟨fun whole => less (fits_append.mp whole).2, undone⟩
      · rw [kept]
        exact .inr ⟨fun whole => refused (fits_append.mp whole).1, undo_taking acquired nonneg⟩

end

end Trees

/-- What a tree of limiters promises in a state of its leaves. -/
structure AllOrNothing (tree : Limiter L) (w : L → Concurrency) : Prop where
  /-- It succeeds exactly if every limiter has room for all of its occurrences. -/
  decides : (tree.tryAcquire permits w).1 = some (decide (∀ l ∈ tree.occurrences,
    (w l).inUse + tree.occurrences.count l ≤ (w l).max))
  grows : (tree.tryAcquire permits w).1 = some true → ∀ l,
    (tree.tryAcquire permits w).2 l =
      { w l with inUse := (w l).inUse + tree.occurrences.count l }
  unchanged : (tree.tryAcquire permits w).1 = some false → (tree.tryAcquire permits w).2 = w
  /-- `Release` after a success does not panic and restores every limiter. -/
  restores : (tree.tryAcquire permits w).1 = some true →
    tree.release permits (tree.tryAcquire permits w).2 = (false, w)

/-- A tree of limiters acquires all of its leaves or none, in every state of theirs. -/
theorem all_or_nothing (tree : Limiter L) {w : L → Concurrency}
    (reached : ∀ l, (w l).Reached) : AllOrNothing tree w := by
  have nonneg := fun l => (reached l).nonneg
  rcases tryAcquire_settles tree w nonneg with ⟨fits, taken⟩ | ⟨refused, kept⟩
  · refine ⟨?_, ?_, ?_, ?_⟩ <;> rw [taken]
    · exact congrArg some (decide_eq_true fits).symm
    · exact fun _ l => rfl
    · exact nofun
    · exact fun _ => release_taking tree w nonneg
  · refine ⟨?_, ?_, ?_, ?_⟩ <;> rw [kept]
    · exact congrArg some (decide_eq_false refused).symm
    · exact nofun
    · exact fun _ => rfl
    · exact nofun

/-- The same limiter twice in one group and once more in a group inside. -/
def nested : Limiter Bool :=
  .all [.leaf true, .all [.leaf false, .all [], .all [.leaf true]], .leaf true]

/-- Limiters of three permits, of which some are taken. -/
def partly (taken : Int) (_ : Bool) : Concurrency :=
  ⟨3, taken⟩

theorem all_or_nothing_nested :
    (nested.tryAcquire permits (partly 0)).1 = some true ∧
      (nested.tryAcquire permits (partly 1)).1 = some false ∧
      AllOrNothing nested (partly 0) ∧ AllOrNothing nested (partly 1) := by
  have fresh : Concurrency.Reached ⟨3, 0⟩ :=
    .created (show Concurrency.newConcurrency 3 = some ⟨3, 0⟩ from rfl)
  have used : Concurrency.Reached ⟨3, 1⟩ := .acquired fresh
  exact ⟨by decide +kernel, by decide +kernel, all_or_nothing nested fun _ => fresh,
    all_or_nothing nested fun _ => used⟩

end Limiter

end Netx.Limit
