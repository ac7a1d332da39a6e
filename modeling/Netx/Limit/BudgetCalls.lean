import Netx.Limit.Budget
import Netx.Limit.Reservations

/-!
# Calls on a budget, one after the other

A call that nobody interrupts is one function of the atomic word. A `Release` that
panics because it asks for more than is in use leaves its subtraction in place.
-/

set_option autoImplicit false

namespace Netx.Limit.Atomic

open Transition

inductive Call where
  | reserve (n : Int)
  | release (n : Int)
  deriving DecidableEq, Repr

def Call.amount : Call → Int
  | .reserve n | .release n => n

/-- The call as the first action of a thread. -/
def Call.act {T : Type} : Call → Act T
  | .reserve n => .take n
  | .release n => .misuse n

def reserve (max used n : Int) : Bool × Int :=
  if n < 0 then (false, used)
  else if Kind.refuses .budget max used n then (false, used)
  else (true, wrap (used + n))

/-- `Release(n)` and whether it panics. -/
def release (used n : Int) : Bool × Int :=
  if n < 0 then (true, used)
  else
    let used := wrap (used + wrap (-n))
    (decide (used < 0), used)

def perform (max used : Int) : Call → Reply × Int
  | .reserve n =>
      let (ok, used) := reserve max used n
      (.took ok, used)
  | .release n =>
      let (panics, used) := release used n
      (if panics then .panicked else .released, used)

/-- A budget of `max` units as its callers see it, one call at a time. A panic is
recovered from. -/
def calls (max : Int) : System Int Call where
  initial used := used = 0
  step used call := if InRange call.amount then some (perform max used call).2 else none

/-- What a sequence of calls is answered. -/
def replies (max : Int) : Int → List Call → List Reply
  | _, [] => []
  | used, call :: rest =>
      let (reply, used) := perform max used call
      reply :: replies max used rest

section Alone

variable {T : Type} [DecidableEq T] {max : Int} {w mid : World T} {t : T} {n : Int} {reply : Reply}

/-- Steps of its own bring the thread to its return, with this reply and this word. -/
def Returns (max : Int) (w : World T) (t : T) (result : Reply × Int) : Prop :=
  ∃ count next, (system T .budget max).exec w (List.replicate count (t, .next)) = some next ∧
    next.pc t = .returned result.1 ∧ next.used = result.2

theorem Returns.now (here : w.pc t = .returned reply) : Returns max w t (reply, w.used) :=
  ⟨0, w, rfl, here, rfl⟩

theorem Returns.step {result : Reply × Int} (returns : Returns max mid t result)
    (stepped : w.next .budget max t = some mid) : Returns max w t result := by
  obtain ⟨count, next, executed, there, value⟩ := returns
  exact ⟨count + 1, next, System.exec_step stepped executed, there, value⟩

private theorem setPc_pc (w : World T) (t : T) (pc : Pc) : (w.setPc t pc).pc t = pc :=
  Function.update_self ..

private theorem cas_returns (here : w.pc t = .cas n w.used) :
    Returns max w t (.took true, wrap (w.used + n)) := by
  have stepped : w.next .budget max t = some ({ w with
      used := wrap (w.used + n)
      held := Function.update w.held t (w.held t + n)
      outstanding := w.outstanding + n }.setPc t (.returned (.took true))) := by
    simp only [World.next, here, if_true]
  exact (Returns.now (setPc_pc _ t _)).step stepped

private theorem load_returns (here : w.pc t = .load n) (nonneg : ¬n < 0) :
    Returns max w t (perform max w.used (.reserve n)) := by
  by_cases refuses : Kind.refuses .budget max w.used n = true
  · have stepped : w.next .budget max t = some (w.setPc t (.returned (.took false))) := by
      simp only [World.next, here, if_pos refuses]
    simp only [perform, reserve, if_neg nonneg, if_pos refuses]
    exact (Returns.now (setPc_pc w t _)).step stepped
  · have stepped : w.next .budget max t = some (w.setPc t (.cas n w.used)) := by
      simp only [World.next, here, if_neg refuses]
    simp only [perform, reserve, if_neg nonneg, if_neg refuses]
    exact (cas_returns (w := w.setPc t (.cas n w.used)) (setPc_pc w t _)).step stepped

private theorem enter_returns (here : w.pc t = .enter n) :
    Returns max w t (perform max w.used (.reserve n)) := by
  by_cases negative : n < 0
  · have stepped : w.next .budget max t = some (w.setPc t (.returned (.took false))) := by
      simp only [World.next, here, if_pos negative]
    simp only [perform, reserve, if_pos negative]
    exact (Returns.now (setPc_pc w t _)).step stepped
  · have stepped : w.next .budget max t = some (w.setPc t (.load n)) := by
      simp only [World.next, here, if_neg negative]
    exact (load_returns (w := w.setPc t (.load n)) (setPc_pc w t _) negative).step stepped

private theorem release_returns (here : w.pc t = .release n) :
    Returns max w t (perform max w.used (.release n)) := by
  by_cases negative : n < 0
  · have stepped : w.next .budget max t = some (w.setPc t (.returned .panicked)) := by
      simp only [World.next, here, if_pos negative]
    simp only [perform, release, if_pos negative, if_true]
    exact (Returns.now (setPc_pc w t _)).step stepped
  · have stepped : w.next .budget max t = some (w.subtract .budget t n) := by
      simp only [World.next, here, if_neg negative]
    refine Returns.step ?_ stepped
    simp only [perform, release, if_neg negative, World.subtract, decide_eq_true_eq]
    split
    · exact Returns.now (setPc_pc { w with used := wrap (w.used + wrap (-n)) } t _)
    · exact Returns.now (setPc_pc { w with
        used := wrap (w.used + wrap (-n))
        outstanding := w.outstanding - n } t _)

/-- A call that no other thread interrupts does what `perform` says. -/
theorem perform_alone (call : Call) (free : (w.pc t).free = true)
    (range : InRange call.amount) :
    ∃ mid, w.step .budget max (t, call.act) = some mid ∧
      Returns max mid t (perform max w.used call) := by
  have amount : Kind.amount .budget call.amount = true := decide_eq_true range
  cases call with
  | reserve n =>
      exact ⟨w.setPc t (.enter n), if_pos ⟨free, amount⟩, enter_returns (setPc_pc w t _)⟩
  | release n =>
      exact ⟨w.setPc t (.release n), if_pos ⟨free, amount⟩, release_returns (setPc_pc w t _)⟩

end Alone

/-- A `Release` of more than is in use. -/
def Overdraws (used : Int) : Call → Prop
  | .reserve _ => False
  | .release n => used < n

section Bounds

variable {max used n : Int}

private theorem wrap_neg (nonneg : 0 ≤ n) (range : InRange n) : wrap (-n) = -n :=
  wrap_eq ⟨by have := range.2; omega, by omega⟩

/-- The subtraction of a `Release` is exact while the word is not negative. -/
theorem subtract_exact (within : max < 2 ^ 63) (lower : 0 ≤ used) (upper : used ≤ max)
    (nonneg : 0 ≤ n) (range : InRange n) : wrap (used + wrap (-n)) = used - n := by
  have small := range.2
  rw [wrap_neg nonneg range, ← sub_eq_add_neg, wrap_eq ⟨by omega, by omega⟩]

/-- Within its bounds the word answers as the budget with unbounded integers. -/
theorem reserve_eq_budget (within : max < 2 ^ 63) (lower : 0 ≤ used) (upper : used ≤ max)
    (range : InRange n) : Budget.reserve n ⟨max, used⟩ =
      ((reserve max used n).1, ⟨max, (reserve max used n).2⟩) := by
  have amount : Kind.amount .budget n = true := decide_eq_true range
  have refuses := Kind.refuses_iff within lower upper amount
  unfold Budget.reserve reserve
  by_cases negative : n < 0
  · simp only [if_pos negative]
  · by_cases full : max < used + n
    · have more : n > max - used := by omega
      simp only [if_neg negative, if_pos (refuses.mpr full), if_pos more]
    · have value : wrap (used + n) = used + n := wrap_eq ⟨by omega, by omega⟩
      have fits : ¬n > max - used := by omega
      simp only [if_neg negative, if_neg (mt refuses.mp full), if_neg fits, value]

theorem release_eq_budget (within : max < 2 ^ 63) (lower : 0 ≤ used) (upper : used ≤ max)
    (range : InRange n) : Budget.release n ⟨max, used⟩ =
      ((release used n).1, ⟨max, (release used n).2⟩) := by
  unfold Budget.release release
  by_cases negative : n < 0
  · simp only [if_pos negative]
  · simp only [if_neg negative, subtract_exact within lower upper (Int.not_lt.mp negative) range]

/-- A call keeps the word within its bounds exactly if it does not overdraw. -/
theorem perform_bounded_iff (within : max < 2 ^ 63) (lower : 0 ≤ used) (upper : used ≤ max)
    {call : Call} (range : InRange call.amount) :
    (0 ≤ (perform max used call).2 ∧ (perform max used call).2 ≤ max) ↔
      ¬Overdraws used call := by
  cases call with
  | reserve n =>
      have same := congrArg (fun result => result.2.used)
        (reserve_eq_budget (n := n) within lower upper range)
      have value : (perform max used (.reserve n)).2 = (Budget.reserve n ⟨max, used⟩).2.used :=
        same.symm
      rw [value]
      refine iff_of_true ?_ id
      unfold Budget.reserve
      split
      · exact ⟨lower, upper⟩
      · split
        · exact ⟨lower, upper⟩
        · rename_i nonneg fits
          dsimp only at fits ⊢
          omega
  | release n =>
      have same := congrArg (fun result => result.2.used)
        (release_eq_budget (n := n) within lower upper range)
      have value : (perform max used (.release n)).2 = (Budget.release n ⟨max, used⟩).2.used :=
        same.symm
      rw [value]
      unfold Budget.release
      simp only [Overdraws]
      split
      · simp only
        omega
      · simp only
        omega

end Bounds

/-- What a sequence of calls on a fresh budget may rely on. -/
structure Intact (max : Int) (sequence : List Call) : Prop where
  bounded : ∀ used, (calls max).Visits 0 sequence used → 0 ≤ used ∧ used ≤ max
  /-- A `Release` that panics leaves `Used` unchanged. -/
  unchanged : ∀ used n, (calls max).Takes 0 sequence used (.release n) →
    (release used n).1 = true → (release used n).2 = used
  /-- And every later call is answered as if it had not been made. -/
  answered : ∀ used n, (calls max).Takes 0 sequence used (.release n) →
    (release used n).1 = true →
    ∀ later, replies max (release used n).2 later = replies max used later

section Runs

variable {max : Int}

/-- Within the bounds, a `Release` panics for a negative amount or for too much. -/
theorem release_unchanged {used n : Int} (within : max < 2 ^ 63) (lower : 0 ≤ used)
    (upper : used ≤ max) (range : InRange n) (covered : ¬Overdraws used (.release n))
    (panics : (release used n).1 = true) : (release used n).2 = used := by
  have most : n ≤ used := Int.not_lt.mp covered
  unfold release at panics ⊢
  by_cases negative : n < 0
  · simp only [if_pos negative]
  · have value := subtract_exact within lower upper (Int.not_lt.mp negative) range
    simp only [if_neg negative, value, decide_eq_true_eq] at panics
    omega

/-- A sequence of calls finds its budget intact after every refused `Release` exactly if
none of its releases asks for more than is in use. -/
theorem refused_release_intact_iff (positive : 0 < max) (within : max ≤ 2 ^ 63 - 1)
    {sequence : List Call} {final : Int}
    (executed : (calls max).exec 0 sequence = some final) :
    Intact max sequence ↔
      ∀ used call, (calls max).Takes 0 sequence used call → ¬Overdraws used call := by
  have small : max < 2 ^ 63 := Int.lt_of_le_sub_one within
  have exactly : (∀ used, (calls max).Visits 0 sequence used → 0 ≤ used ∧ used ≤ max) ↔
      ∀ used call, (calls max).Takes 0 sequence used call → ¬Overdraws used call := by
    refine System.visits_iff_takes _ _ ?_ (.initial rfl) ⟨Int.le_refl 0, Int.le_of_lt positive⟩
      executed
    intro used call next _ bounds stepped
    obtain ⟨range, same⟩ := Option.ite_none_right_eq_some.mp stepped
    cases same
    exact perform_bounded_iff small bounds.1 bounds.2 range
  refine ⟨fun intact => exactly.mp intact.bounded, fun covered => ?_⟩
  have bounded := exactly.mpr covered
  have unchanged : ∀ used n, (calls max).Takes 0 sequence used (.release n) →
      (release used n).1 = true → (release used n).2 = used := by
    intro used n taken panics
    obtain ⟨lower, upper⟩ := bounded used taken.visits
    obtain ⟨next, stepped⟩ := taken.step executed
    have range := (Option.ite_none_right_eq_some.mp stepped).1
    exact release_unchanged small lower upper range (covered used _ taken) panics
  exact ⟨bounded, unchanged, fun used n taken panics later => by
    rw [unchanged used n taken panics]⟩

end Runs

/-- Most of the largest budget is taken, a negative amount is released in vain, and what
a release gives back is taken again. -/
def wellUsed : List Call :=
  [.reserve (2 ^ 63 - 3), .release (-1), .release 5, .reserve 7, .reserve 1]

theorem refused_release_intact_iff_wellUsed :
    replies (2 ^ 63 - 1) 0 wellUsed =
        [.took true, .panicked, .released, .took true, .took false] ∧
      (calls (2 ^ 63 - 1)).exec 0 wellUsed = some (2 ^ 63 - 1) ∧
      (Intact (2 ^ 63 - 1) wellUsed ↔ ∀ used call,
        (calls (2 ^ 63 - 1)).Takes 0 wellUsed used call → ¬Overdraws used call) := by
  have executed : (calls (2 ^ 63 - 1)).exec 0 wellUsed = some (2 ^ 63 - 1) := by
    decide +kernel
  exact ⟨by decide +kernel, executed,
    refused_release_intact_iff (by decide) (by decide) executed⟩

/-- A refused `Release(1)` on an unused budget leaves `Used` at -1. A budget of one unit
then hands out two, and one of the largest size refuses even to reserve nothing. -/
theorem refused_release_breaks_budget :
    release 0 1 = (true, -1) ∧
      replies 1 (-1) [.reserve 2] = [.took true] ∧ replies 1 0 [.reserve 2] = [.took false] ∧
      replies (2 ^ 63 - 1) (-1) [.reserve 0] = [.took false] ∧
      replies (2 ^ 63 - 1) 0 [.reserve 0] = [.took true] ∧
      ¬Intact 1 [.release 1] := by
  refine ⟨by decide +kernel, by decide +kernel, by decide +kernel, by decide +kernel,
    by decide +kernel, fun intact => ?_⟩
  have first : (calls 1).Takes 0 [.release 1] 0 (.release 1) := ⟨[], [], rfl, rfl⟩
  have same := intact.unchanged 0 1 first (by decide +kernel)
  exact absurd same (by decide +kernel)

end Netx.Limit.Atomic
