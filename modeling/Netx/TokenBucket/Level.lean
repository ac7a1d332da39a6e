import Mathlib.Algebra.Order.Field.Basic
import Mathlib.Tactic.Linarith
import Mathlib.Tactic.Ring

/-!
# Token buckets

A bucket is full at first. It refills continuously at a fixed rate up to its
capacity and pays one token for each admission. Its level at a time depends only
on the admissions so far, which are listed with the latest one first.
-/

set_option autoImplicit false

namespace Netx.TokenBucket

structure Bucket (K : Type) where
  rate : K
  capacity : K

variable {K : Type} [Field K] [LinearOrder K]

namespace Bucket

/-- The tokens at time `t`, which is not before the latest admission. -/
def level (b : Bucket K) : List K → K → K
  | [], _ => b.capacity
  | last :: earlier, t => min b.capacity (b.level earlier last - 1 + b.rate * (t - last))

/-- Calls at the given times: each is admitted if there is a token to pay for it. -/
def answers (b : Bucket K) : List K → List K → List Bool
  | _, [] => []
  | paid, t :: rest =>
      if 1 ≤ b.level paid t then true :: b.answers (t :: paid) rest
      else false :: b.answers paid rest

/-- The admissions came in the order of their times, and each found its token. -/
def Paid (b : Bucket K) : List K → Prop
  | [] => True
  | last :: earlier =>
      b.Paid earlier ∧ (∀ a ∈ earlier, a ≤ last) ∧ 1 ≤ b.level earlier last

variable {b : Bucket K} {paid : List K} {s t u : K}

theorem level_le (b : Bucket K) (paid : List K) (t : K) : b.level paid t ≤ b.capacity := by
  cases paid with
  | nil => exact le_rfl
  | cons last earlier => exact min_le_left _ _

variable [IsStrictOrderedRing K]

theorem level_pay (b : Bucket K) (paid : List K) (t : K) :
    b.level (t :: paid) t = b.level paid t - 1 := by
  have most := b.level_le paid t
  rw [level, sub_self, mul_zero, add_zero, min_eq_right]
  linarith

/-- Between two admissions the bucket refills at its rate until it is full. -/
theorem level_refill (rate : 0 ≤ b.rate) (after : ∀ a ∈ paid, a ≤ u) (later : u ≤ t) :
    b.level paid t = min b.capacity (b.level paid u + b.rate * (t - u)) := by
  have gained : 0 ≤ b.rate * (t - u) := mul_nonneg rate (sub_nonneg.mpr later)
  cases paid with
  | nil =>
      simp only [level]
      rw [min_eq_left]
      linarith
  | cons last earlier =>
      have split : b.rate * (t - last) = b.rate * (u - last) + b.rate * (t - u) := by ring
      have more : b.capacity ≤ b.capacity + b.rate * (t - u) := by linarith
      simp only [level]
      rw [split, ← min_add_add_right, ← min_assoc, min_eq_left more, add_assoc]

theorem level_nonneg (rate : 0 ≤ b.rate) (capacity : 0 ≤ b.capacity) (found : b.Paid paid)
    (after : ∀ a ∈ paid, a ≤ t) : 0 ≤ b.level paid t := by
  cases paid with
  | nil => exact capacity
  | cons last earlier =>
      obtain ⟨_, _, token⟩ := found
      have gained : 0 ≤ b.rate * (t - last) :=
        mul_nonneg rate (sub_nonneg.mpr (after last List.mem_cons_self))
      refine le_min capacity ?_
      linarith

/-- What was admitted since `s` and what is left at `t` was there or has come in since. -/
theorem admitted_add_level_le (rate : 0 ≤ b.rate) (found : b.Paid paid) (begun : s ≤ t)
    (after : ∀ a ∈ paid, a ≤ t) :
    ((paid.filter (s ≤ ·)).length : K) + b.level paid t ≤
      b.capacity + b.rate * (t - s) := by
  induction paid generalizing t with
  | nil =>
      have gained : 0 ≤ b.rate * (t - s) := mul_nonneg rate (sub_nonneg.mpr begun)
      simp only [List.filter_nil, List.length_nil, Nat.cast_zero, level]
      linarith
  | cons last earlier ih =>
      obtain ⟨before, ordered, token⟩ := found
      have gained : 0 ≤ b.rate * (t - s) := mul_nonneg rate (sub_nonneg.mpr begun)
      by_cases inside : s ≤ last
      · have spent := ih before inside ordered
        have left : b.level (last :: earlier) t ≤
            b.level earlier last - 1 + b.rate * (t - last) := min_le_right _ _
        have split : b.rate * (t - s) = b.rate * (last - s) + b.rate * (t - last) := by ring
        simp only [List.filter_cons, decide_eq_true inside, if_true, List.length_cons,
          Nat.cast_add, Nat.cast_one]
        linarith
      · have none : (last :: earlier).filter (s ≤ ·) = [] := by
          rw [List.filter_eq_nil_iff]
          intro a member
          rw [decide_eq_true_iff]
          rcases List.mem_cons.mp member with rfl | old
          · exact inside
          · exact fun since => inside (since.trans (ordered a old))
        have most := b.level_le (last :: earlier) t
        simp only [none, List.length_nil, Nat.cast_zero]
        linarith

/-- No window sees more admissions than the capacity and what came in during it. -/
theorem window_le (rate : 0 ≤ b.rate) (capacity : 0 ≤ b.capacity) (found : b.Paid paid)
    (begun : s ≤ t) :
    ((paid.filter fun a => s ≤ a ∧ a ≤ t).length : K) ≤ b.capacity + b.rate * (t - s) := by
  induction paid with
  | nil =>
      have gained : 0 ≤ b.rate * (t - s) := mul_nonneg rate (sub_nonneg.mpr begun)
      simp only [List.filter_nil, List.length_nil, Nat.cast_zero]
      linarith
  | cons last earlier ih =>
      by_cases ended : last ≤ t
      · have after : ∀ a ∈ last :: earlier, a ≤ t := by
          intro a member
          rcases List.mem_cons.mp member with rfl | old
          · exact ended
          · exact (found.2.1 a old).trans ended
        have inside : (last :: earlier).filter (fun a => s ≤ a ∧ a ≤ t) =
            (last :: earlier).filter (s ≤ ·) := by
          refine List.filter_congr fun a member => ?_
          simp only [after a member, and_true]
        have spent := admitted_add_level_le rate found begun after
        have left := level_nonneg rate capacity found after
        rw [inside]
        linarith
      · have outside : ¬(s ≤ last ∧ last ≤ t) := fun both => ended both.2
        rw [List.filter_cons_of_neg (by simpa using outside)]
        exact ih found.1

end Bucket

end Netx.TokenBucket
