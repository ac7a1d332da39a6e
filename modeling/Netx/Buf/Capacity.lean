import Mathlib.Algebra.Ring.Nat
import Mathlib.Data.Nat.Size
import Mathlib.Order.Bounds.Defs

/-! Size classes of pooled buffers: powers of two from `minSize` to `large`. -/

set_option autoImplicit false

namespace Netx.Buf

def minSize : Nat := 64

def large : Nat := 64 <<< 10

def minShift : Nat := 6

/-- The class index for `n`, or `-1` above `large`. -/
def classOf (n : Nat) : Int :=
  if n > large then -1
  else if n ≤ minSize then 0
  else (Nat.size (n - 1) : Int) - minShift

/-- What a buffer of `n` bytes costs: its class size, or `n` itself above
`large`, where buffers are not pooled. -/
def capacity (n : Nat) : Nat :=
  let c := classOf n
  if c ≥ 0 then minSize <<< c.toNat else n

variable {n : Nat}

theorem classOf_nonneg_iff : 0 ≤ classOf n ↔ n ≤ large := by
  unfold classOf
  by_cases small : n > large
  · simp [small]
  · have within : n ≤ large := by omega
    by_cases least : n ≤ minSize
    · simp [small, least, within]
    · have shift : minShift ≤ Nat.size (n - 1) := by
        rw [minShift, ← Nat.lt_iff_add_one_le, Nat.lt_size]
        simp only [minSize] at least
        omega
      simp only [small, least, within, if_false, iff_true]
      omega

theorem capacity_of_pooled (pooled : 0 ≤ classOf n) : capacity n = minSize <<< (classOf n).toNat :=
  if_pos pooled

theorem capacity_of_large (above : large < n) : capacity n = n := by
  have unpooled : ¬0 ≤ classOf n := by
    rw [classOf_nonneg_iff]
    omega
  exact if_neg unpooled

private theorem capacity_of_least (least : n ≤ minSize) : capacity n = minSize := by
  have within : ¬n > large := Nat.not_lt.mpr (Nat.le_trans least (by decide))
  have first : classOf n = 0 := by rw [classOf, if_neg within, if_pos least]
  rw [capacity_of_pooled (Int.le_of_eq first.symm), first]
  rfl

private theorem capacity_eq_pow (least : ¬n ≤ minSize) (within : n ≤ large) :
    capacity n = 2 ^ Nat.size (n - 1) := by
  have pooled := classOf_nonneg_iff.mpr within
  have shift : minShift ≤ Nat.size (n - 1) := by
    rw [classOf, if_neg (by omega), if_neg least] at pooled
    omega
  have exponent : ((Nat.size (n - 1) : Int) - minShift).toNat = Nat.size (n - 1) - minShift := by
    omega
  rw [capacity_of_pooled pooled, classOf, if_neg (by omega), if_neg least, exponent,
    Nat.shiftLeft_eq, show minSize = 2 ^ minShift from rfl, ← Nat.pow_add,
    Nat.add_sub_cancel' shift]

/-- A class holds every request that is mapped to it. -/
theorem le_capacity (n : Nat) : n ≤ capacity n := by
  by_cases within : n ≤ large
  · by_cases least : n ≤ minSize
    · rw [capacity_of_least least]
      exact least
    · have below : n - 1 < 2 ^ Nat.size (n - 1) := Nat.lt_size_self _
      rw [capacity_eq_pow least within]
      omega
  · exact Nat.le_of_eq (capacity_of_large (Nat.not_le.mp within)).symm

/-- Up to `large` the capacity is the least power of two that holds the request and
`minSize`. -/
theorem capacity_isLeast (within : n ≤ large) :
    IsLeast { c | (∃ k, c = 2 ^ k) ∧ max n minSize ≤ c } (capacity n) := by
  have fits := le_capacity n
  by_cases least : n ≤ minSize
  · rw [capacity_of_least least] at fits ⊢
    refine ⟨⟨⟨6, rfl⟩, Nat.max_le.mpr ⟨fits, Nat.le_refl _⟩⟩, ?_⟩
    rintro c ⟨_, holds⟩
    exact Nat.le_trans (Nat.le_max_right _ _) holds
  · rw [capacity_eq_pow least within] at fits ⊢
    refine ⟨⟨⟨_, rfl⟩, Nat.max_le.mpr ⟨fits, by omega⟩⟩, ?_⟩
    rintro c ⟨⟨k, rfl⟩, holds⟩
    have bits : Nat.size (n - 1) ≤ k := by
      rw [Nat.size_le]
      have asked := Nat.le_trans (Nat.le_max_left n minSize) holds
      simp only [minSize] at least
      omega
    exact Nat.pow_le_pow_right Nat.two_pos bits

theorem capacity_pos (n : Nat) : 0 < capacity n := by
  by_cases within : n ≤ large
  · have least : 0 < max n minSize := Nat.lt_of_lt_of_le (by decide) (Nat.le_max_right n minSize)
    exact Nat.lt_of_lt_of_le least (capacity_isLeast within).1.2
  · exact Nat.lt_of_lt_of_le (Nat.zero_lt_of_lt (Nat.not_le.mp within)) (le_capacity n)

/-- What is longer than a class is given at least twice as much, up to `large`. -/
theorem two_mul_le_capacity {m : Nat} (small : capacity m < large) (above : capacity m < n) :
    2 * capacity m ≤ capacity n := by
  have fits := le_capacity n
  obtain ⟨i, class_m⟩ :=
    (capacity_isLeast (Nat.le_of_lt (Nat.lt_of_le_of_lt (le_capacity m) small))).1.1
  rw [class_m] at small above ⊢
  rw [← Nat.pow_succ']
  by_cases within : n ≤ large
  · obtain ⟨j, class_n⟩ := (capacity_isLeast within).1.1
    rw [class_n] at fits ⊢
    have later : i < j := (Nat.pow_lt_pow_iff_right (by decide)).mp (Nat.lt_of_lt_of_le above fits)
    exact Nat.pow_le_pow_right (by decide) later
  · have early : i < 16 := (Nat.pow_lt_pow_iff_right (by decide)).mp
      (show 2 ^ i < 2 ^ 16 from small)
    have bound : 2 ^ (i + 1) ≤ large := Nat.pow_le_pow_right (by decide) early
    omega

def numClasses : Nat := 11

theorem classOf_lt (n : Nat) : classOf n < numClasses := by
  unfold classOf
  split
  · decide
  · rename_i within
    split
    · decide
    · have bits : Nat.size (n - 1) ≤ 16 := by
        rw [Nat.size_le]
        simp only [large] at within
        omega
      simp only [minShift, numClasses]
      omega

end Netx.Buf
