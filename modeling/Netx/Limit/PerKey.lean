import Mathlib.Data.List.AList
import Mathlib.Data.Finset.Card
import Mathlib.Data.Multiset.Count
import Mathlib.Algebra.Order.Ring.Int

/-!
# The per-key limiter

`PerKey` of `limit.go` with its map from keys to counts. Abstractly it holds a
multiset of keys, one occurrence for each slot taken.
-/

set_option autoImplicit false

namespace Netx.Limit

structure PerKey (K : Type) where
  max : Int
  n : AList fun _ : K => Int

namespace PerKey

variable {K : Type} [DecidableEq K]

/-- `NewPerKey`, with `none` where the source panics. -/
def newPerKey (max : Int) : Option (PerKey K) :=
  if max ≤ 0 then none else some { max, n := ∅ }

def inUse (p : PerKey K) (k : K) : Int :=
  (p.n.lookup k).getD 0

def keys (p : PerKey K) : Nat :=
  p.n.keys.length

def tryAcquire (p : PerKey K) (k : K) : Bool × PerKey K :=
  if p.inUse k ≥ p.max then (false, p)
  else (true, { p with n := p.n.insert k (p.inUse k + 1) })

/-- `Release` and whether it panics. -/
def release (p : PerKey K) (k : K) : Bool × PerKey K :=
  match p.n.lookup k with
  | none => (true, p)
  | some n =>
      if n = 1 then (false, { p with n := p.n.erase k })
      else (false, { p with n := p.n.insert k (n - 1) })

/-- The slots taken are those of `held`: absent keys hold none. -/
def Holds (p : PerKey K) (held : Multiset K) : Prop :=
  ∀ k, p.n.lookup k = if k ∈ held then some (held.count k : Int) else none

variable {p : PerKey K} {held : Multiset K}

theorem newPerKey_holds {max : Int} (created : newPerKey max = some p) :
    p.Holds 0 ∧ p.max = max ∧ 0 < max := by
  unfold newPerKey at created
  split at created
  · cases created
  · cases created
    exact ⟨fun k => by simp, rfl, by omega⟩

theorem Holds.inUse (holds : p.Holds held) (k : K) : p.inUse k = held.count k := by
  unfold PerKey.inUse
  rw [holds k]
  by_cases member : k ∈ held
  · simp [member]
  · simp [member, Multiset.count_eq_zero_of_notMem]

theorem Holds.mem_keys (holds : p.Holds held) (k : K) : k ∈ p.n.keys ↔ k ∈ held := by
  rw [← AList.mem_keys, ← AList.lookup_isSome, holds k]
  by_cases member : k ∈ held <;> simp [member]

theorem Holds.keys (holds : p.Holds held) : p.keys = held.toFinset.card := by
  have same : p.n.keys.toFinset = held.toFinset := by
    ext k
    rw [List.mem_toFinset, Multiset.mem_toFinset, holds.mem_keys]
  rw [PerKey.keys, ← same, List.toFinset_card_of_nodup p.n.keys_nodup]

theorem Holds.tryAcquire (holds : p.Holds held) (k : K) :
    p.tryAcquire k = (false, p) ∨
      ∃ q, p.tryAcquire k = (true, q) ∧ (held.count k : Int) < p.max ∧ q.max = p.max ∧
        q.Holds (k ::ₘ held) := by
  unfold PerKey.tryAcquire
  rw [holds.inUse k]
  split
  · exact .inl rfl
  · rename_i free
    refine .inr ⟨_, rfl, by omega, rfl, fun other => ?_⟩
    by_cases same : other = k
    · subst same
      simp [AList.lookup_insert]
    · have kept : other ∈ k ::ₘ held ↔ other ∈ held := by simp [same]
      simp only [AList.lookup_insert_ne same, holds other, kept,
        Multiset.count_cons_of_ne same]

theorem Holds.release (holds : p.Holds held) {k : K} (member : k ∈ held) :
    ∃ q, p.release k = (false, q) ∧ q.max = p.max ∧ q.Holds (held.erase k) := by
  have found : p.n.lookup k = some (held.count k : Int) := by rw [holds k, if_pos member]
  have positive : 0 < held.count k := Multiset.count_pos.mpr member
  unfold PerKey.release
  rw [found]
  by_cases last : (held.count k : Int) = 1
  · refine ⟨_, if_pos last, rfl, fun other => ?_⟩
    by_cases same : other = k
    · subst same
      have none : other ∉ held.erase other := by
        rw [← Multiset.count_eq_zero, Multiset.count_erase_self]
        omega
      simp [AList.lookup_erase, none]
    · simp only [AList.lookup_erase_ne same, holds other, Multiset.mem_erase_of_ne same,
        Multiset.count_erase_of_ne same]
  · refine ⟨_, if_neg last, rfl, fun other => ?_⟩
    by_cases same : other = k
    · subst same
      have more : other ∈ held.erase other := by
        rw [← Multiset.count_pos, Multiset.count_erase_self]
        omega
      have count : (held.erase other).count other = held.count other - 1 :=
        Multiset.count_erase_self other held
      simp only [AList.lookup_insert, if_pos more, count]
      congr 1
      omega
    · simp only [AList.lookup_insert_ne same, holds other, Multiset.mem_erase_of_ne same,
        Multiset.count_erase_of_ne same]

end PerKey

end Netx.Limit
