import Mathlib.Algebra.BigOperators.Group.Finset.Basic
import Mathlib.Algebra.BigOperators.Ring.Finset
import Mathlib.Algebra.Order.BigOperators.Group.Finset

/-! Totals over an indexed family, and how they change when one member does. -/

set_option autoImplicit false

namespace Netx.Transition

/-- The sum of a weight over the members of the family with an index in `s`. -/
def tally {ι α M : Type} [AddCommMonoid M] (s : Finset ι) (family : ι → α)
    (weight : α → M) : M :=
  ∑ i ∈ s, weight (family i)

section Updates

variable {ι α M : Type} [DecidableEq ι] [AddCommMonoid M]
variable {s : Finset ι} {family : ι → α} {i : ι}

theorem tally_split (weight : α → M) (member : i ∈ s) :
    tally s family weight = weight (family i) + tally (s.erase i) family weight :=
  (Finset.add_sum_erase s (fun j => weight (family j)) member).symm

theorem tally_update_of_notMem (weight : α → M) (value : α) (outside : i ∉ s) :
    tally s (Function.update family i value) weight = tally s family weight := by
  refine Finset.sum_congr rfl fun j member => ?_
  have apart : j ≠ i := fun same => outside (same ▸ member)
  rw [Function.update_of_ne apart]

theorem tally_update (weight : α → M) (value : α) (member : i ∈ s) :
    tally s (Function.update family i value) weight =
      weight value + tally (s.erase i) family weight := by
  rw [tally_split weight member, Function.update_self,
    tally_update_of_notMem weight value (Finset.notMem_erase i s)]

/-- Without differences: what a member had is exchanged for what it has. -/
theorem tally_exchange (weight : α → M) {value : α} {after : ι → α}
    (changed : after = Function.update family i value) (member : i ∈ s) :
    tally s after weight + weight (family i) = tally s family weight + weight value := by
  rw [changed, tally_update weight value member, tally_split weight member]
  ac_rfl

/-- The change of one member changes the total by the difference of its weights. -/
theorem tally_change {G : Type} [AddCommGroup G] (weight : α → G) (value : α) (member : i ∈ s) :
    tally s (Function.update family i value) weight =
      tally s family weight - weight (family i) + weight value := by
  rw [tally_update weight value member, tally_split weight member, add_sub_cancel_left,
    add_comm]

theorem tally_range_succ (family : Nat → α) (weight : α → M) (n : Nat) (value : α) :
    tally (Finset.range (n + 1)) (Function.update family n value) weight =
      weight value + tally (Finset.range n) family weight := by
  have outside : n ∉ Finset.range n := Finset.notMem_range_self
  rw [Finset.range_add_one, tally, Finset.sum_insert outside, Function.update_self]
  exact congrArg (weight value + ·) (tally_update_of_notMem weight value outside)

end Updates

/-- A total over what all members of the family have. -/
theorem sum_map_tally {ι α β M : Type} [AddCommMonoid M] {s : Finset ι} {family : ι → α}
    (has : α → Multiset β) (weight : β → M) :
    ((tally s family has).map weight).sum =
      tally s family fun member => ((has member).map weight).sum :=
  map_sum (Multiset.sumAddMonoidHom.comp (Multiset.mapAddMonoidHom weight)) _ _

section Counting

variable {ι α K : Type} {s : Finset ι} {family : ι → α} {p : α → Prop} [DecidablePred p]

theorem tally_indicator {weight : α → ℤ}
    (each : ∀ i ∈ s, weight (family i) = if p (family i) then 1 else 0) :
    tally s family weight = ((s.filter fun i => p (family i)).card : ℤ) := by
  rw [Finset.natCast_card_filter]
  exact Finset.sum_congr rfl each

variable [DecidableEq K] {key : α → K}

/-- Each member of the family that satisfies `p` contributes its key. -/
theorem count_tally (k : K) :
    (tally s family fun a => if p a then {key a} else (0 : Multiset K)).count k =
      (s.filter fun i => p (family i) ∧ key (family i) = k).card := by
  rw [tally, Multiset.count_sum', Finset.card_filter]
  refine Finset.sum_congr rfl fun i _ => ?_
  by_cases chosen : p (family i)
  · by_cases same : key (family i) = k
    · simp [chosen, same]
    · simp [chosen, same, Ne.symm same]
  · simp [chosen]

theorem toFinset_tally :
    (tally s family fun a => if p a then {key a} else (0 : Multiset K)).toFinset =
      (s.filter fun i => p (family i)).image fun i => key (family i) := by
  ext k
  rw [Multiset.mem_toFinset, ← Multiset.count_pos, count_tally, Finset.card_pos]
  simp only [Finset.Nonempty, Finset.mem_filter, Finset.mem_image, and_assoc]

end Counting

end Netx.Transition
