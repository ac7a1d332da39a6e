import Mathlib.Data.List.Basic
import Mathlib.Data.List.ReduceOption

/-! Go's error values as trees: `errors.New`, wrapping with `%w`, `errors.Join`
and the search of `errors.Is`. A nil error is `none`. -/

set_option autoImplicit false

namespace Netx.Errors

/-- Values made by `errors.New` or by wrapping are pointers, so each carries an
identity; two of them with one text are different errors. -/
inductive Err where
  | new (identity : Nat) (text : String)
  | errorf (text : String)
  | wrapped (identity : Nat) (text : String) (inner : Err)
  | joined (errs : List Err)
  deriving Repr

mutual

def Err.decEq : (a b : Err) → Decidable (a = b)
  | .new i t, .new j u => decidable_of_iff (i = j ∧ t = u) (by simp)
  | .errorf t, .errorf u => decidable_of_iff (t = u) (by simp)
  | .wrapped i t a, .wrapped j u b =>
      have := a.decEq b
      decidable_of_iff (i = j ∧ t = u ∧ a = b) (by simp)
  | .joined as, .joined bs =>
      have := Err.decEqList as bs
      decidable_of_iff (as = bs) (by simp)
  | .new _ _, .errorf _ | .new _ _, .wrapped _ _ _ | .new _ _, .joined _ => isFalse nofun
  | .errorf _, .new _ _ | .errorf _, .wrapped _ _ _ | .errorf _, .joined _ => isFalse nofun
  | .wrapped _ _ _, .new _ _ | .wrapped _ _ _, .errorf _ => isFalse nofun
  | .wrapped _ _ _, .joined _ => isFalse nofun
  | .joined _, .new _ _ | .joined _, .errorf _ | .joined _, .wrapped _ _ _ => isFalse nofun

def Err.decEqList : (as bs : List Err) → Decidable (as = bs)
  | [], [] => isTrue rfl
  | [], _ :: _ | _ :: _, [] => isFalse nofun
  | a :: as, b :: bs =>
      have := a.decEq b
      have := Err.decEqList as bs
      decidable_of_iff (a = b ∧ as = bs) (by simp)

end

instance : DecidableEq Err := Err.decEq

mutual

def Err.is (target : Err) : Err → Bool
  | .new i t => decide (.new i t = target)
  | .errorf t => decide (.errorf t = target)
  | .wrapped i t inner => decide (.wrapped i t inner = target) || Err.is target inner
  | .joined errs => decide (.joined errs = target) || Err.anyIs target errs

def Err.anyIs (target : Err) : List Err → Bool
  | [] => false
  | err :: errs => Err.is target err || Err.anyIs target errs

end

mutual

/-- The error is `only` itself or wraps nothing else. -/
def Err.alone (only : Err) : Err → Bool
  | .new i t => decide (.new i t = only)
  | .errorf t => decide (.errorf t = only)
  | .wrapped i t inner => decide (.wrapped i t inner = only) || Err.alone only inner
  | .joined errs => decide (.joined errs = only) || (!errs.isEmpty && Err.allAlone only errs)

def Err.allAlone (only : Err) : List Err → Bool
  | [] => true
  | err :: errs => Err.alone only err && Err.allAlone only errs

end

/-- `errors.Is`. -/
def is (err : Option Err) (target : Err) : Bool :=
  err.any (Err.is target)

/-- `errors.Join`: nil errors are left out, and joining nothing else gives nil. -/
def join (errs : List (Option Err)) : Option Err :=
  match errs.reduceOption with
  | [] => none
  | first :: rest => some (.joined (first :: rest))

variable {target : Err} {errs : List (Option Err)}

theorem Err.anyIs_iff {errs : List Err} :
    Err.anyIs target errs = true ↔ ∃ err ∈ errs, Err.is target err = true := by
  induction errs with
  | nil => simp [Err.anyIs]
  | cons err errs ih => simp [Err.anyIs, ih]

theorem Err.is_self (err : Err) : Err.is err err = true := by
  cases err <;> simp [Err.is]

theorem is_some (err target : Err) : is (some err) target = Err.is target err := rfl

theorem is_none (target : Err) : is none target = false := rfl

/-- What is found in a joined error is found in the join. -/
theorem is_join_of_mem {err : Option Err} (member : err ∈ errs) (found : is err target = true) :
    is (join errs) target = true := by
  cases err with
  | none => cases found
  | some err =>
      have kept : err ∈ errs.reduceOption := List.reduceOption_mem_iff.mpr member
      unfold join
      cases nonNil : errs.reduceOption with
      | nil => simp [nonNil] at kept
      | cons first rest =>
          rw [nonNil] at kept
          rw [is_some, Err.is, Err.anyIs_iff.mpr ⟨err, kept, found⟩, Bool.or_true]

/-- Only a joined error is found in a join without being found in a part of it. -/
theorem exists_of_is_join (plain : ∀ parts, target ≠ .joined parts)
    (found : is (join errs) target = true) : ∃ err ∈ errs, is err target = true := by
  unfold join at found
  cases nonNil : errs.reduceOption with
  | nil => simp [nonNil, is_none] at found
  | cons first rest =>
      simp only [nonNil, is_some, Err.is, Bool.or_eq_true, decide_eq_true_eq] at found
      rcases found with whole | part
      · exact absurd whole.symm (plain _)
      · obtain ⟨err, member, found⟩ := Err.anyIs_iff.mp part
        rw [← nonNil] at member
        exact ⟨some err, List.reduceOption_mem_iff.mp member, found⟩

theorem join_eq_none : join errs = none ↔ ∀ err ∈ errs, err = none := by
  unfold join
  cases kept : errs.reduceOption with
  | nil =>
      refine iff_of_true rfl fun err member => ?_
      cases err with
      | none => rfl
      | some err =>
          have found : err ∈ errs.reduceOption := List.reduceOption_mem_iff.mpr member
          simp [kept] at found
  | cons first rest =>
      refine iff_of_false nofun fun none => ?_
      have found : some first ∈ errs :=
        List.reduceOption_mem_iff.mp (kept ▸ List.mem_cons_self)
      cases none _ found

end Netx.Errors
