import Netx.Limit.Atomic
import Netx.Transition.Tally

/-!
# The limiters never exceed their maximum

While every `Release` gives back something a thread holds, the word is the sum of what
is held and what is about to be given back. It stays between zero and the maximum, and
no expression over it leaves the `int64`s.
-/

set_option autoImplicit false

namespace Netx.Limit.Atomic

open Transition

/-- Every release gives back what a thread holds. -/
def matched {T : Type} (_ : World T) : T × Act T → Bool
  | (_, .misuse _) => false
  | _ => true

/-- What a release is about to give back. -/
def Pc.pending : Pc → Int
  | .release n => n
  | _ => 0

/-- The values of the expressions that the next step evaluates are `int64`s. -/
def Pc.Exact (max used : Int) : Pc → Prop
  | .load _ => InRange (max - used)
  | .cas n loaded => InRange (loaded + n)
  | .release n => InRange (-n) ∧ InRange (used - n)
  | .undo n => InRange (used + n)
  | _ => True

/-- The thread is taking and has not returned. -/
def Pc.Tries : Pc → Prop
  | .enter _ | .load _ | .cas _ _ => True
  | _ => False

/-- What a thread knows of the amount it is taking or giving back. -/
def Pc.Fits (kind : Kind) (max : Int) : Pc → Prop
  | .enter n => kind.amount n = true
  | .load n => kind.amount n = true ∧ 0 ≤ n
  | .cas n loaded => kind.amount n = true ∧ 0 ≤ n ∧ 0 ≤ loaded ∧ loaded + n ≤ max
  | .release n => 0 ≤ n
  | .undo _ | .returned .panicked => False
  | _ => True

structure World.Fair {T : Type} [Fintype T] (kind : Kind) (max : Int) (w : World T) :
    Prop where
  lower : 0 ≤ w.used
  upper : w.used ≤ max
  holds : ∀ t, 0 ≤ w.held t
  total : w.used = tally Finset.univ w.held id + tally Finset.univ w.pc Pc.pending
  fits : ∀ t, (w.pc t).Fits kind max

theorem wrap_eq {x : Int} (range : InRange x) : wrap x = x := by
  obtain ⟨lower, upper⟩ := range
  unfold wrap
  rw [Int.bmod_eq_of_le] <;> omega

section Amounts

variable {kind : Kind} {max : Int}

/-- The test on a loaded value is exact: it neither overflows nor refuses too much. -/
theorem Kind.refuses_iff {loaded n : Int} (within : max < 2 ^ 63) (lower : 0 ≤ loaded)
    (upper : loaded ≤ max) (amount : kind.amount n = true) :
    kind.refuses max loaded n = true ↔ max < loaded + n := by
  cases kind with
  | budget =>
      rw [Kind.refuses, wrap_eq ⟨by omega, by omega⟩, decide_eq_true_iff]
      omega
  | concurrency =>
      have one : n = 1 := of_decide_eq_true amount
      rw [Kind.refuses, decide_eq_true_iff]
      omega

theorem Pc.Fits.pending_nonneg {pc : Pc} (fits : pc.Fits kind max) : 0 ≤ pc.pending := by
  cases pc with
  | release n => exact fits
  | _ => exact Int.le_refl 0

theorem Pc.pending_free {pc : Pc} (free : pc.free = true) : pc.pending = 0 := by
  cases pc with
  | idle | returned => rfl
  | _ => cases free

end Amounts

section Sums

variable {T : Type} [Fintype T] {kind : Kind} {max : Int} {w : World T}

theorem World.Fair.pending_le (fair : w.Fair kind max) (t : T) :
    (w.pc t).pending ≤ tally Finset.univ w.pc Pc.pending :=
  Finset.single_le_sum (f := fun t => (w.pc t).pending)
    (fun t _ => (fair.fits t).pending_nonneg) (Finset.mem_univ t)

/-- A release never takes more than there is. -/
theorem World.Fair.release_le (fair : w.Fair kind max) {t : T} {n : Int}
    (here : w.pc t = .release n) : n ≤ w.used := by
  have pending := fair.pending_le t
  have held : 0 ≤ tally Finset.univ w.held id :=
    Finset.sum_nonneg fun t _ => fair.holds t
  have total := fair.total
  rw [here] at pending
  have same : (Pc.release n).pending = n := rfl
  omega

theorem World.Fair.exact (within : max < 2 ^ 63) (fair : w.Fair kind max) (t : T) :
    (w.pc t).Exact max w.used := by
  have lower := fair.lower
  have upper := fair.upper
  have fits := fair.fits t
  cases here : w.pc t with
  | load n => exact ⟨by omega, by omega⟩
  | cas n loaded =>
      rw [here] at fits
      obtain ⟨_, nonneg, low, room⟩ := fits
      exact ⟨by omega, by omega⟩
  | release n =>
      rw [here] at fits
      have least : 0 ≤ n := fits
      have most := fair.release_le here
      exact ⟨⟨by omega, by omega⟩, by omega, by omega⟩
  | undo n =>
      rw [here] at fits
      exact fits.elim
  | _ => trivial

/-- The addition of a `Release` is exact. -/
theorem World.Fair.subtraction (within : max < 2 ^ 63) (fair : w.Fair kind max) {t : T}
    {n : Int}
    (here : w.pc t = .release n) : wrap (w.used + wrap (-n)) = w.used - n := by
  have exact := fair.exact within t
  rw [here] at exact
  rw [wrap_eq exact.1, ← sub_eq_add_neg, wrap_eq exact.2]

end Sums

section Runs

variable {T : Type} [Fintype T] {kind : Kind} {max : Int} {w next : World T}

theorem World.Fair.start (positive : 0 ≤ max) : (World.start : World T).Fair kind max where
  lower := Int.le_refl 0
  upper := positive
  holds _ := Int.le_refl 0
  total := by simp [World.start, tally, Pc.pending]
  fits _ := trivial

variable [DecidableEq T] {t : T} {act : Act T}

/-- One thread's holding and one thread's point change, and the word by as much. -/
theorem World.Fair.change (fair : w.Fair kind max) {holder : T} {used value outstanding : Int}
    {pc : Pc}
    (sum : used = w.used + (value - w.held holder) + (pc.pending - (w.pc t).pending))
    (lower : 0 ≤ used) (upper : used ≤ max) (holds : 0 ≤ value) (fits : pc.Fits kind max) :
    World.Fair kind max {
      used
      held := Function.update w.held holder value
      outstanding
      pc := Function.update w.pc t pc } := by
  refine ⟨lower, upper, fun other => ?_, ?_, fun other => ?_⟩
  · simp only [Function.update_apply]
    split_ifs with same
    · subst same
      exact holds
    · exact fair.holds other
  · have total := fair.total
    simp only [tally_change id value (Finset.mem_univ holder),
      tally_change Pc.pending pc (Finset.mem_univ t), id]
    omega
  · simp only [Function.update_apply]
    split_ifs with same
    · subst same
      exact fits
    · exact fair.fits other

theorem World.Fair.apply (fair : w.Fair kind max) {used outstanding : Int} {pc : Pc}
    (sum : used = w.used + (pc.pending - (w.pc t).pending)) (lower : 0 ≤ used)
    (upper : used ≤ max) (fits : pc.Fits kind max) :
    World.Fair kind max {
      used
      held := w.held
      outstanding
      pc := Function.update w.pc t pc } := by
  have changed : World.Fair kind max {
      used
      held := Function.update w.held t (w.held t)
      outstanding
      pc := Function.update w.pc t pc } :=
    fair.change (by omega) lower upper (fair.holds t) fits
  rwa [Function.update_eq_self] at changed

theorem World.Fair.move (fair : w.Fair kind max) {pc pc' : Pc} (here : w.pc t = pc)
    (pending : pc'.pending = pc.pending) (fits : pc'.Fits kind max) :
    (w.setPc t pc').Fair kind max :=
  fair.apply (by rw [here]; omega) fair.lower fair.upper fits

theorem World.Fair.moves (within : max < 2 ^ 63) (fair : w.Fair kind max)
    (allowed : matched w (t, act) = true) (moved : Moves kind max w t act next) :
    next.Fair kind max := by
  have fits := fair.fits t
  have lower := fair.lower
  have upper := fair.upper
  cases moved with
  | take n free amount => exact fair.move rfl (Pc.pending_free free).symm amount
  | give holder n free amount nonneg held =>
      refine fair.change ?_ lower upper (by omega) nonneg
      rw [Pc.pending_free free]
      show w.used = w.used + (w.held holder - n - w.held holder) + (n - 0)
      omega
  | misuse n free amount => cases allowed
  | negative n here below => exact fair.move here rfl trivial
  | enter n here nonneg =>
      rw [here] at fits
      exact fair.move here rfl ⟨fits, nonneg⟩
  | refused n here refuses => exact fair.move here rfl trivial
  | load n here accepts =>
      rw [here] at fits
      have room : ¬max < w.used + n := by
        rw [← Kind.refuses_iff within lower upper fits.1, accepts]
        simp
      exact fair.move here rfl ⟨fits.1, fits.2, lower, by omega⟩
  | swapped n here =>
      rw [here] at fits
      obtain ⟨_, nonneg, _, room⟩ := fits
      have holds := fair.holds t
      have sum : wrap (w.used + n) = w.used + n := wrap_eq ⟨by omega, by omega⟩
      have least : 0 ≤ wrap (w.used + n) := by omega
      have most : wrap (w.used + n) ≤ max := by omega
      refine fair.change ?_ least most (by omega) trivial
      rw [here, sum]
      show w.used + n = w.used + (w.held t + n - w.held t) + (0 - 0)
      omega
  | retry n loaded here other =>
      rw [here] at fits
      exact fair.move here rfl ⟨fits.1, fits.2.1⟩
  | negativeRelease n here below =>
      rw [here] at fits
      have nonneg : 0 ≤ n := fits
      omega
  | released n here nonneg least =>
      have value := fair.subtraction within here
      have most : wrap (w.used + wrap (-n)) ≤ max := by omega
      refine fair.apply ?_ least most trivial
      rw [here, value]
      show w.used - n = w.used + (0 - n)
      omega
  | below n here nonneg less =>
      have value := fair.subtraction within here
      have most := fair.release_le here
      omega
  | undo n here =>
      rw [here] at fits
      exact fits.elim

theorem fair_of_reached (within : max < 2 ^ 63) (positive : 0 < max)
    (reached : ((system T kind max).restrict matched).Reachable w) : w.Fair kind max := by
  refine reached.invariant (World.Fair kind max) ?_ ?_
  · rintro w rfl
    exact .start (Int.le_of_lt positive)
  · rintro w ⟨t, act⟩ next _ fair stepped
    obtain ⟨allowed, taken⟩ := System.restrict_step.mp stepped
    exact fair.moves within allowed (World.step_moves taken)

end Runs

/-- What holds in a state, and of every step from it. -/
structure Bounded {T : Type} [Fintype T] [DecidableEq T] (kind : Kind) (max : Int)
    (w : World T) : Prop where
  lower : 0 ≤ w.used
  upper : w.used ≤ max
  /-- The word is what is held and what releases have yet to give back. -/
  total : w.used = ∑ t, w.held t + ∑ t, (w.pc t).pending
  /-- No expression that the next step of a thread evaluates overflows. -/
  exact : ∀ t, (w.pc t).Exact max w.used
  /-- A call that returns true had room for a non-negative amount, and took it. -/
  took : ∀ t next, w.step kind max (t, .next) = some next →
    next.pc t = .returned (.took true) → ∃ n, w.pc t = .cas n w.used ∧ 0 ≤ n ∧
      w.used + n ≤ max ∧ next.used = w.used + n
  /-- A call that returns false has found too little room at its last load. -/
  refused : ∀ t next, w.step kind max (t, .next) = some next →
    next.pc t = .returned (.took false) →
    (∃ n, w.pc t = .enter n ∧ n < 0) ∨ ∃ n, w.pc t = .load n ∧ max < w.used + n
  /-- No step of a call changes anything but the one that makes it return true. -/
  unchanged : ∀ t next, (w.pc t).Tries → w.step kind max (t, .next) = some next →
    next.pc t = .returned (.took true) ∨ next.used = w.used ∧ next.held = w.held

section Contract

variable {T : Type} [DecidableEq T] {kind : Kind} {max : Int} {w next : World T} {t : T}

theorem Moves.unchanged (tries : (w.pc t).Tries) (moved : Moves kind max w t .next next) :
    next.pc t = .returned (.took true) ∨ next.used = w.used ∧ next.held = w.held := by
  cases moved with
  | swapped n here => exact .inl (by simp only [World.setPc, Function.update_self])
  | negative | enter | refused | load | retry => exact .inr ⟨rfl, rfl⟩
  | negativeRelease n here | released n here | below n here | undo n here =>
      rw [here] at tries
      exact tries.elim

variable [Fintype T]

theorem World.Fair.took (within : max < 2 ^ 63) (fair : w.Fair kind max)
    (moved : Moves kind max w t .next next) (returned : next.pc t = .returned (.took true)) :
    ∃ n, w.pc t = .cas n w.used ∧ 0 ≤ n ∧ w.used + n ≤ max ∧ next.used = w.used + n := by
  cases moved with
  | swapped n here =>
      have fits := fair.fits t
      have lower := fair.lower
      rw [here] at fits
      obtain ⟨_, nonneg, _, room⟩ := fits
      exact ⟨n, here, nonneg, room, wrap_eq ⟨by omega, by omega⟩⟩
  | below n here nonneg less =>
      simp only [World.setPc, Function.update_self] at returned
      split at returned <;> cases returned
  | _ =>
      simp only [World.setPc, Function.update_self] at returned
      cases returned

theorem World.Fair.refused (within : max < 2 ^ 63) (fair : w.Fair kind max)
    (moved : Moves kind max w t .next next) (returned : next.pc t = .returned (.took false)) :
    (∃ n, w.pc t = .enter n ∧ n < 0) ∨ ∃ n, w.pc t = .load n ∧ max < w.used + n := by
  cases moved with
  | negative n here below => exact .inl ⟨n, here, below⟩
  | refused n here refuses =>
      have fits := fair.fits t
      rw [here] at fits
      exact .inr ⟨n, here, (Kind.refuses_iff within fair.lower fair.upper fits.1).mp refuses⟩
  | below n here nonneg less =>
      simp only [World.setPc, Function.update_self] at returned
      split at returned <;> cases returned
  | _ =>
      simp only [World.setPc, Function.update_self] at returned
      cases returned

/-- Neither limiter exceeds its maximum, up to the largest `int64`, in any interleaving of
its threads' atomic operations. -/
theorem limiter_never_exceeds (kind : Kind) (positive : 0 < max) (within : max ≤ 2 ^ 63 - 1)
    (reached : ((system T kind max).restrict matched).Reachable w) : Bounded kind max w := by
  have small : max < 2 ^ 63 := Int.lt_of_le_sub_one within
  have fair := fair_of_reached small positive reached
  exact {
    lower := fair.lower
    upper := fair.upper
    total := fair.total
    exact := fair.exact small
    took := fun t next stepped => fair.took small (World.step_moves stepped)
    refused := fun t next stepped => fair.refused small (World.step_moves stepped)
    unchanged := fun t next tries stepped =>
      (World.step_moves stepped).unchanged tries }

end Contract

/-- A second thread finds all but two units taken when the first is about to return some,
retries after a lost compare-and-swap and takes what fits. -/
def contended : List (Bool × Act Bool) :=
  [(false, .take (2 ^ 63 - 3)), (false, .next), (false, .next), (true, .take 2),
    (true, .next), (true, .next), (false, .next), (false, .give false 5), (true, .next),
    (true, .next), (true, .next)]

theorem limiter_never_exceeds_contended :
    ∃ w, ((system Bool .budget (2 ^ 63 - 1)).restrict matched).exec .start contended = some w ∧
      w.used = 2 ^ 63 - 1 ∧ w.pc false = .release 5 ∧ Bounded .budget (2 ^ 63 - 1) w := by
  have checked : (((system Bool .budget (2 ^ 63 - 1)).restrict matched).exec .start
      contended).any (fun w => decide (w.used = 2 ^ 63 - 1 ∧ w.pc false = .release 5)) =
      true := by
    decide +kernel
  obtain ⟨w, executed, facts⟩ := System.exec_of_check _ checked
  obtain ⟨full, releasing⟩ := of_decide_eq_true facts
  exact ⟨w, executed, full, releasing, limiter_never_exceeds .budget (by decide) (by decide)
    (.exec (.initial rfl) executed)⟩

end Netx.Limit.Atomic
