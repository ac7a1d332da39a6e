import Netx.Limit.Reservations

/-!
# Releasing more than was acquired

A `Release` without a permit makes the word of a `Concurrency` one too small until it
has undone its subtraction. A `TryAcquire` in between may take a permit there is not.
-/

set_option autoImplicit false

namespace Netx.Limit.Atomic

open Transition

/-- An unmatched release is made only when nothing is held. -/
def overReleases {T : Type} [Fintype T] (w : World T) : T × Act T → Bool
  | (_, .misuse _) => decide (∀ t, w.held t = 0)
  | _ => true

/-- What a release has subtracted and is about to add again. -/
def Pc.undoing : Pc → Int
  | .undo n => n
  | _ => 0

/-- Neither `InUse` nor the permits that are out exceed the maximum. -/
def World.Limited {T : Type} (max : Int) (w : World T) : Prop :=
  w.used ≤ max ∧ w.outstanding ≤ max

/-- A compare-and-swap is about to succeed where `InUse` and the subtractions still to be
undone already make up the maximum. -/
def Overtakes {T : Type} [Fintype T] (max : Int) (w : World T) (action : T × Act T) : Prop :=
  ∃ t n, action = (t, .next) ∧ w.pc t = .cas n w.used ∧
    max ≤ w.used + tally Finset.univ w.pc Pc.undoing

/-- The permits of a thread come one by one, and it has seen one free. -/
def Pc.Single (max : Int) : Pc → Prop
  | .enter n | .load n | .release n | .undo n => n = 1
  | .cas n loaded => n = 1 ∧ loaded < max
  | _ => True

/-- The word lacks what releases have yet to undo. -/
structure World.Lacks {T : Type} [Fintype T] (w : World T) : Prop where
  sum : w.used + tally Finset.univ w.pc Pc.undoing = w.outstanding
  nonneg : 0 ≤ w.outstanding

private theorem subtraction_one {used : Int} (range : InRange (used - 1)) :
    wrap (used + wrap (-1)) = used - 1 := by
  have one : wrap (-1) = -1 := by decide
  rw [one, ← sub_eq_add_neg, wrap_eq range]

section Sums

variable {T : Type} [Fintype T] {max : Int} {w : World T}

private theorem undoing_nonneg {pc : Pc} (single : pc.Single max) : 0 ≤ pc.undoing := by
  cases pc with
  | undo n =>
      rw [show n = 1 from single]
      decide
  | _ => exact Int.le_refl 0

private theorem undoing_le {pc : Pc} (single : pc.Single max) : pc.undoing ≤ 1 := by
  cases pc with
  | undo n => exact Int.le_of_eq single
  | _ => exact Int.le_of_lt Int.zero_lt_one

private theorem undoing_sum_le (single : ∀ t, (w.pc t).Single max) :
    tally Finset.univ w.pc Pc.undoing ≤ Fintype.card T := by
  have bound := Finset.sum_le_card_nsmul Finset.univ (fun t => (w.pc t).undoing) 1
    fun t _ => undoing_le (single t)
  simpa [tally] using bound

private theorem undoing_le_sum (single : ∀ t, (w.pc t).Single max) (t : T) :
    (w.pc t).undoing ≤ tally Finset.univ w.pc Pc.undoing :=
  Finset.single_le_sum (f := fun t => (w.pc t).undoing)
    (fun t _ => undoing_nonneg (single t)) (Finset.mem_univ t)

private theorem not_overtakes {t : T} {act : Act T}
    (calm : act = .next → ∀ n, w.pc t ≠ .cas n w.used) :
    ¬Overtakes max w (t, act) := by
  rintro ⟨_, n, same, here, _⟩
  cases same
  exact calm rfl n here

private theorem undoing_free {pc : Pc} (free : pc.free = true) : pc.undoing = 0 := by
  cases pc with
  | idle | returned => rfl
  | _ => cases free

end Sums

section Steps

variable {T : Type} [DecidableEq T] {max : Int} {w next : World T} {t : T} {act : Act T}

theorem Moves.single (single : ∀ t, (w.pc t).Single max)
    (moved : Moves .concurrency max w t act next) (other : T) :
    (next.pc other).Single max := by
  have here := single t
  have point : ∀ pc : Pc, pc.Single max → (Function.update w.pc t pc other).Single max := by
    intro pc fits
    rw [Function.update_apply]
    split_ifs with same
    · subst same
      exact fits
    · exact single other
  cases moved with
  | take n free amount | give holder n free amount | misuse n free amount =>
      have one : n = 1 := of_decide_eq_true amount
      exact point _ one
  | enter n at_ nonneg =>
      rw [at_] at here
      exact point _ here
  | load n at_ accepts =>
      rw [at_] at here
      exact point _ ⟨here, Int.not_le.mp (of_decide_eq_false accepts)⟩
  | retry n loaded at_ lost =>
      rw [at_] at here
      exact point _ here.1
  | below n at_ nonneg less =>
      rw [at_] at here
      exact point _ here
  | _ => exact point _ trivial

variable [Fintype T]

theorem World.Lacks.change (lacks : w.Lacks) {used outstanding : Int} {held : T → Int} {pc : Pc}
    (sum : used - w.used + (pc.undoing - (w.pc t).undoing) = outstanding - w.outstanding)
    (nonneg : 0 ≤ outstanding) :
    World.Lacks { used, held, outstanding, pc := Function.update w.pc t pc } := by
  refine ⟨?_, nonneg⟩
  have before := lacks.sum
  simp only [tally_change Pc.undoing pc (Finset.mem_univ t)]
  omega

/-- Only the compare-and-swap of a `TryAcquire` can take too much. -/
theorem World.Lacks.moves (few : Fintype.card T < 2 ^ 63) (within : max < 2 ^ 63)
    (single : ∀ t, (w.pc t).Single max) (limited : w.Limited max) (lacks : w.Lacks)
    (moved : Moves .concurrency max w t act next) :
    next.Lacks ∧ (next.Limited max ↔ ¬Overtakes max w (t, act)) := by
  have sum := lacks.sum
  have nonneg := lacks.nonneg
  have most := undoing_sum_le single
  have own := undoing_le_sum single t
  have one := single t
  have inUse := limited.1
  have out := limited.2
  have still : ∀ (pc : Pc) (held : T → Int), pc.undoing = (w.pc t).undoing →
      World.Lacks { w with held, pc := Function.update w.pc t pc } :=
    fun pc held same => lacks.change (by omega) nonneg
  cases moved with
  | take n free amount | give holder n free amount | misuse n free amount =>
      exact ⟨still _ _ (undoing_free free).symm, iff_of_true limited (not_overtakes (by simp))⟩
  | negative n here | enter n here | refused n here | load n here | negativeRelease n here =>
      exact ⟨still _ _ (by rw [here]; rfl), iff_of_true limited (not_overtakes (by simp [here]))⟩
  | retry n loaded here lost =>
      refine ⟨still _ _ (by rw [here]; rfl), iff_of_true limited (not_overtakes ?_)⟩
      intro _ n same
      rw [here] at same
      cases same
      exact lost rfl
  | swapped n here =>
      rw [here] at one own
      obtain ⟨rfl, free⟩ := one
      have value : wrap (w.used + 1) = w.used + 1 := by
        have low : 0 ≤ tally Finset.univ w.pc Pc.undoing := own
        exact wrap_eq ⟨by omega, by omega⟩
      have later : 0 ≤ w.outstanding + 1 := by omega
      refine ⟨lacks.change ?_ later, ?_⟩
      · rw [here]
        show wrap (w.used + 1) - w.used + (0 - 0) = w.outstanding + 1 - w.outstanding
        omega
      · have overtakes : Overtakes max w (t, .next) ↔
            max ≤ w.used + tally Finset.univ w.pc Pc.undoing :=
          ⟨fun ⟨_, _, _, _, full⟩ => full, fun full => ⟨t, 1, rfl, here, full⟩⟩
        rw [overtakes]
        show wrap (w.used + 1) ≤ max ∧ w.outstanding + 1 ≤ max ↔ _
        omega
  | released n here positive least =>
      rw [here] at one own
      obtain rfl : n = 1 := one
      have low : 0 ≤ tally Finset.univ w.pc Pc.undoing := own
      have range : InRange (w.used - 1) := ⟨by omega, by omega⟩
      have value := subtraction_one range
      have later : 0 ≤ w.outstanding - 1 := by omega
      refine ⟨lacks.change ?_ later, iff_of_true ⟨?_, ?_⟩ (not_overtakes (by simp [here]))⟩
      · rw [here]
        show wrap (w.used + wrap (-1)) - w.used + (0 - 0) = w.outstanding - 1 - w.outstanding
        omega
      · show wrap (w.used + wrap (-1)) ≤ max
        omega
      · show w.outstanding - 1 ≤ max
        omega
  | below n here positive less =>
      rw [here] at one own
      obtain rfl : n = 1 := one
      have low : 0 ≤ tally Finset.univ w.pc Pc.undoing := own
      have range : InRange (w.used - 1) := ⟨by omega, by omega⟩
      have value := subtraction_one range
      refine ⟨lacks.change ?_ nonneg, iff_of_true ⟨?_, out⟩ (not_overtakes (by simp [here]))⟩
      · rw [here]
        show wrap (w.used + wrap (-1)) - w.used + (1 - 0) = w.outstanding - w.outstanding
        omega
      · show wrap (w.used + wrap (-1)) ≤ max
        omega
  | undo n here =>
      rw [here] at one own
      obtain rfl : n = 1 := one
      have positive : 1 ≤ tally Finset.univ w.pc Pc.undoing := own
      have value : wrap (w.used + 1) = w.used + 1 := wrap_eq ⟨by omega, by omega⟩
      refine ⟨lacks.change ?_ nonneg, iff_of_true ⟨?_, out⟩ (not_overtakes (by simp [here]))⟩
      · rw [here]
        show wrap (w.used + 1) - w.used + (0 - 1) = w.outstanding - w.outstanding
        omega
      · show wrap (w.used + 1) ≤ max
        omega

end Steps

section Runs

variable {T : Type} [Fintype T] {max : Int}

private theorem lacks_start : (World.start : World T).Lacks :=
  ⟨by simp [World.start, tally, Pc.undoing], Int.le_refl 0⟩

variable [DecidableEq T]

/-- A run with over-releases keeps to the maximum exactly if no `TryAcquire` makes its
compare-and-swap where `InUse` and the subtractions to be undone are the maximum. -/
theorem over_release_limited_iff (few : Fintype.card T < 2 ^ 63) (positive : 0 < max)
    (within : max ≤ 2 ^ 63 - 1) {actions : List (T × Act T)} {final : World T}
    (executed : ((system T .concurrency max).restrict overReleases).exec .start actions =
      some final) :
    (∀ w, ((system T .concurrency max).restrict overReleases).Visits .start actions w →
        w.Limited max) ↔
      ∀ w action, ((system T .concurrency max).restrict overReleases).Takes .start actions
        w action → ¬Overtakes max w action := by
  have small : max < 2 ^ 63 := Int.lt_of_le_sub_one within
  have step : ∀ (w : World T) (action : T × Act T) (next : World T), w.Limited max →
      (∀ t, (w.pc t).Single max) ∧ w.Lacks →
      ((system T .concurrency max).restrict overReleases).step w action = some next →
      ((∀ t, (next.pc t).Single max) ∧ next.Lacks) ∧
        (next.Limited max ↔ ¬Overtakes max w action) := by
    rintro w ⟨t, act⟩ next limited ⟨single, lacks⟩ stepped
    have moved := World.step_moves (System.restrict_step.mp stepped).2
    obtain ⟨later, exactly⟩ := lacks.moves few small single limited moved
    exact ⟨⟨moved.single single, later⟩, exactly⟩
  have fresh : (World.start : World T).Limited max :=
    ⟨Int.le_of_lt positive, Int.le_of_lt positive⟩
  have begins : (∀ t, ((World.start : World T).pc t).Single max) ∧
      (World.start : World T).Lacks := ⟨fun _ => trivial, lacks_start⟩
  have whole := System.visits_iff_takes
    (fun w : World T => w.Limited max ∧ (∀ t, (w.pc t).Single max) ∧ w.Lacks) (Overtakes max)
    (fun w action next _ held stepped => by
      obtain ⟨kept, exactly⟩ := step w action next held.1 held.2 stepped
      exact (and_iff_left kept).trans exactly)
    (.initial rfl) ⟨fresh, begins⟩ executed
  rw [← whole]
  constructor
  · exact System.visits_strengthen _ _
      (fun w action next limited kept stepped => (step w action next limited kept stepped).1)
      begins executed
  · exact fun visits w visit => (visits w visit).1

end Runs

/-- An over-release whose window is not used, then one during which a permit is taken
that there is. -/
def harmless : List (Bool × Act Bool) :=
  [(false, .misuse 1), (false, .next), (false, .next), (false, .misuse 1), (false, .next),
    (true, .take 1), (true, .next), (true, .next), (true, .next), (false, .next)]

theorem over_release_limited_iff_harmless :
    ∃ w, ((system Bool .concurrency 1).restrict overReleases).exec .start harmless = some w ∧
      (w.used = 1 ∧ w.outstanding = 1 ∧ w.pc false = .returned .panicked) ∧
      ((∀ u, ((system Bool .concurrency 1).restrict overReleases).Visits .start harmless u →
          u.Limited 1) ↔
        ∀ u action, ((system Bool .concurrency 1).restrict overReleases).Takes .start
          harmless u action → ¬Overtakes 1 u action) := by
  have checked : (((system Bool .concurrency 1).restrict overReleases).exec .start
      harmless).any (fun w => decide (w.used = 1 ∧ w.outstanding = 1 ∧
        w.pc false = .returned .panicked)) = true := by
    decide +kernel
  obtain ⟨w, executed, facts⟩ := System.exec_of_check _ checked
  exact ⟨w, executed, of_decide_eq_true facts,
    over_release_limited_iff (by decide) (by decide) (by decide) executed⟩

/-- Two threads acquire the one permit while a third has released one too many. -/
def overReleaseRun : List (Fin 3 × Act (Fin 3)) :=
  [(0, .misuse 1), (0, .next), (1, .take 1), (1, .next), (1, .next), (1, .next), (2, .take 1),
    (2, .next), (2, .next), (2, .next), (0, .next)]

/-- An over-release raises the limit: two permits of one are out, and `InUse` says so. -/
theorem over_release_raises_limit :
    ∃ w, ((system (Fin 3) .concurrency 1).restrict overReleases).exec .start overReleaseRun =
        some w ∧
      w.pc 0 = .returned .panicked ∧ w.pc 1 = .returned (.took true) ∧
      w.pc 2 = .returned (.took true) ∧ w.used = 2 ∧ w.outstanding = 2 := by
  have checked : (((system (Fin 3) .concurrency 1).restrict overReleases).exec .start
      overReleaseRun).any (fun w => decide (w.pc 0 = .returned .panicked ∧
        w.pc 1 = .returned (.took true) ∧ w.pc 2 = .returned (.took true) ∧ w.used = 2 ∧
        w.outstanding = 2)) = true := by
    decide +kernel
  obtain ⟨w, executed, facts⟩ := System.exec_of_check _ checked
  exact ⟨w, executed, of_decide_eq_true facts⟩

end Netx.Limit.Atomic
