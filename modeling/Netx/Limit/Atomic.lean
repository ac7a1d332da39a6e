import Netx.Transition.System
import Mathlib.Algebra.Order.Ring.Int

/-!
# The limiters at the granularity of their atomic operations

`Budget` and `Concurrency` are one atomic word each. Threads take from it in a loop of
loads and compare-and-swaps and give back with one atomic addition, which a
`Concurrency` takes back again when it went below zero.
-/

set_option autoImplicit false

namespace Netx.Limit.Atomic

/-- A value as an `int64`. -/
def wrap (x : Int) : Int :=
  x.bmod (2 ^ 64)

def InRange (x : Int) : Prop :=
  -2 ^ 63 ≤ x ∧ x < 2 ^ 63

instance (x : Int) : Decidable (InRange x) :=
  inferInstanceAs (Decidable (_ ∧ _))

inductive Kind where
  | budget
  | concurrency
  deriving DecidableEq, Repr

/-- The amounts its calls pass: any `int64`, and one permit. -/
def Kind.amount : Kind → Int → Bool
  | .budget, n => decide (InRange n)
  | .concurrency, n => decide (n = 1)

/-- The test on the loaded value: `n > b.max-used`, and `n >= c.max`. -/
def Kind.refuses : Kind → (max loaded n : Int) → Bool
  | .budget, max, loaded, n => decide (n > wrap (max - loaded))
  | .concurrency, max, loaded, _ => decide (loaded ≥ max)

/-- Whether `Release` undoes a subtraction that went below zero before it panics. -/
def Kind.undoes : Kind → Bool
  | .budget => false
  | .concurrency => true

inductive Reply where
  | took (ok : Bool)
  | released
  | panicked
  deriving DecidableEq, Repr

/-- The points of a thread: `Reserve` or `TryAcquire` before its first test, before a
load and before a compare-and-swap, and `Release` before each of its additions. -/
inductive Pc where
  | idle
  | enter (n : Int)
  | load (n : Int)
  | cas (n loaded : Int)
  | release (n : Int)
  | undo (n : Int)
  | returned (reply : Reply)
  deriving DecidableEq, Repr

/-- The atomic word, what each thread holds, and what calls have taken that no
`Release` which returned normally has given back. -/
structure World (T : Type) where
  used : Int
  held : T → Int
  outstanding : Int
  pc : T → Pc

/-- A thread calls: to take `n`, to give back `n` of what a thread holds, or to give
back `n` all the same. Or it takes its next step. -/
inductive Act (T : Type) where
  | take (n : Int)
  | give (holder : T) (n : Int)
  | misuse (n : Int)
  | next

/-- The point is between two calls. -/
def Pc.free : Pc → Bool
  | .idle | .returned _ => true
  | _ => false

section Steps

variable {T : Type} [DecidableEq T]

def World.setPc (w : World T) (t : T) (pc : Pc) : World T :=
  { w with pc := Function.update w.pc t pc }

/-- The addition of `Release`. -/
def World.subtract (kind : Kind) (w : World T) (t : T) (n : Int) : World T :=
  let used := wrap (w.used + wrap (-n))
  if used < 0 then
    { w with used }.setPc t (if kind.undoes then .undo n else .returned .panicked)
  else { w with used, outstanding := w.outstanding - n }.setPc t (.returned .released)

def World.next (kind : Kind) (max : Int) (w : World T) (t : T) : Option (World T) :=
  match w.pc t with
  | .enter n => some (w.setPc t (if n < 0 then .returned (.took false) else .load n))
  | .load n =>
      some (w.setPc t
        (if kind.refuses max w.used n then .returned (.took false) else .cas n w.used))
  | .cas n loaded =>
      if w.used = loaded then
        some ({ w with
          used := wrap (loaded + n)
          held := Function.update w.held t (w.held t + n)
          outstanding := w.outstanding + n }.setPc t (.returned (.took true)))
      else some (w.setPc t (.load n))
  | .release n =>
      if n < 0 then some (w.setPc t (.returned .panicked))
      else some (w.subtract kind t n)
  | .undo n => some ({ w with used := wrap (w.used + n) }.setPc t (.returned .panicked))
  | .idle | .returned _ => none

def World.step (kind : Kind) (max : Int) (w : World T) : T × Act T → Option (World T)
  | (t, .take n) =>
      if (w.pc t).free ∧ kind.amount n then some (w.setPc t (.enter n)) else none
  | (t, .give holder n) =>
      if (w.pc t).free ∧ kind.amount n ∧ 0 ≤ n ∧ n ≤ w.held holder then
        some ({ w with held := Function.update w.held holder (w.held holder - n) }.setPc t
          (.release n))
      else none
  | (t, .misuse n) =>
      if (w.pc t).free ∧ kind.amount n then some (w.setPc t (.release n)) else none
  | (t, .next) => w.next kind max t

def World.start : World T where
  used := 0
  held := fun _ => 0
  outstanding := 0
  pc := fun _ => .idle

/-- Threads at one limiter, matched and unmatched releases included. -/
def system (T : Type) [DecidableEq T] (kind : Kind) (max : Int) :
    Transition.System (World T) (T × Act T) where
  initial w := w = .start
  step := World.step kind max

/-- What a thread can do at each of its points. -/
inductive Moves (kind : Kind) (max : Int) (w : World T) (t : T) :
    Act T → World T → Prop where
  | take (n : Int) : (w.pc t).free = true → kind.amount n = true →
      Moves kind max w t (.take n) (w.setPc t (.enter n))
  | give (holder : T) (n : Int) : (w.pc t).free = true → kind.amount n = true → 0 ≤ n →
      n ≤ w.held holder → Moves kind max w t (.give holder n)
        ({ w with held := Function.update w.held holder (w.held holder - n) }.setPc t
          (.release n))
  | misuse (n : Int) : (w.pc t).free = true → kind.amount n = true →
      Moves kind max w t (.misuse n) (w.setPc t (.release n))
  | negative (n : Int) : w.pc t = .enter n → n < 0 →
      Moves kind max w t .next (w.setPc t (.returned (.took false)))
  | enter (n : Int) : w.pc t = .enter n → 0 ≤ n →
      Moves kind max w t .next (w.setPc t (.load n))
  | refused (n : Int) : w.pc t = .load n → kind.refuses max w.used n = true →
      Moves kind max w t .next (w.setPc t (.returned (.took false)))
  | load (n : Int) : w.pc t = .load n → kind.refuses max w.used n = false →
      Moves kind max w t .next (w.setPc t (.cas n w.used))
  | swapped (n : Int) : w.pc t = .cas n w.used →
      Moves kind max w t .next ({ w with
        used := wrap (w.used + n)
        held := Function.update w.held t (w.held t + n)
        outstanding := w.outstanding + n }.setPc t (.returned (.took true)))
  | retry (n loaded : Int) : w.pc t = .cas n loaded → w.used ≠ loaded →
      Moves kind max w t .next (w.setPc t (.load n))
  | negativeRelease (n : Int) : w.pc t = .release n → n < 0 →
      Moves kind max w t .next (w.setPc t (.returned .panicked))
  | released (n : Int) : w.pc t = .release n → 0 ≤ n → 0 ≤ wrap (w.used + wrap (-n)) →
      Moves kind max w t .next ({ w with
        used := wrap (w.used + wrap (-n))
        outstanding := w.outstanding - n }.setPc t (.returned .released))
  | below (n : Int) : w.pc t = .release n → 0 ≤ n → wrap (w.used + wrap (-n)) < 0 →
      Moves kind max w t .next ({ w with used := wrap (w.used + wrap (-n)) }.setPc t
        (if kind.undoes then .undo n else .returned .panicked))
  | undo (n : Int) : w.pc t = .undo n → Moves kind max w t .next
      ({ w with used := wrap (w.used + n) }.setPc t (.returned .panicked))

theorem World.next_moves {kind : Kind} {max : Int} {w next : World T} {t : T}
    (found : w.next kind max t = some next) : Moves kind max w t .next next := by
  cases here : w.pc t with
  | idle | returned =>
      simp only [World.next, here] at found
      cases found
  | enter n =>
      simp only [World.next, here, Option.some.injEq] at found
      subst found
      split
      · exact .negative n here ‹_›
      · exact .enter n here (Int.not_lt.mp ‹_›)
  | load n =>
      simp only [World.next, here, Option.some.injEq] at found
      subst found
      split
      · exact .refused n here ‹_›
      · exact .load n here (eq_false_of_ne_true ‹_›)
  | cas n loaded =>
      simp only [World.next, here] at found
      split at found
      · rename_i same
        subst same
        cases found
        exact .swapped n here
      · cases found
        exact .retry n loaded here ‹_›
  | release n =>
      simp only [World.next, here] at found
      split at found
      · cases found
        exact .negativeRelease n here ‹_›
      · rename_i nonneg
        cases found
        simp only [World.subtract]
        split
        · exact .below n here (Int.not_lt.mp nonneg) ‹_›
        · exact .released n here (Int.not_lt.mp nonneg) (Int.not_lt.mp ‹_›)
  | undo n =>
      simp only [World.next, here] at found
      cases found
      exact .undo n here

theorem World.step_moves {kind : Kind} {max : Int} {w next : World T} {t : T} {act : Act T}
    (stepped : w.step kind max (t, act) = some next) : Moves kind max w t act next := by
  cases act with
  | take n =>
      obtain ⟨⟨free, amount⟩, same⟩ := Option.ite_none_right_eq_some.mp stepped
      cases same
      exact .take n free amount
  | give holder n =>
      obtain ⟨⟨free, amount, nonneg, held⟩, same⟩ := Option.ite_none_right_eq_some.mp stepped
      cases same
      exact .give holder n free amount nonneg held
  | misuse n =>
      obtain ⟨⟨free, amount⟩, same⟩ := Option.ite_none_right_eq_some.mp stepped
      cases same
      exact .misuse n free amount
  | next => exact World.next_moves stepped

end Steps

end Netx.Limit.Atomic
