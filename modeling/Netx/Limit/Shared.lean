import Netx.Limit.Concurrency
import Netx.Limit.Limiter
import Netx.Transition.System
import Mathlib.Logic.Function.Basic

/-!
# Threads at shared limiters

Any number of threads call `TryAcquire` and `Release` of trees built with `All`, whose
`Concurrency` leaves they share. A step is one atomic operation on a leaf, or a call or a
return between the methods of one thread, so that other threads come in between the
members of an `All`.
-/

set_option autoImplicit false

namespace Netx.Limit.Shared

/-- The loop of an `all.TryAcquire` that has called a member: the members it has acquired
before, the latest first, and those behind. -/
structure Loop (L : Type) where
  acquired : List (Limiter L)
  rest : List (Limiter L)

/-- The receiver of the loop that has called the member `l`. -/
def Loop.receiver {L : Type} (loop : Loop L) (l : Limiter L) : Limiter L :=
  .all (loop.acquired.reverse ++ l :: loop.rest)

inductive Reply where
  | took (ok : Bool)
  | released
  | panicked
  deriving DecidableEq, Repr

/-- The next step of a thread: a `TryAcquire` with the loops around it, the innermost
first, is entered, loads, swaps, or has its answer. A `Release` has a list of limiters
left, and so has the loop that undoes a partial success before its receiver refuses. A
`Release` below zero has a permit to restore. -/
inductive Pc (L : Type) where
  | idle
  | enter (l : Limiter L) (loops : List (Loop L))
  | load (c : L) (loops : List (Loop L))
  | cas (c : L) (loaded : Int) (loops : List (Loop L))
  | acquired (l : Limiter L) (loops : List (Loop L))
  | refused (l : Limiter L) (loops : List (Loop L))
  | release (work : List (Limiter L)) (undoing : Option (Limiter L × List (Loop L)))
  | restore (c : L)
  | returned (reply : Reply)

def Pc.free {L : Type} : Pc L → Bool
  | .idle | .returned _ => true
  | _ => false

/-- The steps of a thread that touch nothing it shares. -/
def Pc.advance {L : Type} : Pc L → Option (Pc L)
  | .enter (.leaf c) loops => some (.load c loops)
  | .enter (.all []) loops => some (.acquired (.all []) loops)
  | .enter (.all (l :: rest)) loops => some (.enter l (⟨[], rest⟩ :: loops))
  | .acquired l (⟨before, next :: rest⟩ :: loops) =>
      some (.enter next (⟨l :: before, rest⟩ :: loops))
  | .acquired l (⟨before, []⟩ :: loops) =>
      some (.acquired (Loop.receiver ⟨before, []⟩ l) loops)
  | .refused _ [] => some (.returned (.took false))
  | .refused l (loop :: loops) => some (.release loop.acquired (some (loop.receiver l, loops)))
  | .release [] none => some (.returned .released)
  | .release [] (some (l, loops)) => some (.refused l loops)
  | .release (.all members :: work) undoing => some (.release (members ++ work) undoing)
  | _ => none

/-- The leaves, the limiters that each thread has acquired and not given back, and the
threads. -/
structure World (T L : Type) where
  leaf : L → Concurrency
  held : T → List (Limiter L)
  pc : T → Pc L

/-- A thread calls `TryAcquire` of a limiter, or `Release` of the limiter at a place in what
a thread holds, or takes its next step. -/
inductive Act (T L : Type) where
  | call (l : Limiter L)
  | give (holder : T) (place : Nat)
  | next

section Updates

variable {T L : Type}

def World.setPc [DecidableEq T] (w : World T L) (t : T) (pc : Pc L) : World T L :=
  { w with pc := Function.update w.pc t pc }

def World.setHeld [DecidableEq T] (w : World T L) (holder : T) (held : List (Limiter L)) :
    World T L :=
  { w with held := Function.update w.held holder held }

def World.setLeaf [DecidableEq L] (w : World T L) (c : L) (leaf : Concurrency) : World T L :=
  { w with leaf := Function.update w.leaf c leaf }

theorem World.setPc_self [DecidableEq T] (w : World T L) (t : T) (pc : Pc L) :
    (w.setPc t pc).pc t = pc := by
  simp only [World.setPc, Function.update_self]

theorem World.setLeaf_self [DecidableEq L] (w : World T L) (c : L) (leaf : Concurrency) :
    (w.setLeaf c leaf).leaf c = leaf := by
  simp only [World.setLeaf, Function.update_self]

theorem World.setLeaf_of_ne [DecidableEq L] (w : World T L) {c d : L} (leaf : Concurrency)
    (other : d ≠ c) : (w.setLeaf c leaf).leaf d = w.leaf d := by
  simp only [World.setLeaf, Function.update_of_ne other]

end Updates

section Steps

variable {T L : Type} [DecidableEq T] [DecidableEq L]

def World.next (w : World T L) (t : T) : Option (World T L) :=
  match w.pc t with
  | .load c loops =>
      if (w.leaf c).full (w.leaf c).inUse then some (w.setPc t (.refused (.leaf c) loops))
      else some (w.setPc t (.cas c (w.leaf c).inUse loops))
  | .cas c loaded loops =>
      match (w.leaf c).compareAndSwap loaded with
      | (true, leaf) => some ((w.setLeaf c leaf).setPc t (.acquired (.leaf c) loops))
      | (false, _) => some (w.setPc t (.load c loops))
  | .acquired l [] =>
      some ((w.setHeld t (l :: w.held t)).setPc t (.returned (.took true)))
  | .release (.leaf c :: work) undoing =>
      let leaf := { w.leaf c with inUse := (w.leaf c).inUse - 1 }
      some ((w.setLeaf c leaf).setPc t
        (if leaf.inUse < 0 then .restore c else .release work undoing))
  | .restore c =>
      some ((w.setLeaf c { w.leaf c with inUse := (w.leaf c).inUse + 1 }).setPc t
        (.returned .panicked))
  | pc => pc.advance.map (w.setPc t)

def World.step (w : World T L) : T × Act T L → Option (World T L)
  | (t, .call l) => if (w.pc t).free then some (w.setPc t (.enter l [])) else none
  | (t, .give holder place) =>
      match (w.held holder)[place]? with
      | none => none
      | some l =>
          if (w.pc t).free then
            some ((w.setHeld holder ((w.held holder).eraseIdx place)).setPc t
              (.release [l] none))
          else none
  | (t, .next) => w.next t

def World.start (max : L → Int) : World T L where
  leaf c := ⟨max c, 0⟩
  held _ := []
  pc _ := .idle

def system (T L : Type) [DecidableEq T] [DecidableEq L] :
    Transition.System (World T L) (T × Act T L) where
  initial w := ∃ max : L → Int,
    (∀ c, Concurrency.newConcurrency (max c) = some ⟨max c, 0⟩) ∧ w = .start max
  step := World.step

inductive Moves (w : World T L) (t : T) : Act T L → World T L → Prop where
  | call (l : Limiter L) : (w.pc t).free = true → Moves w t (.call l) (w.setPc t (.enter l []))
  | give (holder : T) (place : Nat) (l : Limiter L) : (w.pc t).free = true →
      (w.held holder)[place]? = some l → Moves w t (.give holder place)
        ((w.setHeld holder ((w.held holder).eraseIdx place)).setPc t (.release [l] none))
  | advance (pc pc' : Pc L) : w.pc t = pc → pc.advance = some pc' →
      Moves w t .next (w.setPc t pc')
  | full (c : L) (loops : List (Loop L)) : w.pc t = .load c loops →
      (w.leaf c).max ≤ (w.leaf c).inUse → Moves w t .next (w.setPc t (.refused (.leaf c) loops))
  | load (c : L) (loops : List (Loop L)) : w.pc t = .load c loops →
      (w.leaf c).inUse < (w.leaf c).max →
      Moves w t .next (w.setPc t (.cas c (w.leaf c).inUse loops))
  | swapped (c : L) (loops : List (Loop L)) : w.pc t = .cas c (w.leaf c).inUse loops →
      Moves w t .next ((w.setLeaf c { w.leaf c with inUse := (w.leaf c).inUse + 1 }).setPc t
        (.acquired (.leaf c) loops))
  | retry (c : L) (loaded : Int) (loops : List (Loop L)) : w.pc t = .cas c loaded loops →
      (w.leaf c).inUse ≠ loaded → Moves w t .next (w.setPc t (.load c loops))
  | took (l : Limiter L) : w.pc t = .acquired l [] →
      Moves w t .next ((w.setHeld t (l :: w.held t)).setPc t (.returned (.took true)))
  | released (c : L) (work : List (Limiter L)) (undoing : Option (Limiter L × List (Loop L))) :
      w.pc t = .release (.leaf c :: work) undoing → 0 ≤ (w.leaf c).inUse - 1 →
      Moves w t .next ((w.setLeaf c { w.leaf c with inUse := (w.leaf c).inUse - 1 }).setPc t
        (.release work undoing))
  | below (c : L) (work : List (Limiter L)) (undoing : Option (Limiter L × List (Loop L))) :
      w.pc t = .release (.leaf c :: work) undoing → (w.leaf c).inUse - 1 < 0 →
      Moves w t .next ((w.setLeaf c { w.leaf c with inUse := (w.leaf c).inUse - 1 }).setPc t
        (.restore c))
  | restore (c : L) : w.pc t = .restore c →
      Moves w t .next ((w.setLeaf c { w.leaf c with inUse := (w.leaf c).inUse + 1 }).setPc t
        (.returned .panicked))

theorem World.next_moves {w next : World T L} {t : T} (found : w.next t = some next) :
    Moves w t .next next := by
  unfold World.next at found
  split at found
  · rename_i c loops here
    rw [Concurrency.full] at found
    split at found <;> cases found
    · exact .full c loops here (of_decide_eq_true ‹_›)
    · refine .load c loops here (Int.not_le.mp fun most => ?_)
      exact ‹¬_› (decide_eq_true most)
  · rename_i c loaded loops here
    rw [Concurrency.compareAndSwap] at found
    by_cases same : (w.leaf c).inUse = loaded
    · subst same
      rw [if_pos rfl] at found
      cases found
      exact .swapped c loops here
    · rw [if_neg same] at found
      cases found
      exact .retry c loaded loops here same
  · rename_i l here
    cases found
    exact .took l here
  · rename_i c work undoing here
    cases found
    dsimp only
    split
    · exact .below c work undoing here ‹_›
    · exact .released c work undoing here (Int.not_lt.mp ‹_›)
  · rename_i c here
    cases found
    exact .restore c here
  · obtain ⟨pc', advanced, rfl⟩ := Option.map_eq_some_iff.mp found
    exact .advance _ pc' rfl advanced

theorem World.step_moves {w next : World T L} {t : T} {act : Act T L}
    (stepped : w.step (t, act) = some next) : Moves w t act next := by
  cases act with
  | call l =>
      obtain ⟨free, same⟩ := Option.ite_none_right_eq_some.mp stepped
      cases same
      exact .call l free
  | give holder place =>
      simp only [World.step] at stepped
      split at stepped
      · cases stepped
      · obtain ⟨free, same⟩ := Option.ite_none_right_eq_some.mp stepped
        cases same
        exact .give holder place _ free ‹_›
  | next => exact World.next_moves stepped

end Steps

end Netx.Limit.Shared
