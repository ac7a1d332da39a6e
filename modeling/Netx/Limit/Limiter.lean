import Mathlib.Data.List.Basic

/-!
# Limiters put together

`All` of `limit.go` over any implementations of the interface `Limiter`. A limiter is
a tree; its leaves act on one state of everything.
-/

set_option autoImplicit false

namespace Netx.Limit

/-- The implementations at the leaves: what `TryAcquire` answers, and whether `Release`
panics. -/
structure Leaves (L World : Type) where
  tryAcquire : L → World → Bool × World
  release : L → World → Bool × World

inductive Limiter (L : Type) where
  | leaf (l : L)
  | all (members : List (Limiter L))

namespace Limiter

variable {L World : Type} (leaves : Leaves L World)

mutual

/-- `Release` and whether it panics. -/
def release : Limiter L → World → Bool × World
  | .leaf l, w => leaves.release l w
  | .all members, w => releaseAll members w

def releaseAll : List (Limiter L) → World → Bool × World
  | [], w => (false, w)
  | l :: rest, w =>
      match l.release w with
      | (true, w) => (true, w)
      | (false, w) => releaseAll rest w

end

/-- The loop that undoes a partial success, with the latest acquisition first. The answer
is `none` if a `Release` panics. -/
def undo (acquired : List (Limiter L)) (w : World) : Option Bool × World :=
  match releaseAll leaves acquired w with
  | (true, w) => (none, w)
  | (false, w) => (some false, w)

mutual

/-- `TryAcquire`, with `none` for a panic. -/
def tryAcquire : Limiter L → World → Option Bool × World
  | .leaf l, w =>
      let (ok, w) := leaves.tryAcquire l w
      (some ok, w)
  | .all members, w => acquireAll [] members w

/-- The loop of `all.TryAcquire` behind the members that it has acquired. -/
def acquireAll : List (Limiter L) → List (Limiter L) → World → Option Bool × World
  | _, [], w => (some true, w)
  | acquired, l :: rest, w =>
      match l.tryAcquire w with
      | (some true, w) => acquireAll (l :: acquired) rest w
      | (some false, w) => undo leaves acquired w
      | (none, w) => (none, w)

end

mutual

/-- The leaves, as often as they occur. -/
def occurrences : Limiter L → List L
  | .leaf l => [l]
  | .all members => allOccurrences members

def allOccurrences : List (Limiter L) → List L
  | [] => []
  | l :: rest => l.occurrences ++ allOccurrences rest

end

variable {leaves}

/-- Leaves that are called in order and all admit. -/
inductive Admits (leaves : Leaves L World) : List L → World → World → Prop where
  | nil (w : World) : Admits leaves [] w w
  | cons {l : L} {rest : List L} {w middle w' : World} :
      leaves.tryAcquire l w = (true, middle) → Admits leaves rest middle w' →
      Admits leaves (l :: rest) w w'

/-- The loop over members that are leaves: all of them admit, or those in front of the
first that refuses are undone. -/
theorem acquireAll_leaves (acquired : List (Limiter L)) (members : List L) (w : World) :
    (∃ w', Admits leaves members w w' ∧
      acquireAll leaves acquired (members.map .leaf) w = (some true, w')) ∨
    ∃ front refuser back middle w', members = front ++ refuser :: back ∧
      Admits leaves front w middle ∧ leaves.tryAcquire refuser middle = (false, w') ∧
      acquireAll leaves acquired (members.map .leaf) w =
        undo leaves ((front.map .leaf).reverse ++ acquired) w' := by
  induction members generalizing acquired w with
  | nil => exact .inl ⟨w, .nil w, rfl⟩
  | cons l rest ih =>
      cases answer : leaves.tryAcquire l w with
      | mk ok middle =>
          have called : tryAcquire leaves (.leaf l) w = (some ok, middle) := by
            rw [tryAcquire, answer]
          rw [List.map_cons, acquireAll, called]
          cases ok with
          | false => exact .inr ⟨[], l, rest, w, middle, rfl, .nil w, answer, rfl⟩
          | true =>
              rcases ih (.leaf l :: acquired) middle with
                ⟨w', admitted, reached⟩ | ⟨front, refuser, back, last, w', rfl, admitted, refused,
                  undone⟩
              · exact .inl ⟨w', .cons answer admitted, reached⟩
              · refine .inr ⟨l :: front, refuser, back, last, w', rfl, .cons answer admitted,
                  refused, ?_⟩
                rw [List.map_cons, List.reverse_cons, List.append_assoc]
                exact undone

end Limiter

end Netx.Limit
