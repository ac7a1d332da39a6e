import Mathlib.Algebra.Order.Ring.Int

/-!
# Flows

One flow with its close state machine and the word that holds `LastSeen`. The
operations are cut into their atomic loads, compare-and-swaps and or-steps, so
that any number of them may run at once.
-/

set_option autoImplicit false

namespace Netx.FlowTable

inductive State where
  | opened
  | closing
  | closed
  deriving DecidableEq, Repr

/-- `v &^ frozen`. -/
def clear (v : Int) : Int :=
  v - v % 2

/-- `v & frozen != 0`. -/
def isFrozen (v : Int) : Bool :=
  v % 2 ≠ 0

/-- `v | frozen`. -/
def setFrozen (v : Int) : Int :=
  clear v + 1

structure Flow where
  id : UInt64
  state : State
  seen : Int

namespace Flow

/-- `newInTable`, with the identifier from `NextID` and the clock as it was read. -/
def newInTable (id : UInt64) (clock : Int) : Flow where
  id
  state := .opened
  seen := clear clock

def lastSeen (f : Flow) : Int :=
  clear f.seen

def freeze (f : Flow) : Flow :=
  { f with seen := setFrozen f.seen }

end Flow

inductive BeginCloseStage where
  | cas
  | freeze

inductive CloseStage where
  | load
  | cas (s : State)
  | freeze

/-- `now` is the time the call has read. -/
inductive TouchStage where
  | load (now : Int)
  | cas (now v : Int)

/-- A `Touch` swaps a word that is not frozen for a later one that is not. -/
def TouchStage.Sound : TouchStage → Prop
  | .load now => isFrozen now = false
  | .cas now v => isFrozen now = false ∧ isFrozen v = false ∧ v < now

/-- An operation on a flow goes on or returns. -/
inductive Progress (Stage Result : Type) where
  | goes (stage : Stage)
  | returns (result : Result)

namespace Flow

def beginClose (f : Flow) : BeginCloseStage → Flow × Progress BeginCloseStage Bool
  | .cas =>
      if f.state = .opened then ({ f with state := .closing }, .goes .freeze)
      else (f, .returns false)
  | .freeze => (f.freeze, .returns true)

def close (f : Flow) : CloseStage → Flow × Progress CloseStage Bool
  | .load => (f, if f.state = .closed then .returns false else .goes (.cas f.state))
  | .cas s =>
      if f.state = s then ({ f with state := .closed }, .goes .freeze) else (f, .goes .load)
  | .freeze => (f.freeze, .returns true)

def touch (f : Flow) : TouchStage → Flow × Progress TouchStage Unit
  | .load now =>
      (f, if isFrozen f.seen ∨ now ≤ f.seen then .returns () else .goes (.cas now f.seen))
  | .cas now v =>
      if f.seen = v then ({ f with seen := now }, .returns ()) else (f, .goes (.load now))

/-- The load of `expire`, and what it decides without a compare-and-swap. -/
def expire (f : Flow) (cutoff : Int) : Progress Int Bool :=
  if clear f.seen ≥ cutoff then .returns false
  else if isFrozen f.seen then .returns true
  else .goes f.seen

/-- The compare-and-swap of `expire`. -/
def expireCas (f : Flow) (v : Int) : Flow × Bool :=
  if f.seen = v then ({ f with seen := setFrozen v }, true) else (f, false)

/-- Whatever happens to a flow, its identifier stays and it never leaves `Closed`. -/
structure Forward (f f' : Flow) : Prop where
  id : f'.id = f.id
  closed : f.state = .closed → f'.state = .closed

theorem Forward.refl (f : Flow) : f.Forward f :=
  ⟨rfl, fun closed => closed⟩

/-- What one atomic operation does to a flow. If its call is `sound`, a `Touch` swaps a word
that is not frozen for a later one. -/
inductive Writes (sound : Prop) (f : Flow) : Flow → Prop where
  | same : Writes sound f f
  | begins : f.state = .opened → Writes sound f { f with state := .closing }
  | closes : Writes sound f { f with state := .closed }
  | freezes : Writes sound f f.freeze
  | touches (now : Int) : (sound → isFrozen f.seen = false ∧ f.seen < now) →
      Writes sound f { f with seen := now }

variable {sound : Prop} {f f' : Flow}

theorem Writes.forward (writes : f.Writes sound f') : f.Forward f' := by
  cases writes with
  | begins opened =>
      refine ⟨rfl, fun closed => ?_⟩
      rw [opened] at closed
      cases closed
  | closes => exact ⟨rfl, fun _ => rfl⟩
  | _ => exact ⟨rfl, fun closed => closed⟩

theorem beginClose_writes {stage : BeginCloseStage} {progress : Progress BeginCloseStage Bool}
    (swapped : f.beginClose stage = (f', progress)) : f.Writes sound f' := by
  cases stage with
  | cas =>
      simp only [beginClose] at swapped
      split at swapped <;> cases swapped
      · exact .begins ‹_›
      · exact .same
  | freeze =>
      cases swapped
      exact .freezes

theorem close_writes {stage : CloseStage} {progress : Progress CloseStage Bool}
    (swapped : f.close stage = (f', progress)) : f.Writes sound f' := by
  cases stage with
  | load =>
      cases swapped
      exact .same
  | cas s =>
      simp only [close] at swapped
      split at swapped <;> cases swapped
      · exact .closes
      · exact .same
  | freeze =>
      cases swapped
      exact .freezes

theorem touch_writes {stage : TouchStage} {progress : Progress TouchStage Unit}
    (swapped : f.touch stage = (f', progress)) : f.Writes stage.Sound f' := by
  cases stage with
  | load now =>
      cases swapped
      exact .same
  | cas now v =>
      simp only [touch] at swapped
      split at swapped <;> cases swapped
      · rename_i same
        subst same
        exact .touches now And.right
      · exact .same

theorem expireCas_writes {v : Int} {done : Bool} (swapped : f.expireCas v = (f', done)) :
    f.Writes sound f' := by
  unfold expireCas at swapped
  split at swapped <;> cases swapped
  · rename_i same
    subst same
    exact .freezes
  · exact .same

end Flow

/-- What a flow has to be while a `Close` on it is at this stage. -/
def CloseStage.Stands (f : Flow) : CloseStage → Prop
  | .freeze => f.state = .closed
  | _ => True

theorem Flow.close_goes {f : Flow} {stage next : CloseStage}
    (goes : (f.close stage).2 = .goes next) : next.Stands (f.close stage).1 := by
  cases stage with
  | load =>
      simp only [Flow.close] at goes
      split at goes
      · cases goes
      · cases goes
        exact trivial
  | cas s =>
      by_cases same : f.state = s
      · simp only [Flow.close, if_pos same] at goes ⊢
        cases goes
        rfl
      · simp only [Flow.close, if_neg same] at goes
        cases goes
        exact trivial
  | freeze => cases goes

/-- A `Close` that returns leaves the flow closed, whoever closed it. -/
theorem Flow.close_returns {f : Flow} {stage : CloseStage} {result : Bool}
    (stands : stage.Stands f) (returned : (f.close stage).2 = .returns result) :
    (f.close stage).1.state = .closed := by
  cases stage with
  | load =>
      simp only [Flow.close] at returned
      split at returned
      · assumption
      · cases returned
  | cas s =>
      simp only [Flow.close] at returned
      split at returned <;> cases returned
  | freeze => exact stands

end Netx.FlowTable
