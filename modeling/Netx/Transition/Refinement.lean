import Netx.Transition.System

/-! Runs of one system seen as runs of another. Every step shows a list of
actions of the more abstract system, and the trace of a run is what its steps
show in turn. -/

set_option autoImplicit false

namespace Netx.Transition.System

universe u v

variable {State : Type u} {Action : Type v} (system : System State Action)

/-- What a run shows; `shown state action next` is what one step shows. -/
def trace {Event : Type v} (shown : State → Action → State → List Event) :
    State → List Action → List Event
  | _, [] => []
  | state, action :: rest =>
      match system.step state action with
      | none => []
      | some next => shown state action next ++ trace shown next rest

variable {system}

/-- If every step is matched by what it shows, so is every run. -/
theorem exec_simulates {Abstract : Type u} {Event : Type v} {abstract : System Abstract Event}
    {shown : State → Action → State → List Event} (view : State → Abstract)
    (property : State → Prop)
    (keep : ∀ state action next, property state → system.step state action = some next →
      property next ∧
        abstract.exec (view state) (shown state action next) = some (view next))
    {state final : State} {actions : List Action} (held : property state)
    (executed : system.exec state actions = some final) :
    abstract.exec (view state) (system.trace shown state actions) = some (view final) := by
  induction actions generalizing state with
  | nil =>
      cases executed
      rfl
  | cons action rest ih =>
      obtain ⟨next, stepped, remaining⟩ := Option.bind_eq_some_iff.mp executed
      obtain ⟨heldNext, matched⟩ := keep state action next held stepped
      simp only [trace, stepped, exec_append, matched, Option.bind_some]
      exact ih heldNext remaining

/-- What survives every step between visited states survives a run. -/
theorem exec_keeps_visited (property : State → Prop) {state final : State}
    {actions : List Action}
    (keep : ∀ before action next, system.Visits state actions next → property before →
      system.step before action = some next → property next)
    (held : property state) (executed : system.exec state actions = some final) :
    property final := by
  induction actions generalizing state with
  | nil =>
      cases executed
      exact held
  | cons action rest ih =>
      obtain ⟨next, stepped, remaining⟩ := Option.bind_eq_some_iff.mp executed
      have visits : ∀ later, system.Visits next rest later →
          system.Visits state (action :: rest) later :=
        fun later visit => (visits_cons stepped).mpr (.inr visit)
      refine ih ?_ (keep state action next (visits next (visits_start _ _)) held stepped) remaining
      exact fun before action later visit => keep before action later (visits later visit)

end Netx.Transition.System
