import Mathlib.Data.List.Basic

/-! Labelled transition systems whose steps are computed. One step function
serves replay of a concrete schedule and the induction over all schedules. -/

set_option autoImplicit false

namespace Netx.Transition

universe u v

/-- `step state action` is `none` when the action is not enabled in the state. -/
structure System (State : Type u) (Action : Type v) where
  initial : State → Prop
  step : State → Action → Option State

namespace System

variable {State : Type u} {Action : Type v} (system : System State Action)

def exec : State → List Action → Option State
  | state, [] => some state
  | state, action :: rest => (system.step state action).bind (exec · rest)

/-- States reached by runs whose every step is taken in a state that allows it. -/
inductive ReachableWithin (allowed : State → Action → Prop) : State → Prop where
  | initial {state : State} : system.initial state → ReachableWithin allowed state
  | step {state next : State} {action : Action} :
      ReachableWithin allowed state → allowed state action →
      system.step state action = some next → ReachableWithin allowed next

def Reachable : State → Prop :=
  system.ReachableWithin fun _ _ => True

/-- A state that executing the actions from `start` passes through. -/
def Visits (start : State) (actions : List Action) (state : State) : Prop :=
  ∃ front back, actions = front ++ back ∧ system.exec start front = some state

/-- A step that executing the actions from `start` takes. -/
def Takes (start : State) (actions : List Action) (state : State) (action : Action) : Prop :=
  ∃ front back, actions = front ++ action :: back ∧ system.exec start front = some state

/-- The same system with every other step refused. -/
def restrict (allowed : State → Action → Bool) : System State Action where
  initial := system.initial
  step state action := if allowed state action then system.step state action else none

/-- The same system, started in a given state. -/
def startedAt (start : State) : System State Action where
  initial := (· = start)
  step := system.step

variable {system} {final next start state : State} {actions rest : List Action} {action : Action}
  {allowed : State → Action → Prop}

theorem restrict_step {allowed : State → Action → Bool} :
    (system.restrict allowed).step state action = some next ↔
      allowed state action = true ∧ system.step state action = some next :=
  Option.ite_none_right_eq_some

@[simp] theorem exec_nil (state : State) : system.exec state [] = some state := rfl

@[simp] theorem exec_cons (state : State) (action : Action) (rest : List Action) :
    system.exec state (action :: rest) =
      (system.step state action).bind (system.exec · rest) := rfl

theorem exec_step {final : Option State} (stepped : system.step start action = some next)
    (executed : system.exec next rest = final) : system.exec start (action :: rest) = final := by
  rw [exec_cons, stepped]
  exact executed

/-- A run can be evaluated up to what is asked of its last state. -/
theorem exec_of_check (check : State → Bool)
    (checked : (system.exec start actions).any check = true) :
    ∃ final, system.exec start actions = some final ∧ check final = true := by
  cases executed : system.exec start actions with
  | none =>
      rw [executed] at checked
      cases checked
  | some final =>
      rw [executed] at checked
      exact ⟨final, rfl, checked⟩

theorem exec_append (state : State) (front back : List Action) :
    system.exec state (front ++ back) =
      (system.exec state front).bind (system.exec · back) := by
  induction front generalizing state with
  | nil => rfl
  | cons action front ih =>
      cases stepped : system.step state action with
      | none => simp [stepped]
      | some next => simp [stepped, ih]

theorem Reachable.initial (start : system.initial state) : system.Reachable state :=
  ReachableWithin.initial start

theorem Reachable.step (reached : system.Reachable state)
    (stepped : system.step state action = some next) : system.Reachable next :=
  ReachableWithin.step reached trivial stepped

theorem ReachableWithin.reachable (reached : system.ReachableWithin allowed state) :
    system.Reachable state := by
  induction reached with
  | initial start => exact .initial start
  | step _ _ stepped ih => exact .step ih stepped

/-- What holds initially and survives every allowed step holds wherever such
steps lead. The step case may also use that its source was reached. -/
theorem ReachableWithin.invariant (property : State → Prop)
    (start : ∀ state, system.initial state → property state)
    (keep : ∀ state action next, system.ReachableWithin allowed state →
      property state → allowed state action →
      system.step state action = some next → property next)
    (reached : system.ReachableWithin allowed state) : property state := by
  induction reached with
  | initial begun => exact start _ begun
  | step before permitted stepped ih => exact keep _ _ _ before ih permitted stepped

theorem Reachable.invariant (property : State → Prop)
    (start : ∀ state, system.initial state → property state)
    (keep : ∀ state action next, system.Reachable state → property state →
      system.step state action = some next → property next) (reached : system.Reachable state) :
    property state :=
  ReachableWithin.invariant property start
    (fun state action next before held _ stepped =>
      keep state action next before held stepped) reached

/-- What survives every step survives a run. -/
theorem exec_keeps (property : State → Prop) (keep : ∀ state action next, property state →
      system.step state action = some next → property next) (held : property state)
    (executed : system.exec state actions = some final) : property final := by
  induction actions generalizing state with
  | nil =>
      cases executed
      exact held
  | cons action rest ih =>
      obtain ⟨next, stepped, remaining⟩ := Option.bind_eq_some_iff.mp executed
      exact ih (keep state action next held stepped) remaining

theorem Reachable.exec (reached : system.Reachable state)
    (executed : system.exec state actions = some final) : system.Reachable final :=
  exec_keeps system.Reachable (fun _ _ _ before stepped => before.step stepped) reached executed

/-- What allowed steps reach from a state they have reached, they reach. -/
theorem ReachableWithin.trans {permitted : State → Action → Prop}
    (before : system.ReachableWithin allowed start)
    (narrower : ∀ state action, permitted state action → allowed state action)
    (reached : (system.startedAt start).ReachableWithin permitted state) :
    system.ReachableWithin allowed state := by
  induction reached with
  | initial begun =>
      cases begun
      exact before
  | step _ permits stepped ih => exact .step ih (narrower _ _ permits) stepped

/-- A run that takes allowed steps only stays within what such steps reach. -/
theorem ReachableWithin.exec (reached : system.ReachableWithin allowed start)
    (permitted : ∀ state action, system.Takes start actions state action → allowed state action)
    (executed : system.exec start actions = some final) : system.ReachableWithin allowed final := by
  induction actions generalizing start with
  | nil =>
      cases executed
      exact reached
  | cons action rest ih =>
      obtain ⟨next, stepped, remaining⟩ := Option.bind_eq_some_iff.mp executed
      refine ih (.step reached (permitted start action ⟨[], rest, rfl, rfl⟩) stepped) ?_ remaining
      rintro state taken ⟨front, back, rfl, executedFront⟩
      exact permitted state taken ⟨action :: front, back, rfl, exec_step stepped executedFront⟩

theorem visits_start (start : State) (actions : List Action) :
    system.Visits start actions start :=
  ⟨[], actions, rfl, rfl⟩

theorem visits_final (executed : system.exec start actions = some final) :
    system.Visits start actions final :=
  ⟨actions, [], (List.append_nil actions).symm, executed⟩

theorem visits_cons (stepped : system.step start action = some next) :
    system.Visits start (action :: rest) state ↔
      state = start ∨ system.Visits next rest state := by
  constructor
  · rintro ⟨front, back, split, executed⟩
    cases front with
    | nil =>
        cases executed
        exact .inl rfl
    | cons first front =>
        obtain ⟨rfl, rfl⟩ := List.cons.inj split
        rw [exec_cons, stepped] at executed
        exact .inr ⟨front, back, rfl, executed⟩
  · rintro (rfl | ⟨front, back, rfl, executed⟩)
    · exact visits_start _ _
    · exact ⟨action :: front, back, rfl, exec_step stepped executed⟩

theorem takes_cons {taken : Action} (stepped : system.step start action = some next) :
    system.Takes start (action :: rest) state taken ↔
      state = start ∧ taken = action ∨ system.Takes next rest state taken := by
  constructor
  · rintro ⟨front, back, split, executed⟩
    cases front with
    | nil =>
        cases executed
        exact .inl ⟨rfl, (List.cons.inj split).1.symm⟩
    | cons first front =>
        obtain ⟨rfl, rfl⟩ := List.cons.inj split
        rw [exec_cons, stepped] at executed
        exact .inr ⟨front, back, rfl, executed⟩
  · rintro (⟨rfl, rfl⟩ | ⟨front, back, rfl, executed⟩)
    · exact ⟨[], rest, rfl, rfl⟩
    · exact ⟨action :: front, back, rfl, exec_step stepped executed⟩

theorem Takes.visits (taken : system.Takes start actions state action) :
    system.Visits start actions state := by
  obtain ⟨front, back, split, executed⟩ := taken
  exact ⟨front, action :: back, split, executed⟩

theorem Takes.step (taken : system.Takes start actions state action)
    (executed : system.exec start actions = some final) :
    ∃ next, system.step state action = some next := by
  obtain ⟨front, back, rfl, reached⟩ := taken
  rw [exec_append, reached, Option.bind_some, exec_cons] at executed
  obtain ⟨next, stepped, _⟩ := Option.bind_eq_some_iff.mp executed
  exact ⟨next, stepped⟩

/-- When a step keeps a property exactly if it is not a breaking one, a run
keeps the property throughout exactly if it takes no breaking step. -/
theorem visits_iff_takes (property : State → Prop) (breaks : State → Action → Prop)
    (exact_step : ∀ state action next, system.Reachable state → property state →
      system.step state action = some next → (property next ↔ ¬breaks state action))
    (reached : system.Reachable start) (held : property start)
    (executed : system.exec start actions = some final) :
    (∀ state, system.Visits start actions state → property state) ↔
      ∀ state action, system.Takes start actions state action → ¬breaks state action := by
  induction actions generalizing start with
  | nil =>
      constructor
      · rintro _ state action ⟨front, back, split, _⟩
        simp at split
      · rintro _ state ⟨front, back, split, executedFront⟩
        obtain ⟨rfl, _⟩ := List.append_eq_nil_iff.mp split.symm
        cases executedFront
        exact held
  | cons action rest ih =>
      obtain ⟨next, stepped, remaining⟩ := Option.bind_eq_some_iff.mp executed
      have here := exact_step start action next reached held stepped
      constructor
      · intro visited state taken takes
        have heldNext : property next :=
          visited next ((visits_cons stepped).mpr (.inr (visits_start _ _)))
        rcases (takes_cons stepped).mp takes with ⟨rfl, rfl⟩ | later
        · exact here.mp heldNext
        · exact (ih (reached.step stepped) heldNext remaining).mp
            (fun state visit => visited state ((visits_cons stepped).mpr (.inr visit)))
            state taken later
      · intro unbroken state visit
        have heldNext : property next :=
          here.mpr (unbroken start action ((takes_cons stepped).mpr (.inl ⟨rfl, rfl⟩)))
        rcases (visits_cons stepped).mp visit with rfl | later
        · exact held
        · exact (ih (reached.step stepped) heldNext remaining).mpr
            (fun state taken takes =>
              unbroken state taken ((takes_cons stepped).mpr (.inr takes)))
            state later

/-- What steps from good states keep holds along a run of good states. -/
theorem visits_strengthen (good kept : State → Prop)
    (keep : ∀ state action next, good state → kept state →
      system.step state action = some next → kept next) (held : kept start)
    (executed : system.exec start actions = some final)
    (visits : ∀ state, system.Visits start actions state → good state) :
    ∀ state, system.Visits start actions state → good state ∧ kept state := by
  induction actions generalizing start with
  | nil =>
      rintro state ⟨front, back, split, executedFront⟩
      have here := visits state ⟨front, back, split, executedFront⟩
      obtain ⟨rfl, _⟩ := List.append_eq_nil_iff.mp split.symm
      cases executedFront
      exact ⟨here, held⟩
  | cons action rest ih =>
      obtain ⟨next, stepped, remaining⟩ := Option.bind_eq_some_iff.mp executed
      have here := visits start (visits_start _ _)
      intro state visit
      rcases (visits_cons stepped).mp visit with rfl | later
      · exact ⟨here, held⟩
      · exact ih (keep start action next here held stepped) remaining
          (fun state visit => visits state ((visits_cons stepped).mpr (.inr visit))) state later

end System

end Netx.Transition
