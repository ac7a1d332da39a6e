import Mathlib.Data.List.Basic

/-!
# Programs that ask their surroundings

A program is a finite tree of requests with a continuation for every answer. A handler
that answers the requests one after the other runs it; a system may also keep it waiting.
`Meets` is its logic of pre- and postconditions, in terms of the history of what has been
asked and answered.
-/

set_option autoImplicit false

namespace Netx.Interaction

universe u v

inductive Program (Op : Type u) (Answer : Op → Type u) (α : Type u) where
  | done (result : α)
  | ask (op : Op) (next : Answer op → Program Op Answer α)

structure Event (Op : Type u) (Answer : Op → Type u) where
  op : Op
  answer : Answer op

/-- `none` where a request cannot be answered. -/
abbrev Handler (Op : Type u) (Answer : Op → Type u) (State : Type v) :=
  State → (op : Op) → Option (Answer op × State)

/-- `allows` says what may be asked after a history, `promises` what is answered. -/
structure Protocol (Op : Type u) (Answer : Op → Type u) where
  allows : List (Event Op Answer) → Op → Prop
  promises : (op : Op) → Answer op → Prop

namespace Program

variable {Op : Type u} {Answer : Op → Type u} {α β : Type u} {State : Type v}

def bind : Program Op Answer α → (α → Program Op Answer β) → Program Op Answer β
  | .done result, rest => rest result
  | .ask op next, rest => .ask op fun answer => (next answer).bind rest

def request (op : Op) : Program Op Answer (Answer op) :=
  .ask op .done

instance : Monad (Program Op Answer) where
  pure := .done
  bind := bind

def run (handler : Handler Op Answer State) : Program Op Answer α → State → Option (α × State)
  | .done result, state => some (result, state)
  | .ask op next, state =>
      match handler state op with
      | none => none
      | some (answer, state) => (next answer).run handler state

/-- What is asked and answered while a handler runs the program. -/
def events (handler : Handler Op Answer State) :
    Program Op Answer α → State → List (Event Op Answer)
  | .done _, _ => []
  | .ask op next, state =>
      match handler state op with
      | none => []
      | some (answer, state) => ⟨op, answer⟩ :: (next answer).events handler state

/-- Every request is allowed when it is made, and `post` holds of the result and the
history, as long as the answers are as promised. -/
def Meets (protocol : Protocol Op Answer) (post : α → List (Event Op Answer) → Prop) :
    Program Op Answer α → List (Event Op Answer) → Prop
  | .done result, history => post result history
  | .ask op next, history =>
      protocol.allows history op ∧ ∀ answer, protocol.promises op answer →
        (next answer).Meets protocol post (history ++ [⟨op, answer⟩])

@[simp] theorem run_done (handler : Handler Op Answer State) (result : α) (state : State) :
    (done result : Program Op Answer α).run handler state = some (result, state) := rfl

theorem run_bind (handler : Handler Op Answer State) (program : Program Op Answer α)
    (rest : α → Program Op Answer β) (state : State) :
    (program >>= rest).run handler state =
      (program.run handler state).bind fun reached => (rest reached.1).run handler reached.2 := by
  induction program generalizing state with
  | done result => rfl
  | ask op next ih =>
      show (ask op fun answer => next answer >>= rest).run handler state = _
      cases answered : handler state op with
      | none => simp [run, answered]
      | some reached => simp [run, answered, ih]

section Rules

variable {protocol : Protocol Op Answer} {post : α → List (Event Op Answer) → Prop}
  {history : List (Event Op Answer)}

@[simp] theorem meets_bind {program : Program Op Answer β} {rest : β → Program Op Answer α} :
    (program >>= rest).Meets protocol post history ↔
      program.Meets protocol (fun result history => (rest result).Meets protocol post history)
        history := by
  induction program generalizing history with
  | done result => rfl
  | ask op next ih =>
      exact and_congr_right fun _ => forall_congr' fun answer => imp_congr_right fun _ => ih answer

theorem Meets.mono {weaker : α → List (Event Op Answer) → Prop} {program : Program Op Answer α}
    (meets : program.Meets protocol post history)
    (implied : ∀ result later, post result later → weaker result later) :
    program.Meets protocol weaker history := by
  induction program generalizing history with
  | done result => exact implied result history meets
  | ask op next ih => exact ⟨meets.1, fun answer promised => ih answer (meets.2 answer promised)⟩

end Rules

section Adequacy

variable {protocol : Protocol Op Answer} {post : α → List (Event Op Answer) → Prop}
  {history : List (Event Op Answer)} {handler : Handler Op Answer State} {state : State}
  {program : Program Op Answer α} {event : Event Op Answer}

/-- A handler that answers what is allowed, as promised, runs the program to its
postcondition. -/
theorem Meets.run (meets : program.Meets protocol post history)
    (answers : ∀ state history op, protocol.allows history op → ∃ answer next,
      handler state op = some (answer, next) ∧ protocol.promises op answer) (state : State) :
    ∃ result next, program.run handler state = some (result, next) ∧
      post result (history ++ program.events handler state) := by
  induction program generalizing history state with
  | done result => exact ⟨result, state, rfl, by rw [events, List.append_nil]; exact meets⟩
  | ask op next ih =>
      obtain ⟨answer, reached, answered, promised⟩ := answers state history op meets.1
      obtain ⟨result, final, ran, holds⟩ := ih answer (meets.2 answer promised) reached
      refine ⟨result, final, ?_, ?_⟩
      · simp only [Program.run, answered]
        exact ran
      · simp only [events, answered]
        rw [List.append_cons]
        exact holds

/-- Whatever the handler is asked is allowed by then. -/
theorem Meets.events (meets : program.Meets protocol post history)
    (promised : ∀ state op answer next, handler state op = some (answer, next) →
      protocol.promises op answer) {front back : List (Event Op Answer)}
    (made : program.events handler state = front ++ event :: back) :
    protocol.allows (history ++ front) event.op := by
  induction program generalizing history state front with
  | done result => simp [Program.events] at made
  | ask op next ih =>
      cases answered : handler state op with
      | none => simp [Program.events, answered] at made
      | some reply =>
          obtain ⟨answer, reached⟩ := reply
          simp only [Program.events, answered] at made
          cases front with
          | nil =>
              obtain ⟨rfl, _⟩ := List.cons.inj made
              rw [List.append_nil]
              exact meets.1
          | cons first front =>
              obtain ⟨rfl, later⟩ := List.cons.inj made
              have kept := meets.2 answer (promised _ _ _ _ answered)
              have allowed := ih answer kept later
              rwa [List.append_assoc] at allowed

/-- The first request is answered in the state the run starts in. -/
theorem events_head {rest : List (Event Op Answer)}
    (made : program.events handler state = event :: rest) :
    ∃ after, handler state event.op = some (event.answer, after) := by
  cases program with
  | done result => cases made
  | ask op next =>
      cases answered : handler state op with
      | none => simp [Program.events, answered] at made
      | some reply =>
          simp only [Program.events, answered] at made
          obtain ⟨rfl, _⟩ := List.cons.inj made
          exact ⟨reply.2, answered⟩

/-- The answers of a run are the handler's. -/
theorem events_answered (made : event ∈ program.events handler state) :
    ∃ before after, handler before event.op = some (event.answer, after) := by
  induction program generalizing state with
  | done result => cases made
  | ask op next ih =>
      cases answered : handler state op with
      | none => simp [Program.events, answered] at made
      | some reply =>
          simp only [Program.events, answered, List.mem_cons] at made
          rcases made with rfl | later
          · exact ⟨state, reply.2, answered⟩
          · exact ih reply.1 later

end Adequacy

end Program

end Netx.Interaction
