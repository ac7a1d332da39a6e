import Netx.FlowTable.Closing
import Netx.FlowTable.Editing

/-!
# Identifiers of flows

A call draws the identifier of a new flow while it holds the lock of the shard. As
long as the counter does not wrap, identifiers are distinct, and those of one key
rise.
-/

set_option autoImplicit false

namespace Netx.FlowTable

/-- The key and the identifier of the flow that the call is about to store. -/
def Pc.drawn {K : Type} : Pc K → Option (K × UInt64)
  | .insert k id => some (k, id)
  | _ => none

def Pc.draws {K : Type} : Pc K → Bool
  | .nextID _ => true
  | _ => false

section Calls

variable {K Call : Type} {t : Table K}

/-- The steps that do not wrap the counter behind `NextID`. -/
def unspent (w : World K Call) : Action K Call → Bool
  | .call call .next => !(w.pc call).draws || decide (w.shared.lastID.toNat + 1 < 2 ^ 64)
  | .call _ _ => true
  | .nextID => decide (w.shared.lastID.toNat + 1 < 2 ^ 64)

theorem After.next_drawn (after : After K) : after.next.drawn = none := by
  cases after <;> rfl

variable [DecidableEq K] {call : Call} {s s' : Shared K Call} {pc pc' : Pc K} {act : Act K}

/-- What a step does to the identifiers. -/
inductive Numbers (t : Table K) (s : Shared K Call) (pc : Pc K) (s' : Shared K Call)
    (pc' : Pc K) : Prop where
  | quiet : s'.lastID = s.lastID → (s'.created = s.created ∧ s'.key = s.key) →
      pc'.drawn = none → Numbers t s pc s' pc'
  | draws (k : K) : pc = .nextID k → s' = { s with lastID := s.lastID + 1 } →
      pc' = .insert k (s.lastID + 1) → Numbers t s pc s' pc'
  | inserts (k : K) (id : UInt64) : pc = .insert k id → s' = s.insert t k id →
      pc'.drawn = none → Numbers t s pc s' pc'

theorem Moves.numbers (moved : Moves t call s pc act s' pc') : Numbers t s pc s' pc' := by
  cases moved with
  | call op => exact .quiet rfl ⟨rfl, rfl⟩ (by cases op <;> rfl)
  | nextID k => exact .draws k rfl rfl rfl
  | insert k id => exact .inserts k id rfl rfl rfl
  | closedUnset stage k f after | onCloseReturns k f after =>
      exact .quiet rfl ⟨rfl, rfl⟩ after.next_drawn
  | _ => exact .quiet rfl ⟨rfl, rfl⟩ rfl

theorem Shared.insert_flow (s : Shared K Call) (k : K) (id : UInt64) (f : Nat) :
    (s.insert t k id).flow f = if f = s.created then .newInTable id s.now else s.flow f := by
  simp only [Shared.insert, Function.update_apply]

theorem Shared.insert_key (s : Shared K Call) (k : K) (id : UInt64) (f : Nat) :
    (s.insert t k id).key f = if f = s.created then some k else s.key f := by
  simp only [Shared.insert, Function.update_apply]

/-- The flows that were there are as before. -/
theorem Shared.insert_old {s : Shared K Call} (k : K) (id : UInt64) {f : Nat}
    (old : f < s.created) :
    (s.insert t k id).flow f = s.flow f ∧ (s.insert t k id).key f = s.key f := by
  rw [Shared.insert_flow, Shared.insert_key]
  exact ⟨if_neg (Nat.ne_of_lt old), if_neg (Nat.ne_of_lt old)⟩

theorem Shared.insert_new (s : Shared K Call) (k : K) (id : UInt64) :
    ((s.insert t k id).flow s.created).id = id ∧ (s.insert t k id).key s.created = some k := by
  rw [Shared.insert_flow, Shared.insert_key, if_pos rfl, if_pos rfl]
  exact ⟨rfl, rfl⟩

/-- Two calls that have drawn an identifier for one key would hold one lock. -/
theorem World.Guarded.drawn_alone {w : World K Call} (guarded : w.Guarded t) {other : Call} {k : K}
    {id id' : UInt64} (here : w.pc call = .insert k id)
    (there : (w.pc other).drawn = some (k, id')) : other = call := by
  have locked : (w.pc call).locks t = some (t.shard k) := by rw [here]; rfl
  have locked' : (w.pc other).locks t = some (t.shard k) := by
    cases pc : w.pc other with
    | insert k' id =>
        rw [pc] at there
        cases there
        rfl
    | _ =>
        rw [pc] at there
        cases there
  have held := (guarded.mu _ call).mpr locked
  rw [(guarded.mu _ other).mpr locked'] at held
  exact Option.some.inj held

end Calls

section Runs

variable {K Call : Type}

/-- Identifiers of flows and of calls that have drawn one are at most the counter. -/
structure World.Numbered (w : World K Call) : Prop where
  issued : ∀ f < w.shared.created, 0 < (w.shared.flow f).id.toNat ∧
    (w.shared.flow f).id.toNat ≤ w.shared.lastID.toNat
  drawn : ∀ call k id, (w.pc call).drawn = some (k, id) →
    0 < id.toNat ∧ id.toNat ≤ w.shared.lastID.toNat ∧
      ∀ f < w.shared.created, (w.shared.flow f).id.toNat ≠ id.toNat ∧
        (w.shared.key f = some k → (w.shared.flow f).id.toNat < id.toNat)
  apart : ∀ call other k k' id, (w.pc call).drawn = some (k, id) →
    (w.pc other).drawn = some (k', id) → call = other

theorem World.Numbered.start (now : Int) (lastID : UInt64) :
    (World.start now lastID : World K Call).Numbered where
  issued _ old := absurd old (Nat.not_lt_zero _)
  drawn _ _ _ := nofun
  apart _ _ _ _ _ := nofun

private theorem toNat_next {lastID : UInt64} (left : lastID.toNat + 1 < 2 ^ 64) :
    (lastID + 1).toNat = lastID.toNat + 1 := by
  rw [UInt64.toNat_add]
  exact Nat.mod_eq_of_lt left

variable {w : World K Call}

/-- Somebody takes an identifier that no flow gets. -/
theorem World.Numbered.nextID (numbered : w.Numbered)
    (left : w.shared.lastID.toNat + 1 < 2 ^ 64) :
    World.Numbered { w with shared := { w.shared with lastID := w.shared.lastID + 1 } } := by
  refine ⟨fun f old => ?_, fun call k id drawn => ?_, numbered.apart⟩
  · have bound := numbered.issued f old
    simp only [toNat_next left]
    exact ⟨bound.1, by omega⟩
  · obtain ⟨positive, bound, earlier⟩ := numbered.drawn call k id drawn
    simp only [toNat_next left]
    exact ⟨positive, by omega, earlier⟩

variable [DecidableEq Call] {call : Call} {shared : Shared K Call} {pc : Pc K}

theorem World.Numbered.quiet (numbered : w.Numbered)
    (last : shared.lastID = w.shared.lastID)
    (flows : shared.created = w.shared.created ∧ shared.key = w.shared.key)
    (ids : ∀ f < w.shared.created, (shared.flow f).id = (w.shared.flow f).id)
    (none : pc.drawn = none) :
    World.Numbered { shared, pc := Function.update w.pc call pc } := by
  have pending : ∀ {other k id}, (Function.update w.pc call pc other).drawn = some (k, id) →
      (w.pc other).drawn = some (k, id) := by
    intro other k id drawn
    by_cases acting : other = call
    · rw [acting, Function.update_self, none] at drawn
      cases drawn
    · rwa [Function.update_of_ne acting] at drawn
  constructor
  · intro f old
    simp only [flows.1] at old
    simp only [last, ids f old]
    exact numbered.issued f old
  · intro other k id drawn
    obtain ⟨positive, bound, earlier⟩ := numbered.drawn other k id (pending drawn)
    simp only [last, flows.1, flows.2]
    refine ⟨positive, bound, fun f old => ?_⟩
    rw [ids f old]
    exact earlier f old
  · exact fun first second k₁ k₂ id one two =>
      numbered.apart first second k₁ k₂ id (pending one) (pending two)

theorem World.Numbered.draws (numbered : w.Numbered) {k : K}
    (left : w.shared.lastID.toNat + 1 < 2 ^ 64) :
    World.Numbered { shared := { w.shared with lastID := w.shared.lastID + 1 }
                     pc := Function.update w.pc call (.insert k (w.shared.lastID + 1)) } := by
  have later := numbered.nextID left
  have newer : ∀ other k' id, other ≠ call → (w.pc other).drawn = some (k', id) →
      id ≠ w.shared.lastID + 1 := by
    rintro other k' _ _ drawn rfl
    have bound := (numbered.drawn other k' _ drawn).2.1
    rw [toNat_next left] at bound
    omega
  refine ⟨later.issued, fun other k' id drawn => ?_, fun first second k₁ k₂ id one two => ?_⟩
  · simp only [Function.update_apply] at drawn
    split_ifs at drawn with acting
    · subst acting
      cases drawn
      refine ⟨by rw [toNat_next left]; omega, le_rfl, fun f old => ?_⟩
      have bound := (numbered.issued f old).2
      have smaller : (w.shared.flow f).id.toNat < (w.shared.lastID + 1).toNat := by
        rw [toNat_next left]
        omega
      exact ⟨Nat.ne_of_lt smaller, fun _ => smaller⟩
    · exact later.drawn other k' id drawn
  · by_cases acting : first = call
    · by_cases acting' : second = call
      · rw [acting, acting']
      · subst acting
        simp only [Function.update_self, Function.update_of_ne acting'] at one two
        cases one
        exact absurd rfl (newer second k₂ _ acting' two)
    · by_cases acting' : second = call
      · subst acting'
        simp only [Function.update_self, Function.update_of_ne acting] at one two
        cases two
        exact absurd rfl (newer first k₁ _ acting one)
      · simp only [Function.update_of_ne acting, Function.update_of_ne acting'] at one two
        exact numbered.apart first second k₁ k₂ id one two

variable [DecidableEq K] {t : Table K}

theorem World.Numbered.inserts (numbered : w.Numbered) (guarded : w.Guarded t) {k : K}
    {id : UInt64} (here : w.pc call = .insert k id) (none : pc.drawn = none) :
    World.Numbered { shared := w.shared.insert t k id
                     pc := Function.update w.pc call pc } := by
  have own : (w.pc call).drawn = some (k, id) := by rw [here]; rfl
  obtain ⟨positive, bound, earlier⟩ := numbered.drawn call k id own
  obtain ⟨newID, newKey⟩ := w.shared.insert_new (t := t) k id
  have oldFlow := fun {f : Nat} old => (Shared.insert_old (t := t) (s := w.shared) k id
    (f := f) old).1
  have oldKey := fun {f : Nat} old => (Shared.insert_old (t := t) (s := w.shared) k id
    (f := f) old).2
  have split : ∀ {f : Nat}, f < (w.shared.insert t k id).created →
      f < w.shared.created ∨ f = w.shared.created := Nat.lt_succ_iff_lt_or_eq.mp
  have pending : ∀ {other k' id'}, (Function.update w.pc call pc other).drawn = some (k', id') →
      other ≠ call ∧ (w.pc other).drawn = some (k', id') := by
    intro other k' id' drawn
    by_cases acting : other = call
    · rw [acting, Function.update_self, none] at drawn
      cases drawn
    · rw [Function.update_of_ne acting] at drawn
      exact ⟨acting, drawn⟩
  constructor
  · intro f old
    rcases split old with before | rfl
    · rw [oldFlow before]
      exact numbered.issued f before
    · rw [newID]
      exact ⟨positive, bound⟩
  · intro other k' id' drawn
    obtain ⟨apart, drawn⟩ := pending drawn
    obtain ⟨positive', bound', earlier'⟩ := numbered.drawn other k' id' drawn
    refine ⟨positive', bound', fun f old => ?_⟩
    rcases split old with before | rfl
    · rw [oldFlow before, oldKey before]
      exact earlier' f before
    · rw [newID, newKey]
      refine ⟨fun same => ?_, fun same => ?_⟩
      · obtain rfl : id = id' := UInt64.toNat_inj.mp same
        exact apart (numbered.apart other call k' k id drawn own)
      · cases same
        exact absurd (guarded.drawn_alone here drawn) apart
  · intro first second k₁ k₂ id' one two
    exact numbered.apart first second k₁ k₂ id' (pending one).2 (pending two).2

theorem World.Numbered.step {next : World K Call} {action : Action K Call}
    (numbered : w.Numbered) (guarded : w.Guarded t) (left : unspent w action = true)
    (stepped : w.step t action = some next) : next.Numbered := by
  rcases World.step_cases stepped with ⟨call, act, shared, pc, rfl, moved, rfl⟩ | ⟨rfl, rfl⟩
  · cases moved.numbers with
    | quiet last flows none =>
        exact numbered.quiet last flows (fun f old => (moved.flow_forward old).id) none
    | draws k here same there =>
        subst same there
        rw [here] at moved
        cases moved with
        | nextID =>
            simp only [unspent, here, Pc.draws] at left
            exact numbered.draws (by simpa using left)
    | inserts k id here same none =>
        subst same
        exact numbered.inserts guarded here none
  · exact numbered.nextID (by simpa [unspent] using left)

end Runs

end Netx.FlowTable
