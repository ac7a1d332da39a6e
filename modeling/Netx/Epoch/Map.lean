import Netx.Transition.System
import Mathlib.Data.List.Pairwise
import Mathlib.Logic.Function.Basic

/-!
# Maps with epochs

A map whose values carry an epoch. A value is stored under an absent key, with an
epoch that no earlier value has and that is later than every earlier one of its
key, so that an epoch tells the values of a reused key apart.
-/

set_option autoImplicit false

namespace Netx.Epoch

/-- `issued` are all values ever stored, with their keys, in order. -/
structure Map (K V : Type) where
  map : K → Option V
  issued : List (K × V)

inductive Event (K V : Type) where
  | found (k : K) (v : Option V)
  | opened (k : K) (v : V) (created : Bool)
  | removed (k : K) (v : V)
  | refused (k : K) (epoch : Nat)

section Semantics

variable {K V : Type} (epoch : V → Nat)

def Map.empty : Map K V where
  map := fun _ => none
  issued := []

/-- A refused removal names an epoch that is not the one stored. -/
def Map.Allows (m : Map K V) : Event K V → Prop
  | .found k v => m.map k = v
  | .opened k v true => m.map k = none ∧ 0 < epoch v ∧ ∀ entry ∈ m.issued,
      epoch entry.2 ≠ epoch v ∧ (entry.1 = k → epoch entry.2 < epoch v)
  | .opened k v false => m.map k = some v
  | .removed k v => m.map k = some v
  | .refused k stale => (m.map k).map epoch ≠ some stale

instance [DecidableEq K] [DecidableEq V] (m : Map K V) (event : Event K V) :
    Decidable (m.Allows epoch event) :=
  match event with
  | .found k v => inferInstanceAs (Decidable (m.map k = v))
  | .opened k v true => inferInstanceAs (Decidable (m.map k = none ∧ 0 < epoch v ∧
      ∀ entry ∈ m.issued, epoch entry.2 ≠ epoch v ∧ (entry.1 = k → epoch entry.2 < epoch v)))
  | .opened k v false => inferInstanceAs (Decidable (m.map k = some v))
  | .removed k v => inferInstanceAs (Decidable (m.map k = some v))
  | .refused k stale => inferInstanceAs (Decidable ((m.map k).map epoch ≠ some stale))

variable [DecidableEq K]

def Map.after (m : Map K V) : Event K V → Map K V
  | .opened k v true => ⟨Function.update m.map k (some v), m.issued ++ [(k, v)]⟩
  | .removed k _ => { m with map := Function.update m.map k none }
  | _ => m

variable [DecidableEq V]

def system : Transition.System (Map K V) (Event K V) where
  initial m := m = .empty
  step m event := if m.Allows epoch event then some (m.after event) else none

theorem system_step {m next : Map K V} {event : Event K V} :
    (system epoch).step m event = some next ↔ m.Allows epoch event ∧ m.after event = next := by
  simp [system, Option.ite_none_right_eq_some]

end Semantics

section Epochs

variable {K V : Type} {epoch : V → Nat}

structure Map.Valid (epoch : V → Nat) (m : Map K V) : Prop where
  stored : ∀ k v, m.map k = some v → (k, v) ∈ m.issued
  positive : ∀ entry ∈ m.issued, 0 < epoch entry.2
  apart : m.issued.Pairwise fun first later => epoch first.2 ≠ epoch later.2
  rising : m.issued.Pairwise fun first later =>
    first.1 = later.1 → epoch first.2 < epoch later.2

theorem Map.Valid.empty : (Map.empty : Map K V).Valid epoch where
  stored _ _ := nofun
  positive _ := nofun
  apart := .nil
  rising := .nil

variable {m final : Map K V}

/-- An epoch determines its value and its key. -/
theorem Map.Valid.issued_inj (valid : m.Valid epoch) {a b : K × V} (first : a ∈ m.issued)
    (second : b ∈ m.issued) (same : epoch a.2 = epoch b.2) : a = b := by
  by_contra different
  have symmetric : Std.Symm fun a b : K × V => epoch a.2 ≠ epoch b.2 := ⟨fun _ _ => Ne.symm⟩
  exact valid.apart.forall first second different same

theorem Map.Valid.stored_inj (valid : m.Valid epoch) {k k' : K} {v v' : V}
    (here : m.map k = some v) (there : m.map k' = some v') (same : epoch v = epoch v') :
    k = k' ∧ v = v' :=
  Prod.mk.inj (valid.issued_inj (valid.stored k v here) (valid.stored k' v' there) same)

variable [DecidableEq K]

theorem Map.Valid.after (valid : m.Valid epoch) {event : Event K V}
    (allowed : m.Allows epoch event) : (m.after event).Valid epoch := by
  cases event with
  | found | refused => exact valid
  | removed k v =>
      refine ⟨fun k' v' here => ?_, valid.positive, valid.apart, valid.rising⟩
      by_cases same : k' = k
      · simp [Map.after, same] at here
      · simp only [Map.after, Function.update_of_ne same] at here
        exact valid.stored k' v' here
  | opened k v created =>
      cases created with
      | false => exact valid
      | true =>
          obtain ⟨_, positive, fresh⟩ := allowed
          constructor
          · intro k' v' here
            by_cases same : k' = k
            · subst same
              simp only [Map.after, Function.update_self, Option.some.injEq] at here
              simp [Map.after, here]
            · simp only [Map.after, Function.update_of_ne same] at here
              exact List.mem_append_left _ (valid.stored k' v' here)
          · intro entry member
            rcases List.mem_append.mp member with old | new
            · exact valid.positive entry old
            · rw [List.mem_singleton.mp new]
              exact positive
          · refine List.pairwise_append.mpr ⟨valid.apart, List.pairwise_singleton _ _, ?_⟩
            intro entry old last new
            rw [List.mem_singleton.mp new]
            exact (fresh entry old).1
          · refine List.pairwise_append.mpr ⟨valid.rising, List.pairwise_singleton _ _, ?_⟩
            intro entry old last new
            rw [List.mem_singleton.mp new]
            exact (fresh entry old).2

theorem Map.issued_after (m : Map K V) (event : Event K V) :
    m.issued ⊆ (m.after event).issued := by
  cases event with
  | opened k v created =>
      cases created with
      | false => exact List.Subset.refl _
      | true => exact List.subset_append_left _ _
  | _ => exact List.Subset.refl _

theorem Map.map_opened_of_ne (m : Map K V) {k k' : K} (v : V) (created : Bool)
    (other : k' ≠ k) : (m.after (.opened k' v created)).map k = m.map k := by
  cases created with
  | false => rfl
  | true => exact Function.update_of_ne (Ne.symm other) _ _

variable [DecidableEq V] {events : List (Event K V)}

theorem Map.Valid.exec (valid : m.Valid epoch)
    (executed : (system epoch).exec m events = some final) : final.Valid epoch := by
  refine Transition.System.exec_keeps (Map.Valid epoch) ?_ valid executed
  intro state event next held stepped
  obtain ⟨allowed, rfl⟩ := (system_step epoch).mp stepped
  exact held.after allowed

/-- What is stored under a key later is the same value, or one of a later epoch. -/
theorem Map.Valid.later (valid : m.Valid epoch)
    (executed : (system epoch).exec m events = some final) {k : K} {v v' : V}
    (here : m.map k = some v) (there : final.map k = some v') :
    v' = v ∨ epoch v < epoch v' := by
  have kept : (k, v) ∈ final.issued ∧
      ∀ v', final.map k = some v' → v' = v ∨ epoch v < epoch v' := by
    refine Transition.System.exec_keeps (fun state : Map K V => (k, v) ∈ state.issued ∧
      ∀ v', state.map k = some v' → v' = v ∨ epoch v < epoch v') ?_ ?_ executed
    · rintro state event next ⟨issued, held⟩ stepped
      obtain ⟨allowed, rfl⟩ := (system_step epoch).mp stepped
      refine ⟨state.issued_after event issued, fun v' there => ?_⟩
      cases event with
      | found | refused => exact held v' there
      | removed k' w =>
          by_cases same : k = k'
          · simp [Map.after, same] at there
          · simp only [Map.after, Function.update_of_ne same] at there
            exact held v' there
      | opened k' w created =>
          cases created with
          | false => exact held v' there
          | true =>
              by_cases same : k = k'
              · subst same
                simp only [Map.after, Function.update_self, Option.some.injEq] at there
                subst there
                exact .inr ((allowed.2.2 _ issued).2 rfl)
              · simp only [Map.after, Function.update_of_ne same] at there
                exact held v' there
    · refine ⟨valid.stored k v here, fun v' there => .inl ?_⟩
      exact Option.some.inj (there.symm.trans here)
  exact kept.2 v' there

/-- A removal of several values is one removal after the other. -/
theorem exec_removals {ι : Type} (key : ι → K) (value : ι → V) {victims : List ι}
    (distinct : (victims.map key).Nodup)
    (present : ∀ v ∈ victims, m.map (key v) = some (value v)) :
    (system epoch).exec m (victims.map fun v => .removed (key v) (value v)) =
      some { m with map := fun k => if k ∈ victims.map key then none else m.map k } := by
  induction victims generalizing m with
  | nil => rfl
  | cons v rest ih =>
      obtain ⟨apart, distinct⟩ := List.nodup_cons.mp distinct
      have stepped : (system epoch).step m (.removed (key v) (value v)) =
          some (m.after (.removed (key v) (value v))) :=
        (system_step epoch).mpr ⟨present v List.mem_cons_self, rfl⟩
      have kept : ∀ u ∈ rest,
          (m.after (.removed (key v) (value v))).map (key u) = some (value u) := by
        intro u member
        have other : key u ≠ key v := fun same => apart (same ▸ List.mem_map_of_mem member)
        exact (Function.update_of_ne other _ _).trans (present u (List.mem_cons_of_mem _ member))
      rw [List.map_cons, Transition.System.exec_cons, stepped, Option.bind_some,
        ih distinct kept]
      congr 2
      funext k
      by_cases same : k = key v
      · simp [Map.after, same]
      · simp [Map.after, same]

end Epochs

section Openings

variable {K V : Type} [DecidableEq K]

/-- What the openings of a key gave, and which of them created it. -/
def opens (k : K) (events : List (Event K V)) : List (V × Bool) :=
  events.filterMap fun
    | .opened k' v created => if k' = k then some (v, created) else none
    | _ => none

/-- The values removed from under a key. -/
def removals (k : K) (events : List (Event K V)) : List V :=
  events.filterMap fun
    | .removed k' v => if k' = k then some v else none
    | _ => none

variable {k : K}

/-- An event that removes nothing from under a key leaves it alone or opens it. -/
theorem Map.opens_cons (m : Map K V) {event : Event K V} {rest : List (Event K V)}
    (kept : removals k (event :: rest) = []) :
    removals k rest = [] ∧
      ((m.after event).map k = m.map k ∧ opens k (event :: rest) = opens k rest ∨
        ∃ v created, event = .opened k v created ∧
          opens k (event :: rest) = (v, created) :: opens k rest) := by
  cases event with
  | found | refused => exact ⟨kept, .inl ⟨rfl, rfl⟩⟩
  | removed k' w =>
      have other : k' ≠ k := by
        rintro rfl
        simp [removals] at kept
      refine ⟨by simpa [removals, other] using kept, .inl ⟨?_, rfl⟩⟩
      exact Function.update_of_ne (Ne.symm other) _ _
  | opened k' w created =>
      by_cases same : k' = k
      · subst same
        exact ⟨kept, .inr ⟨w, created, rfl, by simp [opens]⟩⟩
      · exact ⟨kept, .inl ⟨m.map_opened_of_ne w created same, by simp [opens, same]⟩⟩

variable [DecidableEq V] {epoch : V → Nat} {events : List (Event K V)} {m final : Map K V}

/-- While a key is stored, every opening of it gives what is stored. -/
theorem opens_present {v : V} (executed : (system epoch).exec m events = some final)
    (kept : removals k events = []) (here : m.map k = some v) :
    final.map k = some v ∧ ∃ n, opens k events = List.replicate n (v, false) := by
  induction events generalizing m with
  | nil =>
      cases executed
      exact ⟨here, 0, rfl⟩
  | cons event rest ih =>
      obtain ⟨next, stepped, remaining⟩ := Option.bind_eq_some_iff.mp executed
      obtain ⟨allowed, rfl⟩ := (system_step epoch).mp stepped
      obtain ⟨kept, ⟨same, opened⟩ | ⟨w, created, rfl, opened⟩⟩ := m.opens_cons kept
      · rw [opened]
        exact ih remaining kept (same.trans here)
      · cases created with
        | true =>
            have absent := allowed.1
            rw [here] at absent
            cases absent
        | false =>
            have value : w = v := Option.some.inj (allowed.symm.trans here)
            obtain ⟨there, n, before⟩ := ih remaining kept here
            exact ⟨there, n + 1, by rw [opened, before, value]; rfl⟩

/-- Between two removals of a key, one opening of it creates a value, and every other
one gives that value. -/
theorem opens_absent (executed : (system epoch).exec m events = some final)
    (kept : removals k events = []) (here : m.map k = none) :
    (final.map k = none ∧ opens k events = []) ∨
    ∃ v n, final.map k = some v ∧ opens k events = (v, true) :: List.replicate n (v, false) := by
  induction events generalizing m with
  | nil =>
      cases executed
      exact .inl ⟨here, rfl⟩
  | cons event rest ih =>
      obtain ⟨next, stepped, remaining⟩ := Option.bind_eq_some_iff.mp executed
      obtain ⟨allowed, rfl⟩ := (system_step epoch).mp stepped
      obtain ⟨kept, ⟨same, opened⟩ | ⟨w, created, rfl, opened⟩⟩ := m.opens_cons kept
      · rw [opened]
        exact ih remaining kept (same.trans here)
      · cases created with
        | false =>
            rw [Map.Allows, here] at allowed
            cases allowed
        | true =>
            obtain ⟨there, n, before⟩ :=
              opens_present (v := w) remaining kept (Function.update_self _ _ _)
            exact .inr ⟨w, n, there, by rw [opened, before]⟩

end Openings

end Netx.Epoch
