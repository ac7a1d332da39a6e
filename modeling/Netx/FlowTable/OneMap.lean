import Netx.FlowTable.Numbers
import Netx.Epoch.Map
import Netx.Transition.Refinement

/-!
# The table as one map

The maps of the shards together are one map with epochs. Every step of a call shows
what the call found, stored or took out, and that is what the map allows.
-/

set_option autoImplicit false

namespace Netx.FlowTable

open Epoch (Event)

/-- A flow together with its identifier. -/
structure Ref where
  flow : Nat
  id : UInt64
  deriving DecidableEq, Repr

def Ref.epoch (ref : Ref) : Nat :=
  ref.id.toNat

section View

variable {K Call : Type} [DecidableEq K]

def Shared.ref (s : Shared K Call) (f : Nat) : Ref :=
  ⟨f, (s.flow f).id⟩

def Shared.lookup (t : Table K) (s : Shared K Call) (k : K) : Option Nat :=
  (s.shard (t.shard k)).m.lookup k

def Shared.issued (s : Shared K Call) : List (K × Ref) :=
  (List.range s.created).filterMap fun f => (s.key f).map fun k => (k, s.ref f)

def Shared.epochs (t : Table K) (s : Shared K Call) : Epoch.Map K Ref where
  map k := (s.lookup t k).map s.ref
  issued := s.issued

/-- What a step from one program point to another shows of the map. -/
def shown (s : Shared K Call) (act : Act K) (s' : Shared K Call) :
    Pc K → Pc K → List (Event K Ref)
  | .get k _, .returned (.got f) => [.found k (f.map s.ref)]
  | .get k _, .touchClock f _ => [.found k (some (s.ref f))]
  | .getOrOpen k _, .returned (.opened f created) => [.opened k (s.ref f) created]
  | .insert k _, .returned (.opened f created) => [.opened k (s'.ref f) created]
  | .remove k id, .returned (.removed _) => [.refused k id.toNat]
  | .removeDelete k f, _ => [.removed k (s.ref f)]
  | .rangeLocked _ rest, .inRange _ _ =>
      match act with
      | .visit k => [.found k ((rest.lookup k).map s.ref)]
      | _ => []
  | .scan _ _ _ found, .scan _ _ _ found' | .scanCas _ _ _ _ _ _ found, .scan _ _ _ found' =>
      (found'.drop found.length).map fun v => .removed v.1 (s.ref v.2)
  | .close _, .closing _ rest => rest.entries.map fun v => .removed v.1 (s.ref v.2)
  | _, _ => []

def World.shown (w : World K Call) (action : Action K Call) (next : World K Call) :
    List (Event K Ref) :=
  match action with
  | .call call act => FlowTable.shown w.shared act next.shared (w.pc call) (next.pc call)
  | .nextID => []

/-- The entries a `Range` has still to visit are those of the map. -/
def Pc.Lists (s : Shared K Call) : Pc K → Prop
  | .rangeLocked i rest | .inRange i rest =>
      ∀ k f, rest.lookup k = some f → (s.shard i).m.lookup k = some f
  | _ => True

end View

section Views

variable {K Call : Type} {s s' : Shared K Call}

private theorem issued_same (flows : s'.created = s.created ∧ s'.key = s.key)
    (ids : ∀ f < s.created, (s'.flow f).id = (s.flow f).id) : s'.issued = s.issued := by
  simp only [Shared.issued, flows.1, flows.2]
  refine List.filterMap_congr fun f member => ?_
  rw [Shared.ref, ids f (List.mem_range.mp member)]
  rfl

variable [DecidableEq K] {t : Table K}

theorem Shared.Filed.mem_issued (filed : s.Filed t) {k : K} {ref : Ref} :
    (k, ref) ∈ s.issued ↔ s.key ref.flow = some k ∧ ref = s.ref ref.flow := by
  simp only [Shared.issued, List.mem_filterMap, List.mem_range, Option.map_eq_some_iff,
    Prod.mk.injEq]
  constructor
  · rintro ⟨f, _, k', key, rfl, rfl⟩
    exact ⟨key, rfl⟩
  · rintro ⟨key, same⟩
    exact ⟨ref.flow, filed.lt_created key, k, key, rfl, same.symm⟩

theorem Shared.Filed.lookup_lt (filed : s.Filed t) {k : K} {f : Nat}
    (here : s.lookup t k = some f) : f < s.created :=
  filed.lt_created (filed.stored _ k f here).1

theorem Shared.Filed.lookup_map_ref (filed : s.Filed t)
    (ids : ∀ f < s.created, (s'.flow f).id = (s.flow f).id) (k : K) :
    (s.lookup t k).map s'.ref = (s.lookup t k).map s.ref := by
  cases here : s.lookup t k with
  | none => rfl
  | some f => simp [Shared.ref, ids f (filed.lookup_lt here)]

theorem Shared.Filed.epochs_same (filed : s.Filed t)
    (maps : ∀ i, (s'.shard i).m = (s.shard i).m)
    (flows : s'.created = s.created ∧ s'.key = s.key)
    (ids : ∀ f < s.created, (s'.flow f).id = (s.flow f).id) : s'.epochs t = s.epochs t := by
  have same : s'.lookup t = s.lookup t := by
    funext k
    rw [Shared.lookup, maps]
    rfl
  simp only [Shared.epochs, same, issued_same flows ids, filed.lookup_map_ref ids]

theorem Shared.Filed.epochs_insert (filed : s.Filed t) (k : K) (id : UInt64) :
    (s.insert t k id).epochs t =
      (s.epochs t).after (.opened k ((s.insert t k id).ref s.created) true) := by
  have old := fun {f : Nat} before => Shared.insert_old (t := t) (s := s) k id (f := f) before
  have maps : ∀ k', (s.insert t k id).lookup t k' =
      if k' = k then some s.created else s.lookup t k' := by
    intro k'
    rw [Shared.lookup, Shared.insert_m]
    by_cases same : k' = k
    · rw [same, if_pos rfl, if_pos rfl, AList.lookup_insert]
    · rw [if_neg same, Shared.lookup]
      split
      · rename_i here
        rw [AList.lookup_insert_ne same, here]
      · rfl
  simp only [Shared.epochs, Epoch.Map.after, Epoch.Map.mk.injEq]
  constructor
  · funext k'
    rw [maps, Function.update_apply]
    split
    · rfl
    · exact filed.lookup_map_ref (fun f before => by rw [(old before).1]) k'
  · simp only [Shared.issued]
    rw [show (s.insert t k id).created = s.created + 1 from rfl, List.range_succ,
      List.filterMap_append]
    congr 1
    · refine List.filterMap_congr fun f member => ?_
      have before := old (List.mem_range.mp member)
      rw [before.2, Shared.ref, before.1]
      rfl
    · simp [(s.insert_new (t := t) k id).2]

theorem Shared.Filed.shows_takes (filed : s.Filed t) {j : Nat} {victims : List (Victim K)}
    (distinct : (victims.map Sigma.fst).Nodup)
    (present : ∀ v ∈ victims, (s.shard j).m.lookup v.1 = some v.2)
    (maps : ∀ i k, (s'.shard i).m.lookup k =
      if i = j ∧ k ∈ victims.map Sigma.fst then none else (s.shard i).m.lookup k)
    (flows : s'.created = s.created ∧ s'.key = s.key)
    (ids : ∀ f < s.created, (s'.flow f).id = (s.flow f).id) :
    (Epoch.system Ref.epoch).exec (s.epochs t)
      (victims.map fun v => .removed v.1 (s.ref v.2)) = some (s'.epochs t) := by
  have place : ∀ v ∈ victims, t.shard v.1 = j := fun v member =>
    (filed.stored j v.1 v.2 (present v member)).2
  have stored : ∀ v ∈ victims, (s.epochs t).map v.1 = some (s.ref v.2) := by
    intro v member
    simp only [Shared.epochs, Shared.lookup, place v member, present v member, Option.map_some]
  have same : ∀ k, s'.lookup t k =
      if k ∈ victims.map Sigma.fst then none else s.lookup t k := by
    intro k
    rw [Shared.lookup, maps]
    by_cases taken : k ∈ victims.map Sigma.fst
    · obtain ⟨v, member, rfl⟩ := List.mem_map.mp taken
      rw [if_pos ⟨place v member, taken⟩, if_pos taken]
    · rw [if_neg fun both => taken both.2, if_neg taken]
      rfl
  rw [Epoch.exec_removals Sigma.fst (fun v => s.ref v.2) distinct stored]
  simp only [Shared.epochs, issued_same flows ids, same, Option.some.injEq,
    Epoch.Map.mk.injEq, and_true]
  funext k
  split
  · rfl
  · exact (filed.lookup_map_ref ids k).symm

theorem Shared.Filed.shows_delete (filed : s.Filed t) {j : Nat} {k : K} {f : Nat}
    (present : (s.shard j).m.lookup k = some f)
    (maps : ∀ i, (s'.shard i).m =
      if i = j then (s.shard j).m.erase k else (s.shard i).m)
    (flows : s'.created = s.created ∧ s'.key = s.key)
    (ids : ∀ f < s.created, (s'.flow f).id = (s.flow f).id) :
    (Epoch.system Ref.epoch).exec (s.epochs t) [.removed k (s.ref f)] = some (s'.epochs t) := by
  have single : ∀ v ∈ [(⟨k, f⟩ : Victim K)], (s.shard j).m.lookup v.1 = some v.2 := by
    intro v member
    rw [List.mem_singleton.mp member]
    exact present
  have distinct : ([(⟨k, f⟩ : Victim K)].map Sigma.fst).Nodup := List.nodup_singleton k
  exact filed.shows_takes distinct single (lookup_delete maps) flows ids

end Views

section Calls

variable {K Call : Type} [DecidableEq K] {t : Table K} {call : Call} {s s' : Shared K Call}
  {pc pc' : Pc K} {act : Act K}

theorem Moves.lists (lists : pc.Lists s) (moved : Moves t call s pc act s' pc') :
    pc'.Lists s' := by
  cases moved with
  | call op => cases op <;> trivial
  | range i =>
      intro k f present
      rwa [Shared.lock_m]
  | rangeVisit i rest k => exact fun k' f' present => (lookup_of_erase lists present).2
  | rangeAgain => exact lists
  | closedUnset stage k f after | onCloseReturns k f after => cases after <;> trivial
  | _ => trivial

theorem Pc.Lists.congr (lists : pc.Lists s)
    (same : ∀ i, pc.locks t = some i → (s'.shard i).m = (s.shard i).m) : pc.Lists s' := by
  cases pc with
  | rangeLocked | inRange =>
      simp only [Pc.Lists, same _ rfl]
      exact lists
  | _ => trivial

/-- What a step shows is what the map allows. -/
theorem Moves.shows (filed : s.Filed t) (guards : pc.Guards t s) (lists : pc.Lists s)
    (fresh : ∀ k id, pc.drawn = some (k, id) → 0 < id.toNat ∧ ∀ f < s.created,
      (s.flow f).id.toNat ≠ id.toNat ∧ (s.key f = some k → (s.flow f).id.toNat < id.toNat))
    (moved : Moves t call s pc act s' pc') :
    (Epoch.system Ref.epoch).exec (s.epochs t) (shown s act s' pc pc') =
      some (s'.epochs t) := by
  have ids : ∀ f < s.created, (s'.flow f).id = (s.flow f).id :=
    fun f old => (moved.flow_forward old).id
  have quiet : (∀ i, (s'.shard i).m = (s.shard i).m) →
      s'.created = s.created ∧ s'.key = s.key → s'.epochs t = s.epochs t :=
    fun maps flows => filed.epochs_same maps flows ids
  have one : ∀ event : Event K Ref, (s.epochs t).Allows Ref.epoch event →
      (s.epochs t).after event = s'.epochs t →
      (Epoch.system Ref.epoch).exec (s.epochs t) [event] = some (s'.epochs t) := by
    intro event allowed same
    rw [Transition.System.exec_cons, (Epoch.system_step Ref.epoch).mpr ⟨allowed, same⟩]
    rfl
  cases moved with
  | getMissed k touch free absent =>
      refine one (.found k none) ?_ rfl
      simp [Epoch.Map.Allows, Shared.epochs, Shared.lookup, absent]
  | get k f free present | getTouch k f free present =>
      refine one (.found k (some (s.ref f))) ?_ rfl
      simp [Epoch.Map.Allows, Shared.epochs, Shared.lookup, present]
  | openFound k newValue f free present =>
      refine one (.opened k (s.ref f) false) ?_ rfl
      simp [Epoch.Map.Allows, Shared.epochs, Shared.lookup, present]
  | insert k id =>
      refine one (.opened k ((s.insert t k id).ref s.created) true) ?_
        (filed.epochs_insert k id).symm
      obtain ⟨positive, earlier⟩ := fresh k id rfl
      have absent : s.lookup t k = none := guards
      have own : Ref.epoch ((s.insert t k id).ref s.created) = id.toNat :=
        congrArg UInt64.toNat (s.insert_new k id).1
      refine ⟨by simp [Shared.epochs, absent], own ▸ positive, ?_⟩
      rintro ⟨k', ref⟩ issued
      obtain ⟨key, same⟩ := filed.mem_issued.mp issued
      have known := earlier ref.flow (filed.lt_created key)
      rw [own, same]
      refine ⟨known.1, fun here => known.2 ?_⟩
      subst here
      exact key
  | removeMissed k id free other =>
      refine one (.refused k id.toNat) ?_ rfl
      cases here : s.lookup t k with
      | none => simp [Epoch.Map.Allows, Shared.epochs, here]
      | some f =>
          have different := other f here
          simp only [Epoch.Map.Allows, Shared.epochs, here, Option.map_some, ne_eq,
            Option.some.injEq]
          exact fun same => different (UInt64.toNat_inj.mp same)
  | removeDelete k f =>
      refine filed.shows_delete guards (fun i => ?_) ⟨rfl, rfl⟩ ids
      rw [Shared.unlock_m, Shared.delete_m]
  | rangeVisit i rest k f present =>
      obtain ⟨_, rfl⟩ := filed.stored i k f (lists k f present)
      refine one (.found k ((rest.lookup k).map s.ref)) ?_ rfl
      simp [Epoch.Map.Allows, Shared.epochs, Shared.lookup, present, lists k f present]
  | scanKept cutoff i rest victims =>
      simp [shown]
  | casKept cutoff i k f v rest victims flow =>
      simp only [shown, List.drop_length]
      exact congrArg some (quiet (fun _ => rfl) ⟨rfl, rfl⟩).symm
  | scanExpired cutoff i rest victims k f present =>
      simp only [shown, List.drop_left]
      exact filed.shows_delete (guards k f present) (fun _ => s.delete_m _ _ _ _ _) ⟨rfl, rfl⟩ ids
  | casExpired cutoff i k f v rest victims flow =>
      simp only [shown, List.drop_left]
      exact filed.shows_delete (guards.2 k f guards.1)
        (fun _ => (s.setFlow f flow).delete_m _ _ _ _ _) ⟨rfl, rfl⟩ ids
  | close i =>
      exact filed.shows_takes (s.shard i).m.nodupKeys (fun _ member => mem_entries.mp member)
        (lookup_takeAll fun _ => s.takeAll_m _ _ _) ⟨rfl, rfl⟩ ids
  | openAbsent | openNew | remove | range | sweep =>
      exact congrArg some (quiet (fun _ => s.lock_m _ _ _) ⟨rfl, rfl⟩).symm
  | newValuePanics | rangeNext | rangeStops | rangePanics | scanNext =>
      exact congrArg some (quiet (fun _ => s.unlock_m _ _) ⟨rfl, rfl⟩).symm
  | _ => exact congrArg some (quiet (fun _ => rfl) ⟨rfl, rfl⟩).symm

end Calls

section Runs

variable {K Call : Type} [DecidableEq K] {t : Table K}

/-- What holds in every world of a run that does not wrap the counter. -/
structure World.Ordered (t : Table K) (w : World K Call) : Prop where
  guarded : w.Guarded t
  filed : w.shared.Filed t
  numbered : w.Numbered
  lists : ∀ call, (w.pc call).Lists w.shared

theorem World.Ordered.start (now : Int) (lastID : UInt64) :
    (World.start now lastID : World K Call).Ordered t where
  guarded := .start now lastID
  filed := .start now lastID
  numbered := .start now lastID
  lists _ := trivial

variable [DecidableEq Call] {w next : World K Call} {action : Action K Call}

theorem World.Ordered.step (ordered : w.Ordered t) (left : unspent w action = true)
    (stepped : w.step t action = some next) : next.Ordered t := by
  have guarded := ordered.guarded.step stepped
  have numbered := ordered.numbered.step ordered.guarded left stepped
  rcases World.step_cases stepped with ⟨call, act, shared, pc, rfl, moved, rfl⟩ | ⟨rfl, rfl⟩
  · have filed := ordered.filed.edits (moved.edits (ordered.guarded.guards call))
    refine ⟨guarded, filed, numbered, fun other => ?_⟩
    simp only [Function.update_apply]
    split_ifs with acting
    · subst acting
      exact moved.lists (ordered.lists other)
    · exact (ordered.lists other).congr fun i locked =>
        ordered.guarded.map_stays moved acting locked
  · exact ⟨guarded, ⟨ordered.filed.stored, ordered.filed.created⟩, numbered,
      fun call => (ordered.lists call).congr (t := t) fun _ _ => rfl⟩

theorem World.Ordered.shows (ordered : w.Ordered t) (stepped : w.step t action = some next) :
    (Epoch.system Ref.epoch).exec (w.shared.epochs t) (w.shown action next) =
      some (next.shared.epochs t) := by
  rcases World.step_cases stepped with ⟨call, act, shared, pc, rfl, moved, rfl⟩ | ⟨rfl, rfl⟩
  · have shows := moved.shows ordered.filed (ordered.guarded.guards call) (ordered.lists call)
      fun k id drawn => ⟨(ordered.numbered.drawn call k id drawn).1,
        (ordered.numbered.drawn call k id drawn).2.2⟩
    simpa only [World.shown, Function.update_self] using shows
  · exact congrArg some (ordered.filed.epochs_same (fun _ => rfl) ⟨rfl, rfl⟩ fun _ _ => rfl).symm

end Runs

end Netx.FlowTable
