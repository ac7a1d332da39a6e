import Netx.FlowTable.Locks

/-!
# Leaving the table

What a step means for the flows that come, leave and are reported. Under the lock
of its shard a flow is taken out by one call, which keeps it until it has called
`OnClose` for it.
-/

set_option autoImplicit false

namespace Netx.FlowTable

section Pending

variable {K : Type}

def After.pending : After K → List (Victim K)
  | .remove => []
  | .sweep rest _ => rest
  | .close _ rest => rest.entries

/-- The flows the call has taken out of the table and not yet reported. -/
def Pc.pending : Pc K → List (Victim K)
  | .sweep _ _ found | .scan _ _ _ found | .scanCas _ _ _ _ _ _ found => found
  | .victims rest _ => rest
  | .closing _ rest => rest.entries
  | .closed _ k f after | .onClose k f after => ⟨k, f⟩ :: after.pending
  | .inOnClose _ _ after => after.pending
  | _ => []

/-- The flows a call names together with their keys. -/
def Pc.named : Pc K → List (Victim K)
  | .inOnClose k f after => ⟨k, f⟩ :: after.pending
  | pc => pc.pending

theorem Pc.pending_subset (pc : Pc K) : pc.pending ⊆ pc.named := by
  cases pc with
  | inOnClose k f after => exact List.subset_cons_self _ _
  | _ => exact List.Subset.refl _

theorem After.next_pending (after : After K) : after.next.pending = after.pending := by
  cases after <;> rfl

theorem After.next_named (after : After K) : after.next.named = after.pending := by
  cases after <;> rfl

variable {m : Flows K}

theorem mem_entries [DecidableEq K] {v : Victim K} : v ∈ m.entries ↔ m.lookup v.1 = some v.2 :=
  AList.mem_lookup_iff.symm

theorem entries_perm_erase [DecidableEq K] {k : K} {f : Nat} (present : m.lookup k = some f) :
    m.entries.Perm (⟨k, f⟩ :: (m.erase k).entries) := by
  have absent : (⟨k, f⟩ : Victim K) ∉ (m.erase k).entries := by
    rw [mem_entries, AList.lookup_erase]
    exact nofun
  refine (List.perm_ext_iff_of_nodup m.nodupKeys.nodup
    (List.nodup_cons.mpr ⟨absent, (m.erase k).nodupKeys.nodup⟩)).mpr ?_
  rintro ⟨k', f'⟩
  rw [List.mem_cons, mem_entries, mem_entries]
  by_cases same : k' = k
  · subst same
    rw [present, AList.lookup_erase]
    simp [eq_comm]
  · rw [AList.lookup_erase_ne same]
    simp [same]

private theorem entries_of_keys_nil (empty : m.keys = []) : m.entries = [] :=
  List.map_eq_nil_iff.mp empty

end Pending

section Calls

variable {K Call : Type} [DecidableEq K] {t : Table K} {call : Call} {s s' : Shared K Call}
  {pc pc' : Pc K} {act : Act K}

/-- What a step does to the flows in the table and to those that have left. -/
inductive Passes (t : Table K) (call : Call) (s : Shared K Call) (pc : Pc K)
    (s' : Shared K Call) (pc' : Pc K) : Prop where
  | quiet : (∀ i, (s'.shard i).m = (s.shard i).m) →
      (s'.created = s.created ∧ s'.key = s.key) →
      (s'.removed = s.removed ∧ s'.reports = s.reports) →
      pc'.pending.Perm pc.pending → pc'.named ⊆ pc.named → Passes t call s pc s' pc'
  | opens (k : K) : (s.shard (t.shard k)).m.lookup k = none →
      (∀ i, (s'.shard i).m = if i = t.shard k then
        (s.shard (t.shard k)).m.insert k s.created else (s.shard i).m) →
      (s'.created = s.created + 1 ∧ s'.key = Function.update s.key s.created (some k)) →
      (s'.removed = s.removed ∧ s'.reports = s.reports) →
      (pc'.pending = pc.pending ∧ pc'.named = pc.named) → Passes t call s pc s' pc'
  | takes (j : Nat) (victims : List (Victim K)) : (victims.map Sigma.fst).Nodup →
      (∀ v ∈ victims, (s.shard j).m.lookup v.1 = some v.2) →
      (∀ i k, (s'.shard i).m.lookup k =
        if i = j ∧ k ∈ victims.map Sigma.fst then none else (s.shard i).m.lookup k) →
      (s'.created = s.created ∧ s'.key = s.key) →
      (s'.removed = s.removed ++ victims.map (fun v => (v.2, call)) ∧
        s'.reports = s.reports) →
      pc'.pending = pc.pending ++ victims → pc'.named = pc.named ++ victims →
      Passes t call s pc s' pc'
  | reports (k : K) (f : Nat) : (∀ i, (s'.shard i).m = (s.shard i).m) →
      (s'.created = s.created ∧ s'.key = s.key) →
      (s'.removed = s.removed ∧ s'.reports = s.reports ++ [(k, f)]) →
      pc.pending = ⟨k, f⟩ :: pc'.pending → pc'.named = pc.named → Passes t call s pc s' pc'

theorem Passes.idle (maps : ∀ i, (s'.shard i).m = (s.shard i).m)
    (flows : s'.created = s.created ∧ s'.key = s.key)
    (history : s'.removed = s.removed ∧ s'.reports = s.reports)
    (pending : pc'.pending = pc.pending) (named : pc'.named = pc.named) :
    Passes t call s pc s' pc' :=
  .quiet maps flows history (pending ▸ .refl _) (named ▸ List.Subset.refl _)

variable {j : Nat}

/-- One entry is taken out. -/
theorem lookup_delete {k : K} {f : Nat} (maps : ∀ i, (s'.shard i).m =
      if i = j then (s.shard j).m.erase k else (s.shard i).m) (i : Nat) (k' : K) :
    (s'.shard i).m.lookup k' =
      if i = j ∧ k' ∈ [(⟨k, f⟩ : Victim K)].map Sigma.fst then none
      else (s.shard i).m.lookup k' := by
  rw [maps]
  by_cases here : i = j
  · subst here
    by_cases same : k' = k
    · subst same
      simp [AList.lookup_erase]
    · simp [same, AList.lookup_erase_ne same]
  · simp [here]

/-- The whole map of a shard is taken out. -/
theorem lookup_takeAll (maps : ∀ i, (s'.shard i).m = if i = j then ∅ else (s.shard i).m) (i : Nat)
    (k : K) :
    (s'.shard i).m.lookup k =
      if i = j ∧ k ∈ (s.shard j).m.entries.map Sigma.fst then none
      else (s.shard i).m.lookup k := by
  rw [maps]
  by_cases here : i = j
  · subst here
    have keys : k ∈ (s.shard i).m.entries.map Sigma.fst ↔
        ((s.shard i).m.lookup k).isSome = true := AList.lookup_isSome.symm
    rw [if_pos rfl, AList.lookup_empty]
    by_cases present : k ∈ (s.shard i).m.entries.map Sigma.fst
    · rw [if_pos ⟨rfl, present⟩]
    · rw [if_neg fun both => present both.2]
      rw [keys, Option.isSome_iff_ne_none, not_not] at present
      exact present.symm
  · rw [if_neg here, if_neg fun both => here both.1]

theorem Passes.take {k : K} {f : Nat} (present : (s.shard j).m.lookup k = some f)
    (maps : ∀ i, (s'.shard i).m =
      if i = j then (s.shard j).m.erase k else (s.shard i).m)
    (flows : s'.created = s.created ∧ s'.key = s.key)
    (history : s'.removed = s.removed ++ [(f, call)] ∧ s'.reports = s.reports)
    (pending : pc'.pending = pc.pending ++ [⟨k, f⟩]) (named : pc'.named = pc.named ++ [⟨k, f⟩]) :
    Passes t call s pc s' pc' := by
  refine .takes j [⟨k, f⟩] (List.nodup_singleton k) ?_ (lookup_delete maps) flows history
    pending named
  intro v member
  rw [List.mem_singleton.mp member]
  exact present

theorem Passes.takeAll (maps : ∀ i, (s'.shard i).m = if i = j then ∅ else (s.shard i).m)
    (flows : s'.created = s.created ∧ s'.key = s.key) (history : s'.removed =
      s.removed ++ (s.shard j).m.entries.map (fun v => (v.2, call)) ∧ s'.reports = s.reports)
    (pending : pc'.pending = pc.pending ++ (s.shard j).m.entries)
    (named : pc'.named = pc.named ++ (s.shard j).m.entries) : Passes t call s pc s' pc' :=
  .takes j _ (s.shard j).m.nodupKeys (fun _ member => mem_entries.mp member)
    (lookup_takeAll maps) flows history pending named

theorem Moves.passes (set : t.onClose = true) (guards : pc.Guards t s)
    (returns : pc.calm act = true) (moved : Moves t call s pc act s' pc') :
    Passes t call s pc s' pc' := by
  cases moved with
  | call op => cases op <;> exact .idle (fun _ => rfl) ⟨rfl, rfl⟩ ⟨rfl, rfl⟩ rfl rfl
  | openAbsent | openNew | remove | range | sweep =>
      exact .idle (fun _ => s.lock_m _ _ _) ⟨rfl, rfl⟩ ⟨rfl, rfl⟩ rfl rfl
  | newValuePanics | rangeNext | rangeStops | rangePanics | scanNext =>
      exact .idle (fun _ => s.unlock_m _ _) ⟨rfl, rfl⟩ ⟨rfl, rfl⟩ rfl rfl
  | insert k id =>
      exact .opens k guards (fun i => s.insert_m i k t id) ⟨rfl, rfl⟩ ⟨rfl, rfl⟩ ⟨rfl, rfl⟩
  | removeDelete k f =>
      refine .take guards (fun i => ?_) ⟨rfl, rfl⟩ ⟨rfl, rfl⟩ rfl rfl
      rw [Shared.unlock_m, Shared.delete_m]
  | scanExpired cutoff i rest victims k f present =>
      exact .take (guards k f present) (fun _ => s.delete_m _ _ _ _ _) ⟨rfl, rfl⟩ ⟨rfl, rfl⟩
        rfl rfl
  | casExpired cutoff i k f v rest victims flow =>
      exact .take (guards.2 k f guards.1) (fun _ => (s.setFlow f flow).delete_m _ _ _ _ _)
        ⟨rfl, rfl⟩ ⟨rfl, rfl⟩ rfl rfl
  | close i => exact .takeAll (fun _ => s.takeAll_m _ _ _) ⟨rfl, rfl⟩ ⟨rfl, rfl⟩ rfl rfl
  | closeNext i rest empty =>
      have none := entries_of_keys_nil empty
      exact .idle (fun _ => rfl) ⟨rfl, rfl⟩ ⟨rfl, rfl⟩ none.symm none.symm
  | closeVisit i rest k f present =>
      have order := entries_perm_erase present
      exact .quiet (fun _ => rfl) ⟨rfl, rfl⟩ ⟨rfl, rfl⟩ order.symm order.symm.subset
  | closedUnset stage k f after flow result swapped unset =>
      rw [set] at unset
      cases unset
  | onClose k f after => exact .reports k f (fun _ => rfl) ⟨rfl, rfl⟩ ⟨rfl, rfl⟩ rfl rfl
  | onCloseReturns k f after =>
      refine .quiet (fun _ => rfl) ⟨rfl, rfl⟩ ⟨rfl, rfl⟩ ?_ ?_
      · rw [after.next_pending]
        exact .refl _
      · rw [after.next_named]
        exact List.subset_cons_self _ _
  | onClosePanics => cases returns
  | _ => exact .idle (fun _ => rfl) ⟨rfl, rfl⟩ ⟨rfl, rfl⟩ rfl rfl

end Calls

end Netx.FlowTable
