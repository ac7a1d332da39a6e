import Netx.FlowTable.Leaving

/-!
# Editing the maps

What a step does to the maps of the shards, whatever becomes of the flows it takes
out. A key is stored in its own shard only, and a flow under one key only.
-/

set_option autoImplicit false

namespace Netx.FlowTable

theorem Table.shard_lt {K : Type} (t : Table K) (k : K) : t.shard k < t.size := by
  obtain ⟨e, size⟩ := t.power
  have positive : 0 < t.size := size ▸ Nat.two_pow_pos e
  exact Nat.lt_of_le_of_lt Nat.and_le_right (Nat.sub_lt positive Nat.one_pos)

section Edits

variable {K Call : Type} [DecidableEq K] {t : Table K} {call : Call} {s s' : Shared K Call}
  {pc pc' : Pc K} {act : Act K}

/-- What a step does to the maps and to the flows that exist. -/
inductive Edits (t : Table K) (s s' : Shared K Call) : Prop where
  | same : (∀ i, (s'.shard i).m = (s.shard i).m) →
      (s'.created = s.created ∧ s'.key = s.key) → Edits t s s'
  | opens (k : K) : (s.shard (t.shard k)).m.lookup k = none →
      (∀ i, (s'.shard i).m = if i = t.shard k then
        (s.shard (t.shard k)).m.insert k s.created else (s.shard i).m) →
      (s'.created = s.created + 1 ∧ s'.key = Function.update s.key s.created (some k)) →
      Edits t s s'
  | takes (j : Nat) (victims : List (Victim K)) : (victims.map Sigma.fst).Nodup →
      (∀ v ∈ victims, (s.shard j).m.lookup v.1 = some v.2) →
      (∀ i k, (s'.shard i).m.lookup k =
        if i = j ∧ k ∈ victims.map Sigma.fst then none else (s.shard i).m.lookup k) →
      (s'.created = s.created ∧ s'.key = s.key) → Edits t s s'

theorem Edits.take {j : Nat} {k : K} {f : Nat} (present : (s.shard j).m.lookup k = some f)
    (maps : ∀ i, (s'.shard i).m =
      if i = j then (s.shard j).m.erase k else (s.shard i).m)
    (flows : s'.created = s.created ∧ s'.key = s.key) : Edits t s s' := by
  refine .takes j [⟨k, f⟩] (List.nodup_singleton k) ?_ (lookup_delete maps) flows
  intro v member
  rw [List.mem_singleton.mp member]
  exact present

theorem Passes.edits (passes : Passes t call s pc s' pc') : Edits t s s' := by
  cases passes with
  | quiet maps flows | reports _ _ maps flows => exact .same maps flows
  | opens k absent maps flows => exact .opens k absent maps flows
  | takes j victims distinct present maps flows =>
      exact .takes j victims distinct present maps flows

theorem Moves.edits (guards : pc.Guards t s) (moved : Moves t call s pc act s' pc') :
    Edits t s s' := by
  cases moved with
  | openAbsent | openNew | remove | range | sweep =>
      exact .same (fun _ => s.lock_m _ _ _) ⟨rfl, rfl⟩
  | newValuePanics | rangeNext | rangeStops | rangePanics | scanNext =>
      exact .same (fun _ => s.unlock_m _ _) ⟨rfl, rfl⟩
  | insert k id => exact .opens k guards (fun i => s.insert_m i k t id) ⟨rfl, rfl⟩
  | removeDelete k f =>
      refine .take guards (fun i => ?_) ⟨rfl, rfl⟩
      rw [Shared.unlock_m, Shared.delete_m]
  | scanExpired cutoff i rest victims k f present =>
      exact .take (guards k f present) (fun _ => s.delete_m _ _ _ _ _) ⟨rfl, rfl⟩
  | casExpired cutoff i k f v rest victims flow =>
      exact .take (guards.2 k f guards.1) (fun _ => (s.setFlow f flow).delete_m _ _ _ _ _)
        ⟨rfl, rfl⟩
  | close i =>
      exact .takes i _ (s.shard i).m.nodupKeys (fun _ member => mem_entries.mp member)
        (lookup_takeAll fun _ => s.takeAll_m _ _ _) ⟨rfl, rfl⟩
  | _ => exact .same (fun _ => rfl) ⟨rfl, rfl⟩

theorem Edits.created_le (edits : Edits t s s') : s.created ≤ s'.created := by
  cases edits with
  | same _ flows | takes _ _ _ _ _ flows => exact Nat.le_of_eq flows.1.symm
  | opens _ _ _ flows => exact flows.1 ▸ Nat.le_succ _

end Edits

section Filing

variable {K Call : Type} [DecidableEq K] {t : Table K} {s s' : Shared K Call}

def Shared.Stored (s : Shared K Call) (f : Nat) : Prop :=
  ∃ i k, (s.shard i).m.lookup k = some f

structure Shared.Filed (t : Table K) (s : Shared K Call) : Prop where
  stored : ∀ i k f, (s.shard i).m.lookup k = some f → s.key f = some k ∧ t.shard k = i
  created : ∀ f, s.key f ≠ none ↔ f < s.created

theorem Shared.Filed.start (now : Int) (lastID : UInt64) :
    (World.start now lastID : World K Call).shared.Filed t where
  stored _ _ _ := nofun
  created _ := iff_of_false (fun present => present rfl) (Nat.not_lt_zero _)

variable {k : K} {f j : Nat}

theorem Shared.Filed.lt_created (filed : s.Filed t) (known : s.key f = some k) : f < s.created := by
  rw [← filed.created, known]
  exact Option.some_ne_none k

/-- Keys are given once. -/
theorem Shared.Filed.key_stays (filed : s.Filed t) (edits : Edits t s s')
    (known : s.key f = some k) :
    s'.key f = some k := by
  cases edits with
  | same _ flows | takes _ _ _ _ _ flows => rw [flows.2, known]
  | opens k' _ _ flows =>
      have old : f ≠ s.created := Nat.ne_of_lt (filed.lt_created known)
      rw [flows.2, Function.update_of_ne old, known]

theorem Shared.Filed.edits (filed : s.Filed t) (edits : Edits t s s') : s'.Filed t := by
  have stays := fun {f : Nat} {k : K} => filed.key_stays edits (f := f) (k := k)
  constructor
  · intro i k f present
    have before : (s.shard i).m.lookup k = some f → s'.key f = some k ∧ t.shard k = i :=
      fun here => ⟨stays (filed.stored i k f here).1, (filed.stored i k f here).2⟩
    cases edits with
    | same maps => exact before (by rwa [← maps])
    | takes j victims _ _ maps =>
        rw [maps] at present
        split at present
        · cases present
        · exact before present
    | opens k' absent maps flows =>
        rw [maps] at present
        split at present
        · rename_i here
          by_cases same : k = k'
          · subst same
            rw [AList.lookup_insert] at present
            cases present
            exact ⟨by rw [flows.2, Function.update_self], here.symm⟩
          · rw [AList.lookup_insert_ne same, ← here] at present
            exact before present
        · exact before present
  · intro f
    cases edits with
    | same _ flows | takes _ _ _ _ _ flows =>
        rw [flows.1, flows.2]
        exact filed.created f
    | opens k _ _ flows =>
        rw [flows.1, flows.2, Nat.lt_succ_iff_lt_or_eq, ← filed.created f]
        by_cases new : f = s.created
        · simp [new]
        · simp [new]

theorem Shared.Filed.not_stored (filed : s.Filed t) (known : s.key f = some k)
    (absent : (s.shard (t.shard k)).m.lookup k = none) : ¬s.Stored f := by
  rintro ⟨i, k', present⟩
  obtain ⟨known', rfl⟩ := filed.stored i k' f present
  obtain rfl : k = k' := Option.some.inj (known.symm.trans known')
  rw [absent] at present
  cases present

theorem stored_same (maps : ∀ i, (s'.shard i).m = (s.shard i).m) (f : Nat) :
    s'.Stored f ↔ s.Stored f := by
  simp only [Shared.Stored, maps]

theorem Shared.Filed.stored_takes (filed : s.Filed t) {victims : List (Victim K)}
    (present : ∀ v ∈ victims, (s.shard j).m.lookup v.1 = some v.2)
    (maps : ∀ i k, (s'.shard i).m.lookup k =
      if i = j ∧ k ∈ victims.map Sigma.fst then none else (s.shard i).m.lookup k) (f : Nat) :
    s'.Stored f ↔ s.Stored f ∧ f ∉ victims.map Sigma.snd := by
  constructor
  · rintro ⟨i, k, here⟩
    rw [maps] at here
    split at here
    · cases here
    · rename_i outside
      refine ⟨⟨i, k, here⟩, fun taken => outside ?_⟩
      obtain ⟨v, member, rfl⟩ := List.mem_map.mp taken
      obtain ⟨key, place⟩ := filed.stored i k v.2 here
      obtain ⟨key', place'⟩ := filed.stored j v.1 v.2 (present v member)
      obtain rfl : k = v.1 := Option.some.inj (key.symm.trans key')
      exact ⟨place.symm.trans place', List.mem_map_of_mem member⟩
  · rintro ⟨⟨i, k, here⟩, kept⟩
    refine ⟨i, k, ?_⟩
    rw [maps, if_neg, here]
    rintro ⟨rfl, taken⟩
    obtain ⟨v, member, rfl⟩ := List.mem_map.mp taken
    refine kept (List.mem_map.mpr ⟨v, member, ?_⟩)
    exact Option.some.inj ((present v member).symm.trans here)

theorem Shared.Filed.stored_delete (filed : s.Filed t) {g : Nat}
    (present : (s.shard j).m.lookup k = some g) (maps : ∀ i, (s'.shard i).m =
      if i = j then (s.shard j).m.erase k else (s.shard i).m) (f : Nat) :
    s'.Stored f ↔ s.Stored f ∧ f ≠ g := by
  have single : ∀ v ∈ [(⟨k, g⟩ : Victim K)], (s.shard j).m.lookup v.1 = some v.2 := by
    intro v member
    rw [List.mem_singleton.mp member]
    exact present
  simpa using filed.stored_takes single (lookup_delete maps) f

theorem Shared.Filed.victims_distinct (filed : s.Filed t) {victims : List (Victim K)}
    (distinct : (victims.map Sigma.fst).Nodup)
    (present : ∀ v ∈ victims, (s.shard j).m.lookup v.1 = some v.2) :
    (victims.map Sigma.snd).Nodup := by
  refine List.Nodup.map_on ?_ distinct.of_map
  intro v member v' member' same
  have key := (filed.stored j v.1 v.2 (present v member)).1
  have key' := (filed.stored j v'.1 v'.2 (present v' member')).1
  rw [same, key'] at key
  exact Sigma.ext (Option.some.inj key).symm (heq_of_eq same)

theorem Shared.Filed.stored_opens (filed : s.Filed t)
    (absent : (s.shard (t.shard k)).m.lookup k = none)
    (maps : ∀ i, (s'.shard i).m = if i = t.shard k then
      (s.shard (t.shard k)).m.insert k s.created else (s.shard i).m) (f : Nat) :
    s'.Stored f ↔ f = s.created ∨ s.Stored f := by
  constructor
  · rintro ⟨i, k', here⟩
    rw [maps] at here
    split at here
    · by_cases same : k' = k
      · subst same
        rw [AList.lookup_insert] at here
        exact .inl (Option.some.inj here).symm
      · rw [AList.lookup_insert_ne same] at here
        exact .inr ⟨_, k', here⟩
    · exact .inr ⟨i, k', here⟩
  · rintro (rfl | ⟨i, k', here⟩)
    · refine ⟨t.shard k, k, ?_⟩
      rw [maps, if_pos rfl, AList.lookup_insert]
    · have other : k' ≠ k := by
        rintro rfl
        rw [(filed.stored i k' f here).2, here] at absent
        cases absent
      refine ⟨i, k', ?_⟩
      rw [maps]
      split
      · rename_i same
        rw [AList.lookup_insert_ne other, ← same, here]
      · exact here

end Filing

end Netx.FlowTable
