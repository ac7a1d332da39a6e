import Netx.FlowTable.Table

/-!
# Shard locks

One call at a time is between the lock and the unlock of a shard. What it has
seen in the map of the shard there stays true until it changes the map itself.
-/

set_option autoImplicit false

namespace Netx.FlowTable

section Fields

variable {K Call : Type} (s : Shared K Call) (i j : Nat) (call : Call)

theorem Shared.setShard_shard (shard : Shard K Call) :
    (s.setShard j shard).shard i = if i = j then shard else s.shard i :=
  Function.update_apply s.shard j shard i

@[simp] theorem Shared.lock_mu : ((s.lock j call).shard i).mu =
    if i = j then some call else (s.shard i).mu := by
  rw [Shared.lock, Shared.setShard_shard, apply_ite Shard.mu]

@[simp] theorem Shared.lock_m : ((s.lock j call).shard i).m = (s.shard i).m := by
  rw [Shared.lock, Shared.setShard_shard]
  split
  · rename_i same
    rw [same]
  · rfl

@[simp] theorem Shared.unlock_mu : ((s.unlock j).shard i).mu =
    if i = j then none else (s.shard i).mu := by
  rw [Shared.unlock, Shared.setShard_shard, apply_ite Shard.mu]

@[simp] theorem Shared.unlock_m : ((s.unlock j).shard i).m = (s.shard i).m := by
  rw [Shared.unlock, Shared.setShard_shard]
  split
  · rename_i same
    rw [same]
  · rfl

@[simp] theorem Shared.takeAll_mu : ((s.takeAll j call).shard i).mu = (s.shard i).mu := by
  simp only [Shared.takeAll, Shared.setShard_shard]
  split
  · rename_i same
    rw [same]
  · rfl

@[simp] theorem Shared.takeAll_m : ((s.takeAll j call).shard i).m =
    if i = j then ∅ else (s.shard i).m := by
  simp only [Shared.takeAll, Shared.setShard_shard, apply_ite Shard.m]

variable [DecidableEq K] (k : K) (f : Nat)

@[simp] theorem Shared.delete_mu : ((s.delete j k f call).shard i).mu = (s.shard i).mu := by
  simp only [Shared.delete, Shared.setShard_shard]
  split
  · rename_i same
    rw [same]
  · rfl

@[simp] theorem Shared.delete_m : ((s.delete j k f call).shard i).m =
    if i = j then (s.shard j).m.erase k else (s.shard i).m := by
  simp only [Shared.delete, Shared.setShard_shard, apply_ite Shard.m]

@[simp] theorem Shared.insert_mu (t : Table K) (id : UInt64) :
    ((s.insert t k id).shard i).mu = if i = t.shard k then none else (s.shard i).mu := by
  simp only [Shared.insert, Shared.setShard_shard, apply_ite Shard.mu]

@[simp] theorem Shared.insert_m (t : Table K) (id : UInt64) :
    ((s.insert t k id).shard i).m = if i = t.shard k then
      (s.shard (t.shard k)).m.insert k s.created else (s.shard i).m := by
  simp only [Shared.insert, Shared.setShard_shard, apply_ite Shard.m]

end Fields

section Locks

variable {K : Type} (t : Table K)

/-- The shard whose lock the call holds. -/
def Pc.locks : Pc K → Option Nat
  | .newValue k | .nextID k | .insert k _ => some (t.shard k)
  | .removeFreeze k _ | .removeDelete k _ => some (t.shard k)
  | .rangeLocked i _ | .inRange i _ => some i
  | .scan _ i _ _ | .scanCas _ i _ _ _ _ _ => some i
  | _ => none

@[simp] theorem After.next_locks (after : After K) : after.next.locks t = none := by
  cases after <;> rfl

end Locks

section Calls

variable {K Call : Type} {t : Table K} {call : Call} {s s' : Shared K Call}
  {pc pc' : Pc K} {act : Act K}

variable [DecidableEq K]

/-- A step keeps the locks, takes a free one or gives one back. -/
theorem Moves.lock_cases (moved : Moves t call s pc act s' pc') :
    ((∀ i, (s'.shard i).mu = (s.shard i).mu) ∧ pc'.locks t = pc.locks t) ∨
    (∃ j, (s.shard j).mu = none ∧ pc.locks t = none ∧ pc'.locks t = some j ∧
      ∀ i, (s'.shard i).mu = if i = j then some call else (s.shard i).mu) ∨
    ∃ j, pc.locks t = some j ∧ pc'.locks t = none ∧
      ∀ i, (s'.shard i).mu = if i = j then none else (s.shard i).mu := by
  cases moved with
  | call op => exact .inl ⟨fun _ => rfl, by cases op <;> rfl⟩
  | openAbsent k free | openNew k free | remove k id f free | range i _ free
  | sweep cutoff i victims _ free =>
      exact .inr (.inl ⟨_, free, rfl, rfl, fun _ => s.lock_mu _ _ _⟩)
  | newValuePanics | rangeNext | rangeStops | rangePanics | scanNext =>
      exact .inr (.inr ⟨_, rfl, rfl, fun _ => s.unlock_mu _ _⟩)
  | insert k id => exact .inr (.inr ⟨_, rfl, rfl, fun _ => s.insert_mu _ _ _ _⟩)
  | removeDelete k f =>
      refine .inr (.inr ⟨_, rfl, rfl, fun i => ?_⟩)
      rw [Shared.unlock_mu, Shared.delete_mu]
  | scanExpired => exact .inl ⟨fun _ => s.delete_mu _ _ _ _ _, rfl⟩
  | casExpired => exact .inl ⟨fun _ => Shared.delete_mu _ _ _ _ _ _, rfl⟩
  | close => exact .inl ⟨fun _ => s.takeAll_mu _ _ _, rfl⟩
  | closedUnset stage k f after | onCloseReturns k f after =>
      exact .inl ⟨fun _ => rfl, after.next_locks t⟩
  | _ => exact .inl ⟨fun _ => rfl, rfl⟩

/-- Maps change only in a shard that is free or locked by the call. -/
theorem Moves.map_cases (moved : Moves t call s pc act s' pc') :
    (∀ i, (s'.shard i).m = (s.shard i).m) ∨
    ∃ j, ((s.shard j).mu = none ∨ pc.locks t = some j) ∧
      ∀ i, i ≠ j → (s'.shard i).m = (s.shard i).m := by
  cases moved with
  | openAbsent | openNew | remove | range | sweep => exact .inl fun _ => s.lock_m _ _ _
  | newValuePanics | rangeNext | rangeStops | rangePanics | scanNext =>
      exact .inl fun _ => s.unlock_m _ _
  | insert k id =>
      refine .inr ⟨_, .inr rfl, fun i other => ?_⟩
      rw [Shared.insert_m, if_neg other]
  | removeDelete k f =>
      refine .inr ⟨_, .inr rfl, fun i other => ?_⟩
      rw [Shared.unlock_m, Shared.delete_m, if_neg other]
  | scanExpired | casExpired =>
      refine .inr ⟨_, .inr rfl, fun i other => ?_⟩
      simp only [Shared.delete_m, if_neg other, Shared.setFlow]
  | close i _ free =>
      refine .inr ⟨i, .inl free, fun i other => ?_⟩
      rw [Shared.takeAll_m, if_neg other]
  | _ => exact .inl fun _ => rfl

/-- What the holder of a lock knows of the map. -/
def Pc.Guards (t : Table K) (s : Shared K Call) : Pc K → Prop
  | .newValue k | .nextID k | .insert k _ => (s.shard (t.shard k)).m.lookup k = none
  | .removeFreeze k f | .removeDelete k f => (s.shard (t.shard k)).m.lookup k = some f
  | .scan _ i rest _ => ∀ k f, rest.lookup k = some f → (s.shard i).m.lookup k = some f
  | .scanCas _ i k f _ rest _ => rest.lookup k = some f ∧
      ∀ k f, rest.lookup k = some f → (s.shard i).m.lookup k = some f
  | _ => True

theorem Pc.Guards.of_unlocked (unlocked : pc.locks t = none) : pc.Guards t s := by
  cases pc with
  | newValue | nextID | insert | removeFreeze | removeDelete | scan | scanCas => cases unlocked
  | _ => trivial

theorem Pc.Guards.congr (guards : pc.Guards t s)
    (same : ∀ i, pc.locks t = some i → (s'.shard i).m = (s.shard i).m) : pc.Guards t s' := by
  cases pc with
  | newValue | nextID | insert | removeFreeze | removeDelete | scan | scanCas =>
      simp only [Pc.Guards, same _ rfl]
      exact guards
  | _ => trivial

/-- Dropping a visited key leaves what is known of the others. -/
theorem lookup_of_erase {m rest : Flows K} {k : K} {f : Nat}
    (known : ∀ k f, rest.lookup k = some f → m.lookup k = some f) {k' : K}
    (present : (rest.erase k).lookup k' = some f) : k' ≠ k ∧ m.lookup k' = some f := by
  by_cases same : k' = k
  · rw [same, AList.lookup_erase] at present
    cases present
  · rw [AList.lookup_erase_ne same] at present
    exact ⟨same, known k' f present⟩

theorem Moves.guards (guards : pc.Guards t s) (moved : Moves t call s pc act s' pc') :
    pc'.Guards t s' := by
  cases moved with
  | call op => cases op <;> trivial
  | openAbsent k free absent | openNew k free absent =>
      exact (congrArg (AList.lookup k) (s.lock_m _ _ _)).trans absent
  | remove k id f free present => exact (congrArg (AList.lookup k) (s.lock_m _ _ _)).trans present
  | newValue | nextID | removeFreeze => exact guards
  | sweep cutoff i victims =>
      intro k f present
      rwa [Shared.lock_m]
  | scanKept cutoff i rest victims k f => exact fun _ _ => (lookup_of_erase guards · |>.2)
  | casKept cutoff i k f v rest victims => exact fun _ _ => (lookup_of_erase guards.2 · |>.2)
  | scanLoaded cutoff i rest victims k f v present => exact ⟨present, guards⟩
  | scanExpired cutoff i rest victims k f =>
      intro k' f' present
      obtain ⟨other, known⟩ := lookup_of_erase guards present
      rwa [Shared.delete_m, if_pos rfl, AList.lookup_erase_ne other]
  | casExpired cutoff i k f v rest victims =>
      intro k' f' present
      obtain ⟨other, known⟩ := lookup_of_erase guards.2 present
      rwa [Shared.delete_m, if_pos rfl, AList.lookup_erase_ne other]
  | closedUnset stage k f after | onCloseReturns k f after =>
      exact .of_unlocked (after.next_locks t)
  | _ => trivial

end Calls

section Runs

variable {K Call : Type} [DecidableEq K] {t : Table K}

structure World.Guarded (t : Table K) (w : World K Call) : Prop where
  mu : ∀ i call, (w.shared.shard i).mu = some call ↔ (w.pc call).locks t = some i
  guards : ∀ call, (w.pc call).Guards t w.shared

theorem World.Guarded.start (now : Int) (lastID : UInt64) :
    (World.start now lastID : World K Call).Guarded t where
  mu _ _ := iff_of_false nofun nofun
  guards _ := trivial

variable {w next : World K Call} {action : Action K Call} {pc : Pc K} {act : Act K} {call : Call}
  {shared : Shared K Call}

/-- A step leaves the maps alone whose locks other calls hold. -/
theorem World.Guarded.map_stays (guarded : w.Guarded t)
    (moved : Moves t call w.shared (w.pc call) act shared pc) {other : Call} (acting : other ≠ call)
    {i : Nat} (locked : (w.pc other).locks t = some i) :
    (shared.shard i).m = (w.shared.shard i).m := by
  have held := (guarded.mu i other).mpr locked
  rcases moved.map_cases with same | ⟨j, access, same⟩
  · exact same i
  · refine same i fun here => ?_
    subst here
    rcases access with free | own
    · rw [free] at held
      cases held
    · rw [(guarded.mu i call).mpr own] at held
      exact acting (Option.some.inj held).symm

variable [DecidableEq Call]

theorem World.Guarded.mu_moves (guarded : w.Guarded t)
    (moved : Moves t call w.shared (w.pc call) act shared pc) (i : Nat) (other : Call) :
    (shared.shard i).mu = some other ↔
      (Function.update w.pc call pc other).locks t = some i := by
  have before := guarded.mu i other
  rw [Function.update_apply]
  split_ifs with acting
  · subst acting
    rcases moved.lock_cases with ⟨mu, locks⟩ | ⟨j, free, unlocked, locks, mu⟩ |
      ⟨j, locked, locks, mu⟩
    · rw [mu, locks, before]
    · rw [mu, locks]
      by_cases same : i = j
      · simp [same]
      · simp [same, Ne.symm same, before, unlocked]
    · rw [mu, locks]
      by_cases same : i = j
      · simp [same]
      · simp [same, before, locked, Ne.symm same]
  · rcases moved.lock_cases with ⟨mu, locks⟩ | ⟨j, free, unlocked, locks, mu⟩ |
      ⟨j, locked, locks, mu⟩
    · rw [mu, before]
    · rw [mu, ← before]
      by_cases same : i = j
      · subst same
        simp [free, Ne.symm acting]
      · simp [same]
    · rw [mu, ← before]
      by_cases same : i = j
      · subst same
        simp [(guarded.mu i call).mpr locked, Ne.symm acting]
      · simp [same]

theorem World.Guarded.guards_moves (guarded : w.Guarded t)
    (moved : Moves t call w.shared (w.pc call) act shared pc) (other : Call) :
    (Function.update w.pc call pc other).Guards t shared := by
  rw [Function.update_apply]
  split_ifs with acting
  · subst acting
    exact moved.guards (guarded.guards other)
  · exact (guarded.guards other).congr fun i locked => guarded.map_stays moved acting locked

theorem World.Guarded.step (guarded : w.Guarded t) (stepped : w.step t action = some next) :
    next.Guarded t := by
  rcases World.step_cases stepped with ⟨call, act, shared, pc, rfl, moved, rfl⟩ | ⟨rfl, rfl⟩
  · exact ⟨guarded.mu_moves moved, guarded.guards_moves moved⟩
  · exact ⟨guarded.mu, guarded.guards⟩

end Runs

end Netx.FlowTable
