import Netx.FlowTable.OneMap
import Netx.FlowTable.LeaveContract
import Mathlib.Data.Set.Card

/-!
# A map with epochs

The contract of the table as a map, for every number of shards and every hash. The
identifier of a flow tells whether a key was used again.
-/

set_option autoImplicit false

namespace Netx.FlowTable

section Size

variable {K Call : Type}

variable [DecidableEq K] {t : Table K} {s : Shared K Call}

theorem Shared.Filed.shard_lookup (filed : s.Filed t) (i : Nat) (k : K) :
    (s.shard i).m.lookup k ≠ none ↔ s.lookup t k ≠ none ∧ t.shard k = i := by
  constructor
  · intro present
    obtain ⟨f, here⟩ := Option.ne_none_iff_exists'.mp present
    obtain ⟨_, rfl⟩ := filed.stored i k f here
    exact ⟨present, rfl⟩
  · rintro ⟨present, rfl⟩
    exact present

/-- The number of keys in the shards before shard `i`. -/
noncomputable def Shared.sizeBelow (t : Table K) (s : Shared K Call) (i : Nat) : Nat :=
  Set.ncard {k | s.lookup t k ≠ none ∧ t.shard k < i}

noncomputable def Shared.size (t : Table K) (s : Shared K Call) : Nat :=
  Set.ncard {k | s.lookup t k ≠ none}

theorem Shared.Filed.keys_eq (filed : s.Filed t) (i : Nat) :
    {k | s.lookup t k ≠ none ∧ t.shard k = i} = ↑(s.shard i).m.keys.toFinset := by
  ext k
  rw [Set.mem_ofPred_eq, ← filed.shard_lookup, Finset.mem_coe, List.mem_toFinset]
  exact Option.isSome_iff_ne_none.symm.trans AList.lookup_isSome

private theorem sizeBelow_split (i : Nat) : {k | s.lookup t k ≠ none ∧ t.shard k < i + 1} =
    {k | s.lookup t k ≠ none ∧ t.shard k < i} ∪ {k | s.lookup t k ≠ none ∧ t.shard k = i} := by
  ext k
  simp only [Set.mem_ofPred_eq, Set.mem_union, Nat.lt_succ_iff_lt_or_eq]
  exact and_or_left

theorem Shared.Filed.below_finite (filed : s.Filed t) (i : Nat) :
    {k | s.lookup t k ≠ none ∧ t.shard k < i}.Finite := by
  induction i with
  | zero => simp
  | succ i ih =>
      rw [sizeBelow_split, filed.keys_eq]
      exact ih.union (Finset.finite_toSet _)

theorem Shared.Filed.sizeBelow_succ (filed : s.Filed t) (i : Nat) :
    s.sizeBelow t (i + 1) = s.sizeBelow t i + (s.shard i).m.keys.length := by
  have apart : Disjoint {k | s.lookup t k ≠ none ∧ t.shard k < i}
      {k | s.lookup t k ≠ none ∧ t.shard k = i} := by
    rw [Set.disjoint_left]
    rintro k ⟨_, below⟩ ⟨_, here⟩
    omega
  have finite : {k | s.lookup t k ≠ none ∧ t.shard k = i}.Finite := by
    rw [filed.keys_eq]
    exact Finset.finite_toSet _
  rw [Shared.sizeBelow, sizeBelow_split, Set.ncard_union_eq apart (filed.below_finite i) finite,
    filed.keys_eq, Set.ncard_coe_finset, List.toFinset_card_of_nodup (s.shard i).m.keys_nodup]
  rfl

private theorem sizeBelow_all {i : Nat} (all : t.size ≤ i) : s.sizeBelow t i = s.size t := by
  have every : ∀ k, t.shard k < i := fun k => Nat.lt_of_lt_of_le (t.shard_lt k) all
  simp only [Shared.sizeBelow, Shared.size, every, and_true]

end Size

section Calls

variable {K Call : Type} {t : Table K} {call : Call} {s s' : Shared K Call}
  {pc pc' : Pc K} {act : Act K}

def After.OfRemove : After K → Prop
  | .remove => True
  | _ => False

/-- Where a `Remove` is that was called with this key and identifier. -/
def Pc.Removes (s : Shared K Call) (k : K) (id : UInt64) : Pc K → Prop
  | .remove k' id' => k' = k ∧ id' = id
  | .removeFreeze k' f | .removeDelete k' f => k' = k ∧ f < s.created ∧ (s.flow f).id = id
  | .closed _ _ _ after | .onClose _ _ after | .inOnClose _ _ after => after.OfRemove
  | .returned _ => True
  | _ => False

theorem Pc.Removes.congr {k : K} {id : UInt64} (removes : pc.Removes s k id)
    (grows : s.created ≤ s'.created)
    (ids : ∀ f < s.created, (s'.flow f).id = (s.flow f).id) : pc.Removes s' k id := by
  cases pc with
  | removeFreeze k' f | removeDelete k' f =>
      obtain ⟨key, old, same⟩ := removes
      exact ⟨key, Nat.lt_of_lt_of_le old grows, (ids f old).trans same⟩
  | _ => exact removes

variable [DecidableEq K]

/-- What a `Len` has counted of a map that nobody changes. -/
def Pc.Counted (t : Table K) (s : Shared K Call) : Pc K → Prop
  | .len i n => n = s.sizeBelow t i
  | .returned (.counted n) => n = s.size t
  | _ => False

theorem Moves.counted (filed : s.Filed t) (counted : pc.Counted t s)
    (moved : Moves t call s pc act s' pc') : s' = s ∧ pc'.Counted t s := by
  cases moved with
  | len i n =>
      refine ⟨rfl, ?_⟩
      simp only [Pc.Counted] at counted ⊢
      rw [counted, filed.sizeBelow_succ]
  | lenDone i n all =>
      refine ⟨rfl, ?_⟩
      simp only [Pc.Counted] at counted ⊢
      rw [counted, sizeBelow_all all]
  | _ => cases counted

theorem Pc.Counted.congr (counted : pc.Counted t s) (same : s'.lookup t = s.lookup t) :
    pc.Counted t s' := by
  cases pc with
  | len | returned =>
      simp only [Pc.Counted, Shared.sizeBelow, Shared.size, same]
      exact counted
  | _ => exact counted

theorem Edits.lookup_back (edits : Edits t s s') {k : K} {f : Nat}
    (old : f < s.created) (here : s'.lookup t k = some f) : s.lookup t k = some f := by
  cases edits with
  | same maps => simpa only [Shared.lookup, maps] using here
  | takes j victims _ _ maps =>
      rw [Shared.lookup, maps] at here
      split at here
      · cases here
      · exact here
  | opens k' _ maps =>
      rw [Shared.lookup, maps] at here
      split at here
      · rename_i place
        by_cases same : k = k'
        · rw [same, AList.lookup_insert] at here
          cases here
          exact absurd old (Nat.lt_irrefl _)
        · rwa [AList.lookup_insert_ne same, ← place] at here
      · exact here

theorem Moves.removes (filed : s.Filed t) {k : K} {id : UInt64} (removes : pc.Removes s k id)
    (moved : Moves t call s pc act s' pc') :
    pc'.Removes s' k id ∧ (s'.removed = s.removed ∨
      ∃ f, pc = .removeDelete k f ∧ s'.removed = s.removed ++ [(f, call)]) := by
  cases moved with
  | removeMissed => exact ⟨trivial, .inl rfl⟩
  | remove k' id' f free present same =>
      obtain ⟨rfl, rfl⟩ := removes
      exact ⟨⟨rfl, filed.lookup_lt present, same⟩, .inl rfl⟩
  | removeFreeze k' f =>
      obtain ⟨rfl, old, same⟩ := removes
      refine ⟨⟨rfl, old, ?_⟩, .inl rfl⟩
      rw [Shared.setFlow_self]
      exact same
  | removeDelete k' f =>
      obtain ⟨rfl, old, same⟩ := removes
      exact ⟨trivial, .inr ⟨f, rfl, rfl⟩⟩
  | closing | closed | onClose => exact ⟨removes, .inl rfl⟩
  | closedUnset stage k' f after | onCloseReturns k' f after =>
      refine ⟨?_, .inl rfl⟩
      cases after with
      | remove => trivial
      | sweep | close => cases removes
  | onClosePanics => exact ⟨trivial, .inl rfl⟩
  | _ => cases removes

theorem Moves.removed_other (moved : Moves t call s pc act s' pc') {f : Nat} {other : Call}
    (apart : other ≠ call) : (f, other) ∈ s'.removed ↔ (f, other) ∈ s.removed := by
  cases moved with
  | removeDelete | scanExpired | casExpired =>
      simp [Shared.unlock, Shared.delete, Shared.setShard, Shared.setFlow, apart]
  | close => simp [Shared.takeAll, Shared.setShard, Ne.symm apart]
  | _ => exact Iff.rfl

end Calls

section Removals

variable {K Call : Type} [DecidableEq K] {t : Table K} {w before : World K Call} {call : Call}
  {k : K} {f : Nat}

/-- Where a `Remove` called in world `w` for flow `f` is later, and what it took out. -/
structure Removal (t : Table K) (w : World K Call) (call : Call) (k : K) (f : Nat)
    (later : World K Call) : Prop where
  ordered : later.Ordered t
  valid : (later.shared.epochs t).Valid Ref.epoch
  key : later.shared.key f = some k
  id : (later.shared.flow f).id = (w.shared.flow f).id
  back : later.shared.lookup t k = some f → w.shared.lookup t k = some f
  removes : (later.pc call).Removes later.shared k (w.shared.flow f).id
  taken : ∀ g, (g, call) ∈ later.shared.removed → (g, call) ∈ w.shared.removed ∨
    g = f ∧ w.shared.lookup t k = some f

theorem Removal.delete {g : Nat}
    (removal : Removal t w call k f before) (here : before.pc call = .removeDelete k g) :
    g = f ∧ w.shared.lookup t k = some f := by
  have guards := removal.ordered.guarded.guards call
  have removes := removal.removes
  rw [here] at guards removes
  have filed := removal.ordered.filed
  have own : (k, before.shared.ref g) ∈ before.shared.issued :=
    filed.mem_issued.mpr ⟨(filed.stored _ k g guards).1, rfl⟩
  have remembered : (k, before.shared.ref f) ∈ before.shared.issued :=
    filed.mem_issued.mpr ⟨removal.key, rfl⟩
  have same := removal.valid.issued_inj own remembered
    (congrArg UInt64.toNat (removes.2.2.trans removal.id.symm))
  obtain rfl : g = f := congrArg (fun entry => entry.2.flow) same
  exact ⟨rfl, removal.back guards⟩

end Removals

section Runs

variable {K Call : Type} [DecidableEq K] [DecidableEq Call]

/-- The runs that do not wrap the counter behind `NextID`. -/
def unspentSystem (Call : Type) [DecidableEq Call] (t : Table K) :
    Transition.System (World K Call) (Action K Call) :=
  (system Call t).restrict unspent

/-- What a run shows of the map. -/
def World.trace (t : Table K) (w : World K Call) (actions : List (Action K Call)) :
    List (Epoch.Event K Ref) :=
  (unspentSystem Call t).trace World.shown w actions

structure EpochContract (t : Table K) (w : World K Call) : Prop where
  place : ∀ i k f, (w.shared.shard i).m.lookup k = some f → i = t.shard k ∧ i < t.size
  ids : ∀ k k' f f', w.shared.lookup t k = some f → w.shared.lookup t k' = some f' →
    (w.shared.flow f).id ≠ 0 ∧
      ((w.shared.flow f).id = (w.shared.flow f').id → k = k' ∧ f = f')
  /-- A `Len` during which nobody changes the map returns its size. -/
  len : ∀ call n actions final, w.pc call = .len 0 0 →
    (unspentSystem Call t).exec w actions = some final →
    (∀ v, (unspentSystem Call t).Visits w actions v →
      v.shared.lookup t = w.shared.lookup t) →
    final.pc call = .returned (.counted n) → n = w.shared.size t
  oneMap : ∀ actions final, (unspentSystem Call t).exec w actions = some final →
    (Epoch.system Ref.epoch).exec (w.shared.epochs t) (w.trace t actions) =
      some (final.shared.epochs t)
  /-- Until an absent key is removed again, the calls of `GetOrOpen` for it create one
  flow, and all return it. -/
  opens : ∀ k actions final, (unspentSystem Call t).exec w actions = some final →
    w.shared.lookup t k = none → Epoch.removals k (w.trace t actions) = [] →
    (final.shared.lookup t k = none ∧ Epoch.opens k (w.trace t actions) = []) ∨
    ∃ (ref : Ref) (n : Nat), final.shared.lookup t k = some ref.flow ∧
      Epoch.opens k (w.trace t actions) = (ref, true) :: List.replicate n (ref, false)
  panics : ∀ call k next, w.pc call = .newValue k →
    (unspentSystem Call t).step w (.call call .panics) = some next →
    next.shared.epochs t = w.shared.epochs t ∧ (next.shared.shard (t.shard k)).mu = none ∧
      next.pc call = .returned .panicked
  rising : ∀ k f f' actions final, (unspentSystem Call t).exec w actions = some final →
    w.shared.lookup t k = some f → final.shared.lookup t k = some f' →
    f' = f ∨ (w.shared.flow f).id < (final.shared.flow f').id
  /-- A flow `f` was stored under `k` at some time, and a `Remove` is called with its
  identifier: it takes out `f`, if that is still there, and nothing else. -/
  remove : ∀ call k f, w.shared.key f = some k →
    w.pc call = .remove k (w.shared.flow f).id →
    ∀ actions final, (unspentSystem Call t).exec w actions = some final →
    ∀ g, (g, call) ∈ final.shared.removed → (g, call) ∈ w.shared.removed ∨
      g = f ∧ w.shared.lookup t k = some f

variable {t : Table K} {w final : World K Call} {actions : List (Action K Call)}

private theorem unspentSystem_step {next : World K Call} {action : Action K Call} :
    (unspentSystem Call t).step w action = some next ↔
      unspent w action = true ∧ w.step t action = some next :=
  Transition.System.restrict_step

theorem World.Ordered.reached (reached : (unspentSystem Call t).Reachable w) :
    w.Ordered t ∧ (w.shared.epochs t).Valid Ref.epoch := by
  refine reached.invariant (fun w => w.Ordered t ∧ (w.shared.epochs t).Valid Ref.epoch) ?_ ?_
  · rintro _ ⟨now, lastID, rfl⟩
    exact ⟨.start now lastID, .empty⟩
  · rintro state action next _ ⟨ordered, valid⟩ stepped
    obtain ⟨left, moved⟩ := unspentSystem_step.mp stepped
    exact ⟨ordered.step left moved, valid.exec (ordered.shows moved)⟩

theorem World.Ordered.oneMap (ordered : w.Ordered t)
    (executed : (unspentSystem Call t).exec w actions = some final) :
    (Epoch.system Ref.epoch).exec (w.shared.epochs t) (w.trace t actions) =
      some (final.shared.epochs t) := by
  refine Transition.System.exec_simulates (fun w => w.shared.epochs t) (World.Ordered t) ?_
    ordered executed
  intro state action next held stepped
  obtain ⟨left, moved⟩ := unspentSystem_step.mp stepped
  exact ⟨held.step left moved, held.shows moved⟩

theorem World.Ordered.len (ordered : w.Ordered t) {call : Call} {n : Nat}
    (here : w.pc call = .len 0 0)
    (executed : (unspentSystem Call t).exec w actions = some final)
    (calm : ∀ v, (unspentSystem Call t).Visits w actions v →
      v.shared.lookup t = w.shared.lookup t)
    (there : final.pc call = .returned (.counted n)) : n = w.shared.size t := by
  have counted : final.Ordered t ∧ final.shared.lookup t = w.shared.lookup t ∧
      (final.pc call).Counted t final.shared := by
    refine Transition.System.exec_keeps_visited (fun v => v.Ordered t ∧
      v.shared.lookup t = w.shared.lookup t ∧ (v.pc call).Counted t v.shared) ?_ ?_ executed
    · rintro before action next visit ⟨held, same, counted⟩ stepped
      obtain ⟨left, moved⟩ := unspentSystem_step.mp stepped
      have kept : next.shared.lookup t = before.shared.lookup t := (calm next visit).trans same.symm
      refine ⟨held.step left moved, calm next visit, ?_⟩
      rcases World.step_cases moved with ⟨acting, act, shared, pc, rfl, moves, rfl⟩ | ⟨rfl, rfl⟩
      · simp only [Function.update_apply]
        split_ifs with own
        · subst own
          exact (moves.counted held.filed counted).2.congr kept
        · exact counted.congr kept
      · exact counted.congr kept
    · refine ⟨ordered, rfl, ?_⟩
      rw [here]
      simp [Pc.Counted, Shared.sizeBelow]
  obtain ⟨_, same, counted⟩ := counted
  rw [there] at counted
  simp only [Pc.Counted, Shared.size, same] at counted
  exact counted

theorem Removal.step {before next : World K Call} {action : Action K Call} {call : Call} {k : K}
    {f : Nat} (removal : Removal t w call k f before)
    (stepped : (unspentSystem Call t).step before action = some next) :
    Removal t w call k f next := by
  obtain ⟨left, moved⟩ := unspentSystem_step.mp stepped
  have ordered := removal.ordered.step left moved
  have valid := removal.valid.exec (removal.ordered.shows moved)
  have old := removal.ordered.filed.lt_created removal.key
  rcases World.step_cases moved with ⟨acting, act, shared, pc, rfl, moves, rfl⟩ | ⟨rfl, rfl⟩
  · have edits := moves.edits (removal.ordered.guarded.guards acting)
    have forward := fun {f : Nat} old => (moves.flow_forward (f := f) old).id
    refine ⟨ordered, valid, removal.ordered.filed.key_stays edits removal.key,
      (forward old).trans removal.id,
      fun here => removal.back (edits.lookup_back old here), ?_, ?_⟩
    · simp only [Function.update_apply]
      split_ifs with own
      · subst own
        exact (moves.removes removal.ordered.filed removal.removes).1
      · exact removal.removes.congr edits.created_le fun f old => forward old
    · intro g entry
      by_cases own : call = acting
      · subst own
        rcases (moves.removes removal.ordered.filed removal.removes).2 with same | ⟨h, here, same⟩
        · exact removal.taken g (same ▸ entry)
        · simp only [same] at entry
          rcases List.mem_append.mp entry with earlier | new
          · exact removal.taken g earlier
          · obtain rfl : g = h := congrArg Prod.fst (List.mem_singleton.mp new)
            exact .inr (removal.delete here)
      · exact removal.taken g ((moves.removed_other own).mp entry)
  · exact ⟨ordered, valid, removal.key, removal.id, removal.back,
      removal.removes.congr le_rfl fun _ _ => rfl, removal.taken⟩

/-- The shards together are one map with epochs. -/
theorem table_is_epoch_map (t : Table K) (reached : (unspentSystem Call t).Reachable w) :
    EpochContract t w := by
  obtain ⟨ordered, valid⟩ := World.Ordered.reached reached
  have mapped : ∀ {v : World K Call} {k : K} {f : Nat}, v.shared.lookup t k = some f →
      (v.shared.epochs t).map k = some (v.shared.ref f) := by
    intro v k f here
    simp only [Shared.epochs, here, Option.map_some]
  constructor
  · intro i k f here
    obtain ⟨_, rfl⟩ := ordered.filed.stored i k f here
    exact ⟨rfl, t.shard_lt k⟩
  · intro k k' f f' here there
    constructor
    · intro zero
      have positive := valid.positive _ (valid.stored k _ (mapped here))
      simp [Ref.epoch, Shared.ref, zero] at positive
    · intro same
      obtain ⟨rfl, ref⟩ := valid.stored_inj (mapped here) (mapped there)
        (congrArg UInt64.toNat same)
      exact ⟨rfl, congrArg Ref.flow ref⟩
  · exact fun call n actions final here executed calm there =>
      ordered.len here executed calm there
  · exact fun actions final executed => ordered.oneMap executed
  · intro k actions final executed absent kept
    have empty : (w.shared.epochs t).map k = none := by simp [Shared.epochs, absent]
    have view : (final.shared.epochs t).map k =
        (final.shared.lookup t k).map final.shared.ref := rfl
    rcases Epoch.opens_absent (ordered.oneMap executed) kept empty with
      ⟨none, unopened⟩ | ⟨ref, n, stored, opened⟩
    · exact .inl ⟨Option.map_eq_none_iff.mp none, unopened⟩
    · obtain ⟨f, here, rfl⟩ := Option.map_eq_some_iff.mp (view ▸ stored)
      exact .inr ⟨_, n, here, opened⟩
  · intro call k next here stepped
    obtain ⟨_, moved⟩ := unspentSystem_step.mp stepped
    have effect : w.step t (.call call .panics) = some
        { shared := w.shared.unlock (t.shard k)
          pc := Function.update w.pc call (.returned .panicked) } := by
      simp [World.step, FlowTable.effect, here]
    rw [effect] at moved
    cases moved
    refine ⟨ordered.filed.epochs_same (fun _ => Shared.unlock_m _ _ _) ⟨rfl, rfl⟩
      fun _ _ => rfl, ?_, Function.update_self _ _ _⟩
    simp
  · intro k f f' actions final executed here there
    rcases valid.later (ordered.oneMap executed) (mapped here) (mapped there) with same | later
    · exact .inl (congrArg Ref.flow same)
    · exact .inr later
  · intro call k f key here actions final executed g entry
    have start : Removal t w call k f w :=
      ⟨ordered, valid, key, rfl, id, by rw [here]; exact ⟨rfl, rfl⟩, fun _ => .inl⟩
    exact (Transition.System.exec_keeps (Removal t w call k f)
      (fun _ _ _ removal stepped => removal.step stepped) start executed).taken g entry

end Runs

/-- Key `7` is opened, removed and opened again, and a `Remove` of the first flow comes
late. -/
def reuseRun : List (Action Nat Nat) :=
  calls 0 (.call (.getOrOpen 7 false)) ++ nexts 0 3 ++ calls 1 (.call (.remove 7 1)) ++
    nexts 1 3 ++ calls 2 (.call (.getOrOpen 7 true)) ++ nexts 2 1 ++ calls 2 (.returns true) ++
    nexts 2 2 ++ calls 3 (.call (.remove 7 1))

theorem table_is_epoch_map_reused :
    ∃ w : World Nat Nat,
      (unspentSystem Nat smallTable).exec (.start 0 0) reuseRun = some w ∧
      (w.shared.lookup smallTable 7 = some 1 ∧ w.shared.key 0 = some 7 ∧
        (w.shared.flow 0).id = 1 ∧ (w.shared.flow 1).id = 2) ∧
      EpochContract smallTable w := by
  have checked : ((unspentSystem Nat smallTable).exec (.start 0 0) reuseRun).any
      (fun w => decide (w.shared.lookup smallTable 7 = some 1 ∧ w.shared.key 0 = some 7 ∧
        (w.shared.flow 0).id = 1 ∧ (w.shared.flow 1).id = 2)) = true := by
    decide +kernel
  obtain ⟨w, executed, facts⟩ := Transition.System.exec_of_check _ checked
  exact ⟨w, executed, of_decide_eq_true facts, table_is_epoch_map smallTable
    (.exec (.initial ⟨0, 0, rfl⟩) executed)⟩

end Netx.FlowTable
