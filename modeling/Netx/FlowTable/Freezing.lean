import Netx.FlowTable.Advancing
import Netx.FlowTable.Editing
import Netx.FlowTable.LeaveContract

/-!
# Frozen flows

Once the frozen bit of a flow is set, nothing changes its `LastSeen`. `Remove` and
`Sweep` set the bit before they take a flow out, `Close` of the table only after.
-/

set_option autoImplicit false

namespace Netx.FlowTable

theorem Flow.expire_frozen {f : Flow} {cutoff : Int} (expired : f.expire cutoff = .returns true) :
    isFrozen f.seen = true := by
  unfold Flow.expire at expired
  split at expired
  · cases expired
  · split at expired
    · assumption
    · cases expired

theorem Flow.expireCas_expired {f flow : Flow} {v : Int}
    (swapped : f.expireCas v = (flow, true)) : isFrozen flow.seen = true := by
  unfold Flow.expireCas at swapped
  split at swapped
  · cases swapped
    exact isFrozen_setFrozen v
  · cases swapped

section Calls

variable {K Call : Type} {t : Table K} {call : Call} {s s' : Shared K Call}
  {pc pc' : Pc K} {act : Act K}

variable [DecidableEq K]

theorem Moves.freezes (freezes : pc.Freezes s) (moved : Moves t call s pc act s' pc') :
    pc'.Freezes s' := by
  cases moved with
  | call op => cases op <;> trivial
  | removeFreeze k f =>
      show isFrozen ((s.setFlow f (s.flow f).freeze).flow f).seen = true
      rw [Shared.setFlow_self]
      exact isFrozen_setFrozen _
  | touchClock f reply => exact isFrozen_clear s.now
  | touching stage stage' f reply flow swapped =>
      exact Flow.touch_goes freezes (congrArg Prod.snd swapped)
  | closedUnset stage k f after | onCloseReturns k f after => cases after <;> trivial
  | _ => trivial

/-- A flow that leaves is frozen, unless `Close` of the table takes it out. -/
theorem Moves.leaves (filed : s.Filed t) (guards : pc.Guards t s) (freezes : pc.Freezes s)
    (moved : Moves t call s pc act s' pc') {f : Nat} (stored : s.Stored f)
    (left : ¬s'.Stored f) :
    isFrozen (s'.flow f).seen = true ∨ ∃ i k, act = .next ∧ pc = .close i ∧ i < t.size ∧
      (s.shard i).mu = none ∧ (s.shard i).m.lookup k = some f ∧ s'.flow = s.flow := by
  have stays : (∀ i, (s'.shard i).m = (s.shard i).m) → False :=
    fun maps => left ((stored_same maps f).mpr stored)
  have alone : ∀ {g : Nat}, (s'.Stored f ↔ s.Stored f ∧ f ≠ g) → f = g := by
    intro g known
    by_contra other
    exact left (known.mpr ⟨stored, other⟩)
  cases moved with
  | openAbsent | openNew | remove | range | sweep => exact (stays fun _ => s.lock_m _ _ _).elim
  | newValuePanics | rangeNext | rangeStops | rangePanics | scanNext =>
      exact (stays fun _ => s.unlock_m _ _).elim
  | insert k id =>
      exact absurd ((filed.stored_opens guards (fun i => s.insert_m i k t id) f).mpr
        (.inr stored)) left
  | removeDelete k g =>
      obtain rfl := alone (filed.stored_delete guards (fun i => by
        rw [Shared.unlock_m, Shared.delete_m]) f)
      exact .inl freezes
  | scanExpired cutoff i rest victims k g present expired =>
      obtain rfl := alone (filed.stored_delete (guards k g present)
        (fun _ => s.delete_m _ _ _ _ _) f)
      exact .inl (Flow.expire_frozen expired)
  | casExpired cutoff i k g v rest victims flow swapped =>
      obtain rfl := alone (filed.stored_delete (guards.2 k g guards.1)
        (fun _ => (s.setFlow g flow).delete_m _ _ _ _ _) f)
      refine .inl ?_
      show isFrozen ((s.setFlow f flow).flow f).seen = true
      rw [Shared.setFlow_self]
      exact Flow.expireCas_expired swapped
  | close i inside free =>
      obtain ⟨j, k, here⟩ := stored
      refine .inr ⟨i, k, rfl, rfl, inside, free, ?_, rfl⟩
      by_cases same : j = i
      · rwa [same] at here
      · refine absurd ⟨j, k, ?_⟩ left
        rwa [Shared.takeAll_m, if_neg same]
  | _ => exact (stays fun _ => rfl).elim

end Calls

section Runs

variable {K Call : Type} [DecidableEq K] {t : Table K}

/-- What holds in every world, for the bit of every flow. -/
structure World.Frozen (t : Table K) (w : World K Call) : Prop where
  guarded : w.Guarded t
  filed : w.shared.Filed t
  freezes : ∀ call, (w.pc call).Freezes w.shared

variable {w next : World K Call} {action : Action K Call}

theorem World.Frozen.start (now : Int) (lastID : UInt64) :
    (World.start now lastID : World K Call).Frozen t where
  guarded := .start now lastID
  filed := .start now lastID
  freezes _ := trivial

theorem World.Frozen.freezes_other (held : w.Frozen t) {call other : Call} {act : Act K}
    {shared : Shared K Call} {pc : Pc K}
    (moved : Moves t call w.shared (w.pc call) act shared pc) :
    (w.pc other).Freezes shared := by
  have before := held.freezes other
  have guards := held.guarded.guards other
  cases here : w.pc other with
  | removeDelete k f =>
      rw [here] at before guards
      have old := held.filed.lt_created (held.filed.stored _ k f guards).1
      have kept := (moved.advances (held.freezes call) old).frozen before
      exact (congrArg isFrozen kept).trans before
  | touch stage f reply =>
      rw [here] at before
      exact before
  | _ => trivial

variable [DecidableEq Call]

theorem World.Frozen.step (held : w.Frozen t) (stepped : w.step t action = some next) :
    next.Frozen t := by
  have guarded := held.guarded.step stepped
  rcases World.step_cases stepped with ⟨call, act, shared, pc, rfl, moved, rfl⟩ | ⟨rfl, rfl⟩
  · refine ⟨guarded, held.filed.edits (moved.edits (held.guarded.guards call)), fun other => ?_⟩
    simp only [Function.update_apply]
    split_ifs with acting
    · subst acting
      exact moved.freezes (held.freezes other)
    · exact held.freezes_other moved
  · exact ⟨guarded, ⟨held.filed.stored, held.filed.created⟩, held.freezes⟩

theorem World.Frozen.reached (reached : (system Call t).Reachable w) : w.Frozen t := by
  refine reached.invariant (World.Frozen t) ?_ fun _ _ _ _ held stepped => held.step stepped
  rintro _ ⟨now, lastID, rfl⟩
  exact .start now lastID

/-- A flow that has left the table is frozen, and no `Touch` that swaps its word from now
on changes its `LastSeen`. -/
structure Settled (t : Table K) (w : World K Call) : Prop where
  frozen : ∀ f < w.shared.created, ¬w.shared.Stored f →
    isFrozen (w.shared.flow f).seen = true
  untouched : ∀ f < w.shared.created, ¬w.shared.Stored f → ∀ call now v reply next,
    w.pc call = .touch (.cas now v) f reply → w.step t (.call call .next) = some next →
    (next.shared.flow f).lastSeen = (w.shared.flow f).lastSeen

/-- `Close` of the table takes the map out of a shard that holds a flow not yet frozen. -/
def ClosesLive (t : Table K) (w : World K Call) (action : Action K Call) : Prop :=
  ∃ call i k f, action = .call call .next ∧ w.pc call = .close i ∧ i < t.size ∧
    (w.shared.shard i).mu = none ∧ (w.shared.shard i).m.lookup k = some f ∧
    isFrozen (w.shared.flow f).seen = false

theorem World.Frozen.settled (held : w.Frozen t)
    (frozen : ∀ f < w.shared.created, ¬w.shared.Stored f →
      isFrozen (w.shared.flow f).seen = true) : Settled t w := by
  refine ⟨frozen, fun f old left call now v reply next here stepped => ?_⟩
  rcases World.step_cases stepped with ⟨_, act, shared, pc, same, moved, rfl⟩ | ⟨same, _⟩
  · cases same
    have kept := (moved.advances (held.freezes call) old).frozen (frozen f old left)
    simp only [Flow.lastSeen, kept]
  · cases same

theorem World.Frozen.settled_moves (held : w.Frozen t) (settled : Settled t w) {call : Call}
    {act : Act K} {shared : Shared K Call} {pc : Pc K}
    (moved : Moves t call w.shared (w.pc call) act shared pc)
    (safe : ¬ClosesLive t w (.call call act)) {f : Nat} (old : f < shared.created)
    (left : ¬shared.Stored f) : isFrozen (shared.flow f).seen = true := by
  have edits := moved.edits (held.guarded.guards call)
  have before : f < w.shared.created := by
    cases edits with
    | same _ flows | takes _ _ _ _ _ flows => exact flows.1 ▸ old
    | opens k absent maps flows =>
        by_contra new
        have last : f = w.shared.created := by omega
        exact left ((held.filed.stored_opens absent maps f).mpr (.inl last))
  by_cases stored : w.shared.Stored f
  · rcases moved.leaves held.filed (held.guarded.guards call) (held.freezes call) stored left with
      frozen | ⟨i, k, rfl, here, inside, free, present, same⟩
    · exact frozen
    · by_contra live
      refine safe ⟨call, i, k, f, rfl, here, inside, free, present, ?_⟩
      rw [same] at live
      simpa using live
  · have frozen := settled.frozen f before stored
    exact (moved.advances (held.freezes call) before).stays_frozen frozen

theorem Settled.step_iff (held : w.Frozen t) (settled : Settled t w)
    (stepped : w.step t action = some next) : Settled t next ↔ ¬ClosesLive t w action := by
  have later := held.step stepped
  constructor
  · rintro after ⟨call, i, k, f, rfl, here, inside, free, present, live⟩
    have effect : w.step t (.call call .next) = some
        { shared := w.shared.takeAll i call
          pc := Function.update w.pc call (.closing i (w.shared.shard i).m) } := by
      simp [World.step, FlowTable.effect, FlowTable.next, here, inside, free]
    rw [effect] at stepped
    cases stepped
    have old := held.filed.lt_created (held.filed.stored i k f present).1
    have gone : ¬(w.shared.takeAll i call).Stored f := by
      rintro ⟨j, k', there⟩
      rw [Shared.takeAll_m] at there
      split at there
      · cases there
      · rename_i other
        obtain ⟨key, place⟩ := held.filed.stored j k' f there
        obtain ⟨key', place'⟩ := held.filed.stored i k f present
        obtain rfl : k' = k := Option.some.inj (key.symm.trans key')
        exact other (place.symm.trans place')
    have frozen := after.frozen f old gone
    exact absurd (live.symm.trans frozen) (by decide)
  · intro safe
    refine later.settled fun f old left => ?_
    rcases World.step_cases stepped with ⟨call, act, shared, pc, rfl, moved, rfl⟩ | ⟨rfl, rfl⟩
    · exact held.settled_moves settled moved safe old left
    · exact settled.frozen f old left

/-- Every flow that has left is frozen throughout a run exactly if no `Close` of the
table takes out a flow that is not. -/
theorem leaving_freezes_iff (t : Table K) {start final : World K Call}
    {actions : List (Action K Call)} (initial : (system Call t).initial start)
    (executed : (system Call t).exec start actions = some final) :
    (∀ w, (system Call t).Visits start actions w → Settled t w) ↔
      ∀ w action, (system Call t).Takes start actions w action → ¬ClosesLive t w action := by
  refine Transition.System.visits_iff_takes (Settled t) (ClosesLive t) ?_ (.initial initial) ?_
    executed
  · intro w action next reached settled stepped
    exact settled.step_iff (.reached reached) stepped
  · obtain ⟨now, lastID, rfl⟩ := initial
    exact (World.Frozen.start now lastID).settled fun f old => absurd old (Nat.not_lt_zero f)

end Runs

/-- Idle eviction is off. -/
def keepingTable : Table Nat :=
  newTable ⟨1, 0, true⟩ fun k => k

/-- A flow is opened and closed by its user before `Close` of the table takes it out. -/
def orderlyRun : List (Action Nat Nat) :=
  calls 0 (.call (.getOrOpen 7 false)) ++ nexts 0 3 ++ calls 1 (.call (.flowClose 0)) ++
    nexts 1 3 ++ calls 2 (.call .close) ++ nexts 2 1

theorem leaving_freezes_iff_orderly :
    ∃ w : World Nat Nat,
      (system Nat keepingTable).exec (.start 0 0) orderlyRun = some w ∧
      (w.shared.removed = [(0, 2)] ∧ isFrozen (w.shared.flow 0).seen = true) ∧
      ((∀ v, (system Nat keepingTable).Visits (.start 0 0) orderlyRun v →
          Settled keepingTable v) ↔
        ∀ v action, (system Nat keepingTable).Takes (.start 0 0) orderlyRun v action →
          ¬ClosesLive keepingTable v action) := by
  have checked : ((system Nat keepingTable).exec (.start 0 0) orderlyRun).any
      (fun w => decide (w.shared.removed = [(0, 2)] ∧
        isFrozen (w.shared.flow 0).seen = true)) = true := by
    decide +kernel
  obtain ⟨w, executed, facts⟩ := Transition.System.exec_of_check _ checked
  exact ⟨w, executed, of_decide_eq_true facts,
    leaving_freezes_iff keepingTable ⟨0, 0, rfl⟩ executed⟩

/-- A `Sweep` moves the clock on, `Close` takes the flow out and goes on to close it,
and a `Touch` of the flow comes before that. -/
def touchedRun : List (Action Nat Nat) :=
  calls 0 (.call (.getOrOpen 7 false)) ++ nexts 0 3 ++ calls 1 (.call (.sweep 100)) ++
    nexts 1 2 ++ calls 2 (.call .close) ++ nexts 2 1 ++ calls 3 (.call (.touch 0)) ++ nexts 3 2

theorem closed_flow_touched :
    ∃ w next : World Nat Nat,
      (system Nat keepingTable).exec (.start 0 0) touchedRun = some w ∧
      w.step keepingTable (.call 3 .next) = some next ∧
      (w.shared.removed = [(0, 2)] ∧ isFrozen (w.shared.flow 0).seen = false ∧
        (w.shared.flow 0).lastSeen = 0 ∧ (next.shared.flow 0).lastSeen = 100) ∧
      ¬w.shared.Stored 0 ∧ ¬Settled keepingTable w := by
  have checked : ((system Nat keepingTable).exec (.start 0 0) touchedRun).any
      (fun w => (w.step keepingTable (.call 3 .next)).any fun next => decide
        ((w.shared.removed = [(0, 2)] ∧ isFrozen (w.shared.flow 0).seen = false ∧
          (w.shared.flow 0).lastSeen = 0 ∧ (next.shared.flow 0).lastSeen = 100) ∧
        w.shared.created = 1 ∧ w.shared.key 0 = some 7 ∧
        (w.shared.shard (keepingTable.shard 7)).m.lookup 7 = none)) = true := by
    decide +kernel
  obtain ⟨w, executed, later⟩ := Transition.System.exec_of_check _ checked
  obtain ⟨next, stepped, facts⟩ := (Option.any_eq_true _ _).mp later
  obtain ⟨shown, created, key, absent⟩ := of_decide_eq_true facts
  have filed := (World.Frozen.reached (.exec (.initial ⟨0, 0, rfl⟩) executed)).filed
  have gone : ¬w.shared.Stored 0 := filed.not_stored key absent
  refine ⟨w, next, executed, stepped, shown, gone, fun settled => ?_⟩
  have frozen := settled.frozen 0 (created ▸ Nat.one_pos) gone
  rw [shown.2.1] at frozen
  cases frozen

end Netx.FlowTable
