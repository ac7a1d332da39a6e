import Netx.FlowTable.Sparing

/-!
# What a sweep decides

While any calls run, a `Sweep` takes out a flow only where `LastSeen` is before its
cutoff, and nothing moves that `LastSeen` afterwards. A `Touch` that reads the clock
after the sweep advanced it records a time that no later cutoff of that sweep passes.
-/

set_option autoImplicit false

namespace Netx.FlowTable

open Transition

/-- What a call knows of the clock it has loaded, or that the flow it touches exists. -/
def Pc.Timely {K Call : Type} (s : Shared K Call) : Pc K → Prop
  | .advanceCas now cur => cur < now
  | .touchClock f _ | .touch _ f _ => f < s.created
  | _ => True

def After.isSweep {K : Type} : After K → Prop
  | .sweep _ _ => True
  | _ => False

/-- Where a `Sweep` at time `now` can be, and that it has advanced the clock once it is
past that. -/
def Pc.SweepOf {K : Type} (t : Table K) (clock now : Int) : Pc K → Prop
  | .advance n | .advanceCas n _ => n = now
  | .sweep cutoff _ _ | .scan cutoff _ _ _ =>
      cutoff = (now - t.idle).bmod (2 ^ 64) ∧ now ≤ clock
  | .scanCas cutoff _ _ _ v _ _ =>
      (cutoff = (now - t.idle).bmod (2 ^ 64) ∧ now ≤ clock) ∧ clear v < cutoff
  | .victims _ _ | .returned _ => now ≤ clock
  | .closed _ _ _ after | .onClose _ _ after | .inOnClose _ _ after =>
      after.isSweep ∧ now ≤ clock
  | _ => False

/-- The call has begun and, if it is a `Sweep`, is past advancing the clock. -/
def Pc.advanced {K : Type} : Pc K → Bool
  | .idle | .advance _ | .advanceCas _ _ => false
  | _ => true

/-- The call has not begun or has returned. -/
def Pc.resting {K : Type} : Pc K → Bool
  | .idle | .returned _ => true
  | _ => false

/-- The call has read the clock for a `Touch` and not returned. -/
def Pc.touching {K : Type} : Pc K → Bool
  | .touch _ _ _ => true
  | _ => false

section Flows

variable {f : Flow} {cutoff : Int} {done : Bool} {v : Int}

theorem Flow.expire_before (expired : f.expire cutoff = .returns done) :
    done = true ↔ f.lastSeen < cutoff := by
  unfold Flow.expire at expired
  split at expired
  · rename_i recent
    cases expired
    exact iff_of_false (by simp) (Int.not_lt.mpr recent)
  · rename_i old
    split at expired
    · cases expired
      exact iff_of_true rfl (Int.not_le.mp old)
    · cases expired

theorem Flow.expire_goes (goes : f.expire cutoff = .goes v) : v = f.seen ∧ clear v < cutoff := by
  unfold Flow.expire at goes
  split at goes
  · cases goes
  · rename_i old
    split at goes
    · cases goes
    · cases goes
      exact ⟨rfl, Int.not_le.mp old⟩

theorem Flow.expireCas_iff {flow : Flow} (swapped : f.expireCas v = (flow, done)) :
    done = true ↔ f.seen = v := by
  unfold Flow.expireCas at swapped
  split at swapped
  · cases swapped
    exact iff_of_true rfl ‹_›
  · cases swapped
    exact iff_of_false (by simp) ‹_›

theorem Flow.expireCas_lastSeen {flow : Flow} (swapped : f.expireCas v = (flow, done)) :
    flow.lastSeen = f.lastSeen := by
  unfold Flow.expireCas at swapped
  split at swapped
  · rename_i same
    cases swapped
    subst same
    exact clear_setFrozen f.seen
  · cases swapped
    rfl

end Flows

section Calls

variable {K Call : Type} {t : Table K} {call : Call} {s s' : Shared K Call}
  {pc pc' : Pc K} {act : Act K} {now : Int}

theorem Pc.Timely.later (timely : pc.Timely s) (grows : s.created ≤ s'.created) :
    pc.Timely s' := by
  cases pc with
  | touchClock | touch => exact Nat.lt_of_lt_of_le timely grows
  | _ => exact timely

theorem Pc.SweepOf.later {clock clock' : Int} (sweeps : pc.SweepOf t clock now)
    (grows : clock ≤ clock') : pc.SweepOf t clock' now := by
  cases pc with
  | sweep | scan => exact ⟨sweeps.1, Int.le_trans sweeps.2 grows⟩
  | scanCas => exact ⟨⟨sweeps.1.1, Int.le_trans sweeps.1.2 grows⟩, sweeps.2⟩
  | victims | returned => exact Int.le_trans sweeps grows
  | closed | onClose | inOnClose => exact ⟨sweeps.1, Int.le_trans sweeps.2 grows⟩
  | _ => exact sweeps

theorem Pc.SweepOf.clock {clock : Int} {pc : Pc K} (sweeps : pc.SweepOf t clock now)
    (advanced : pc.advanced = true) : now ≤ clock := by
  cases pc with
  | advance | advanceCas => cases advanced
  | sweep | scan | closed | onClose | inOnClose => exact sweeps.2
  | scanCas => exact sweeps.1.2
  | victims | returned => exact sweeps
  | _ => exact sweeps.elim

theorem Pc.locks_resting {pc : Pc K} (resting : pc.resting = true) : pc.locks t = none := by
  cases pc with
  | idle | returned => rfl
  | _ => cases resting

variable [DecidableEq K]

theorem Moves.called {op : Op K} (moved : Moves t call s pc (.call op) s' pc') :
    enter s op = some pc' := by
  cases moved with
  | call _ entered => exact entered

theorem Moves.timely (filed : s.Filed t) (timely : pc.Timely s)
    (moved : Moves t call s pc act s' pc') : pc'.Timely s' := by
  cases moved with
  | call op entered =>
      cases op with
      | touch f => exact (Option.ite_none_right_eq_some.mp entered).1
      | _ => trivial
  | getTouch k f free present => exact filed.lt_created (filed.stored _ k f present).1
  | advance n later => exact later
  | closedUnset stage k f after | onCloseReturns k f after => cases after <;> trivial
  | touchClock | touching => exact timely
  | _ => trivial

/-- Only a `Sweep` moves the clock, and only forward. -/
theorem Moves.now_le (timely : pc.Timely s) (moved : Moves t call s pc act s' pc') :
    s.now ≤ s'.now := by
  cases moved with
  | advanceCasOff n | advanceCas n => exact Int.le_of_lt timely
  | _ => exact Int.le_refl _

theorem Moves.sweepOf (sweeps : pc.SweepOf t s.now now) (moved : Moves t call s pc act s' pc') :
    pc'.SweepOf t s'.now now := by
  cases moved with
  | advancedOff n late =>
      obtain rfl : n = now := sweeps
      exact late
  | advanced n late =>
      obtain rfl : n = now := sweeps
      exact ⟨rfl, late⟩
  | advance | advanceAgain => exact sweeps
  | advanceCasOff n =>
      obtain rfl : n = now := sweeps
      exact Int.le_refl _
  | advanceCas n =>
      obtain rfl : n = now := sweeps
      exact ⟨rfl, Int.le_refl _⟩
  | sweep | scanNext | scanKept | scanExpired | swept => exact sweeps
  | scanLoaded cutoff i rest victims k f v present goes =>
      exact ⟨sweeps, (Flow.expire_goes goes).2⟩
  | casKept | casExpired => exact sweeps.1
  | sweepDone => exact sweeps.2
  | victim => exact ⟨trivial, sweeps⟩
  | closing | closed | onClose => exact sweeps
  | closedUnset stage k f after | onCloseReturns k f after =>
      cases after with
      | sweep => exact sweeps.2
      | remove | close => exact sweeps.1.elim
  | onClosePanics => exact sweeps.2
  | _ => exact sweeps.elim

variable {f : Nat} {reply : Reply}

/-- A `Touch` keeps the time it has read from the clock. -/
theorem Moves.touch_now {stage : TouchStage} (clock : now ≤ s.now)
    (known : ∀ stage, pc = .touch stage f reply → clear now ≤ stage.now)
    (moved : Moves t call s pc act s' pc') (touches : pc' = .touch stage f reply) :
    clear now ≤ stage.now := by
  cases moved with
  | call op => cases op <;> cases touches
  | closedUnset stage k g after | onCloseReturns k g after => cases after <;> cases touches
  | touchClock g reply =>
      cases touches
      exact clear_mono clock
  | touching stage' _ g reply' flow swapped =>
      cases touches
      rw [Flow.touch_goes_now (congrArg Prod.snd swapped)]
      exact known stage' rfl
  | _ => cases touches

/-- A `Touch` has recorded its time when it returns, unless the flow is frozen. -/
theorem Moves.touch_records {stage : TouchStage} (sound : stage.Sound)
    (moved : Moves t call s (.touch stage f reply) .next s' pc')
    (returned : pc' = .returned reply) :
    stage.now ≤ (s'.flow f).lastSeen ∨ isFrozen (s'.flow f).seen = true := by
  cases moved with
  | touching => cases returned
  | touched _ _ _ flow result swapped =>
      rw [Shared.setFlow_self]
      have forward := Flow.touch_seen (f := s.flow f) sound
      by_cases frozen : isFrozen (s.flow f).seen = true
      · exact .inr (((Flow.touch_writes swapped).advances sound).stays_frozen frozen)
      · have live := eq_false_of_ne_true frozen
        have recorded := Flow.touch_returns live (congrArg Prod.snd swapped)
        rw [swapped] at forward recorded
        refine .inl ?_
        rw [Flow.lastSeen, clear_of_live (forward.2 live)]
        exact recorded

/-- A `Touch` that swaps the word makes its time the `LastSeen`. -/
theorem Moves.touch_swaps {stored : Int} (live : isFrozen stored = false)
    (moved : Moves t call s (.touch (.cas stored (s.flow f).seen) f reply) .next s' pc') :
    (s'.flow f).lastSeen = stored := by
  have swaps : (s.flow f).touch (.cas stored (s.flow f).seen) =
      ({ s.flow f with seen := stored }, .returns ()) := if_pos rfl
  cases moved with
  | touching _ _ _ _ flow swapped =>
      rw [swaps] at swapped
      cases swapped
  | touched _ _ _ flow result swapped =>
      rw [swaps] at swapped
      cases swapped
      rw [Shared.setFlow_self]
      exact clear_of_live live

/-- A flow is taken out by the call that steps. -/
theorem Moves.removed_by (moved : Moves t call s pc act s' pc') {c : Call}
    (removed : s'.removed = s.removed ++ [(f, c)]) : c = call := by
  cases moved with
  | removeDelete k g =>
      have same : [(g, call)] = [(f, c)] := List.append_cancel_left removed
      cases same
      rfl
  | scanExpired cutoff i rest victims k g | casExpired cutoff i k g =>
      have same : [(g, call)] = [(f, c)] := List.append_cancel_left removed
      cases same
      rfl
  | close i =>
      have same : (s.shard i).m.entries.map (fun entry => (entry.2, call)) = [(f, c)] :=
        List.append_cancel_left removed
      have member : (f, c) ∈ (s.shard i).m.entries.map (fun entry => (entry.2, call)) := by
        rw [same]
        exact List.mem_singleton_self _
      obtain ⟨_, _, pair⟩ := List.mem_map.mp member
      cases pair
      rfl
  | _ =>
      simp [Shared.lock, Shared.unlock, Shared.setShard, Shared.setFlow, Shared.insert]
        at removed

/-- What a `Sweep` finds in the step in which it takes a flow out. -/
theorem Moves.decides (guards : pc.Guards t s) (sweeps : pc.SweepOf t s.now now)
    (moved : Moves t call s pc act s' pc') (removed : s'.removed = s.removed ++ [(f, call)]) :
    s.Stored f ∧ (s.flow f).lastSeen < (now - t.idle).bmod (2 ^ 64) ∧
      isFrozen (s'.flow f).seen = true ∧ (s'.flow f).lastSeen = (s.flow f).lastSeen := by
  cases moved with
  | scanExpired cutoff i rest victims k g present expired =>
      have same : [(g, call)] = [(f, call)] := List.append_cancel_left removed
      cases same
      rw [← sweeps.1]
      exact ⟨⟨i, k, guards k f present⟩, (Flow.expire_before expired).mp rfl,
        Flow.expire_frozen expired, rfl⟩
  | casExpired cutoff i k g v rest victims flow swapped =>
      have same : [(g, call)] = [(f, call)] := List.append_cancel_left removed
      cases same
      have old : (s.flow f).seen = v := (Flow.expireCas_iff swapped).mp rfl
      have word : ((s.setFlow f flow).flow f) = flow := Shared.setFlow_self f flow
      refine ⟨⟨i, k, guards.2 k f guards.1⟩, ?_, ?_, ?_⟩
      · rw [← sweeps.1.1, Flow.lastSeen, old]
        exact sweeps.2
      · show isFrozen ((s.setFlow f flow).flow f).seen = true
        rw [word]
        exact Flow.expireCas_expired swapped
      · show ((s.setFlow f flow).flow f).lastSeen = _
        rw [word]
        exact Flow.expireCas_lastSeen swapped
  | removeDelete | close => exact sweeps.elim
  | _ =>
      simp [Shared.lock, Shared.unlock, Shared.setShard, Shared.setFlow, Shared.insert]
        at removed

end Calls

/-- A later state of the table: the clock and every flow have only moved forward. -/
structure World.Later {K Call : Type} (w w' : World K Call) : Prop where
  now : w.shared.now ≤ w'.shared.now
  created : w.shared.created ≤ w'.shared.created
  flows : ∀ f < w.shared.created, (w.shared.flow f).Advances (w'.shared.flow f)

structure World.Timed {K Call : Type} [DecidableEq K] (t : Table K) (w : World K Call) :
    Prop where
  frozen : w.Frozen t
  timely : ∀ call, (w.pc call).Timely w.shared

section Runs

variable {K Call : Type} {w w' w'' : World K Call}

theorem World.Later.refl (w : World K Call) : w.Later w :=
  ⟨Int.le_refl _, Nat.le_refl _, fun _ _ => .refl _⟩

theorem World.Later.trans (first : w.Later w') (second : w'.Later w'') : w.Later w'' where
  now := Int.le_trans first.now second.now
  created := Nat.le_trans first.created second.created
  flows f old :=
    (first.flows f old).trans (second.flows f (Nat.lt_of_lt_of_le old first.created))

variable [DecidableEq K] {t : Table K}

theorem World.Timed.start (now : Int) (lastID : UInt64) :
    (World.start now lastID : World K Call).Timed t :=
  ⟨.start now lastID, fun _ => trivial⟩

variable [DecidableEq Call] {action : Action K Call} {actions : List (Action K Call)}

theorem World.Timed.later (timed : w.Timed t) (stepped : w.step t action = some w') :
    w.Later w' := by
  rcases World.step_cases stepped with ⟨call, act, shared, pc, rfl, moved, rfl⟩ | ⟨rfl, rfl⟩
  · have freezes := timed.frozen.freezes call
    exact ⟨moved.now_le (timed.timely call),
      (moved.edits (timed.frozen.guarded.guards call)).created_le,
      fun f old => moved.advances freezes old⟩
  · exact ⟨Int.le_refl _, Nat.le_refl _, fun _ _ => .refl _⟩

theorem World.Timed.step (timed : w.Timed t) (stepped : w.step t action = some w') :
    w'.Timed t := by
  refine ⟨timed.frozen.step stepped, ?_⟩
  have later := timed.later stepped
  rcases World.step_cases stepped with ⟨call, act, shared, pc, rfl, moved, rfl⟩ | ⟨rfl, rfl⟩
  · intro other
    simp only [Function.update_apply]
    split_ifs with acting
    · subst acting
      exact moved.timely timed.frozen.filed (timed.timely other)
    · exact (timed.timely other).later later.created
  · exact timed.timely

theorem World.Timed.exec (timed : w.Timed t)
    (executed : (system Call t).exec w actions = some w') : w'.Timed t ∧ w.Later w' := by
  refine System.exec_keeps (fun u : World K Call => u.Timed t ∧ w.Later u) ?_
    ⟨timed, .refl w⟩ executed
  rintro u action next ⟨kept, later⟩ stepped
  exact ⟨kept.step stepped, later.trans (kept.later stepped)⟩

theorem World.Timed.reached (reached : (system Call t).Reachable w) : w.Timed t := by
  refine reached.invariant (World.Timed t) ?_ fun _ _ _ _ timed stepped => timed.step stepped
  rintro _ ⟨now, lastID, rfl⟩
  exact .start now lastID

variable {c : Call} {now : Int}

/-- A call that is a `Sweep` at time `now` stays one. -/
theorem World.Timed.sweepOf (timed : w.Timed t)
    (executed : (system Call t).exec w actions = some w')
    (sweeps : (w.pc c).SweepOf t w.shared.now now) :
    (w'.pc c).SweepOf t w'.shared.now now := by
  refine (System.exec_keeps (fun u : World K Call => u.Timed t ∧
    (u.pc c).SweepOf t u.shared.now now) ?_ ⟨timed, sweeps⟩ executed).2
  rintro u action next ⟨kept, sweeps⟩ stepped
  refine ⟨kept.step stepped, ?_⟩
  have later := kept.later stepped
  rcases World.step_cases stepped with ⟨call, act, shared, pc, rfl, moved, rfl⟩ | ⟨rfl, rfl⟩
  · simp only [Function.update_apply]
    split_ifs with acting
    · subst acting
      exact moved.sweepOf sweeps
    · exact sweeps.later later.now
  · exact sweeps

/-- A run that starts before `c` was called and has called `Sweep` as `c`. -/
theorem sweepOf_called (timed : w.Timed t)
    (executed : (system Call t).exec w actions = some w')
    (called : .call c (.call (.sweep now)) ∈ actions) :
    (w'.pc c).SweepOf t w'.shared.now now := by
  obtain ⟨front, back, rfl⟩ := List.append_of_mem called
  rw [System.exec_append] at executed
  obtain ⟨u, before, rest⟩ := Option.bind_eq_some_iff.mp executed
  obtain ⟨v, stepped, after⟩ := Option.bind_eq_some_iff.mp rest
  have taken : u.step t (.call c (.call (.sweep now))) = some v := stepped
  refine ((timed.exec before).1.step taken).sweepOf after ?_
  rcases World.step_cases taken with ⟨call, act, shared, pc, same, moved, rfl⟩ | ⟨same, _⟩
  · cases same
    cases moved.called
    simp only [Function.update_self]
    rfl
  · cases same

variable {f : Nat} {reply : Reply}

/-- A call that had not read the clock when it was at `now` touches with a time of at
least that. -/
theorem World.Timed.touching (timed : w.Timed t)
    (executed : (system Call t).exec w actions = some w') (clock : now ≤ w.shared.now)
    (before : (w.pc c).touching = false) {stage : TouchStage}
    (here : w'.pc c = .touch stage f reply) : clear now ≤ stage.now := by
  have kept := System.exec_keeps (fun u : World K Call => (u.Timed t ∧ now ≤ u.shared.now) ∧
    ∀ stage f reply, u.pc c = .touch stage f reply → clear now ≤ stage.now) ?_
    ⟨⟨timed, clock⟩, ?_⟩ executed
  · exact kept.2 stage f reply here
  · rintro u action next ⟨⟨kept, clock⟩, known⟩ stepped
    refine ⟨⟨kept.step stepped, Int.le_trans clock (kept.later stepped).now⟩, ?_⟩
    rcases World.step_cases stepped with ⟨call, act, shared, pc, rfl, moved, rfl⟩ | ⟨rfl, rfl⟩
    · intro stage f reply touches
      simp only [Function.update_apply] at touches
      split_ifs at touches with acting
      · subst acting
        exact moved.touch_now clock (known · f reply) touches
      · exact known stage f reply touches
    · exact known
  · intro stage f reply touches
    rw [touches] at before
    cases before

/-- The step that takes flow `f` out for call `c`. -/
def World.Evicts (t : Table K) (w : World K Call) (c : Call) (f : Nat)
    (action : Action K Call) (next : World K Call) : Prop :=
  w.step t action = some next ∧ next.shared.removed = w.shared.removed ++ [(f, c)]

/-- A `Sweep` evicts a flow only before its cutoff, and freezes it there. -/
theorem World.Timed.evicts (timed : w.Timed t) (sweeps : (w.pc c).SweepOf t w.shared.now now)
    (evicts : w.Evicts t c f action w') :
    f < w'.shared.created ∧ (w.shared.flow f).lastSeen < (now - t.idle).bmod (2 ^ 64) ∧
      isFrozen (w'.shared.flow f).seen = true ∧
      (w'.shared.flow f).lastSeen = (w.shared.flow f).lastSeen := by
  obtain ⟨stepped, removed⟩ := evicts
  have grows := (timed.later stepped).created
  rcases World.step_cases stepped with ⟨call, act, shared, pc, rfl, moved, rfl⟩ | ⟨rfl, rfl⟩
  · obtain rfl := moved.removed_by removed
    obtain ⟨⟨i, k, present⟩, before, frozen, same⟩ :=
      moved.decides (timed.frozen.guarded.guards c) sweeps removed
    have old := timed.frozen.filed.lt_created (timed.frozen.filed.stored i k f present).1
    exact ⟨Nat.lt_of_lt_of_le old grows, before, frozen, same⟩
  · simp at removed

theorem World.Timed.touch_records (timed : w.Timed t) {stage : TouchStage}
    (here : w.pc c = .touch stage f reply) (stepped : w.step t (.call c .next) = some w')
    (returned : w'.pc c = .returned reply) :
    stage.now ≤ (w'.shared.flow f).lastSeen ∨ isFrozen (w'.shared.flow f).seen = true := by
  have sound := timed.frozen.freezes c
  rcases World.step_cases stepped with ⟨call, act, shared, pc, same, moved, rfl⟩ | ⟨same, _⟩
  · cases same
    rw [here] at sound moved
    simp only [Function.update_self] at returned
    exact moved.touch_records sound returned
  · cases same

theorem World.Timed.touch_swaps (timed : w.Timed t) {stored : Int}
    (here : w.pc c = .touch (.cas stored (w.shared.flow f).seen) f reply)
    (stepped : w.step t (.call c .next) = some w') :
    f < w'.shared.created ∧ (w'.shared.flow f).lastSeen = stored := by
  have sound := timed.frozen.freezes c
  have old := timed.timely c
  have grows := (timed.later stepped).created
  rcases World.step_cases stepped with ⟨call, act, shared, pc, same, moved, rfl⟩ | ⟨same, _⟩
  · cases same
    rw [here] at sound old moved
    exact ⟨Nat.lt_of_lt_of_le old grows, moved.touch_swaps sound.1⟩
  · cases same

end Runs

end Netx.FlowTable
