import Netx.FlowTable.LeaveContract
import Netx.FlowTable.LoneSweep
import Netx.Transition.Refinement

/-!
# What a pass over the shards leaves behind

`Close` and `Sweep` go through the shards one after the other while other calls open,
touch and remove flows. A shard that a pass has dealt with may get new flows, but the
flows from before the pass are gone from it, or were spared for a reason.
-/

set_option autoImplicit false

namespace Netx.FlowTable

open Transition

section Covering

variable {K Call : Type} [DecidableEq K] {t : Table K} {s s' : Shared K Call}

/-- Every flow at a covered place satisfies `kept`. -/
def Shared.Covers (s : Shared K Call) (covered : Nat → K → Prop) (kept : Nat → Prop) : Prop :=
  ∀ i k f, covered i k → (s.shard i).m.lookup k = some f → kept f

theorem Edits.present (edits : Edits t s s') {i : Nat} {k : K} {f : Nat}
    (present : (s'.shard i).m.lookup k = some f) :
    (s.shard i).m.lookup k = some f ∨ f = s.created := by
  cases edits with
  | same maps =>
      rw [maps] at present
      exact .inl present
  | takes j victims _ _ maps =>
      rw [maps] at present
      split at present
      · cases present
      · exact .inl present
  | opens k' absent maps =>
      rw [maps] at present
      by_cases shard : i = t.shard k'
      · rw [if_pos shard] at present
        by_cases key : k = k'
        · rw [key, AList.lookup_insert] at present
          cases present
          exact .inr rfl
        · rw [AList.lookup_insert_ne key, ← shard] at present
          exact .inl present
      · rw [if_neg shard] at present
        exact .inl present

theorem Edits.covers (edits : Edits t s s') {covered : Nat → K → Prop} {kept : Nat → Prop}
    (covers : s.Covers covered kept) (fresh : kept s.created) : s'.Covers covered kept := by
  intro i k f here present
  rcases edits.present present with before | new
  · exact covers i k f here before
  · exact new ▸ fresh

theorem Shared.Filed.beyond (filed : s.Filed t) {i : Nat} (last : t.size ≤ i) (k : K) :
    (s.shard i).m.lookup k = none := by
  cases present : (s.shard i).m.lookup k with
  | none => rfl
  | some f =>
      have place := (filed.stored i k f present).2
      have bound := t.shard_lt k
      omega

end Covering

/-- Where a `Close` can be after it was called. -/
def Pc.CloseOf {K : Type} : Pc K → Prop
  | .close _ | .closing _ _ | .returned _ => True
  | .closed _ _ _ after | .onClose _ _ after | .inOnClose _ _ after =>
      ∃ i rest, after = .close i rest
  | _ => False

/-- The shards that a `Close` has emptied. -/
def Pc.Cleared {K : Type} : Pc K → Nat → Prop
  | .close i, j => j < i
  | .closing i _, j => j ≤ i
  | .closed _ _ _ (.close i _), j => j ≤ i
  | .onClose _ _ (.close i _), j => j ≤ i
  | .inOnClose _ _ (.close i _), j => j ≤ i
  | .returned .closed, _ => True
  | _, _ => False

section Close

variable {K Call : Type} [DecidableEq K] {t : Table K} {call : Call} {s s' : Shared K Call}
  {pc pc' : Pc K} {act : Act K}

theorem Moves.cleared (closes : pc.CloseOf) (moved : Moves t call s pc act s' pc') :
    pc'.CloseOf ∧ ∀ j, pc'.Cleared j →
      pc.Cleared j ∨ (∀ k, (s'.shard j).m.lookup k = none) ∨ t.size ≤ j := by
  cases moved with
  | close i inside free =>
      refine ⟨trivial, fun j cleared => ?_⟩
      by_cases here : j = i
      · refine .inr (.inl fun k => ?_)
        rw [Shared.takeAll_m, if_pos here]
        rfl
      · exact .inl (Nat.lt_of_le_of_ne cleared here)
  | closeDone i last =>
      refine ⟨trivial, fun j _ => ?_⟩
      by_cases before : j < i
      · exact .inl before
      · exact .inr (.inr (by omega))
  | closeNext i rest => exact ⟨trivial, fun j cleared => .inl (Nat.le_of_lt_succ cleared)⟩
  | closeVisit i rest k f => exact ⟨⟨i, rest.erase k, rfl⟩, fun j cleared => .inl cleared⟩
  | closing stage stage' k f after | closed stage k f after | onClose k f after =>
      obtain ⟨i, rest, rfl⟩ := closes
      exact ⟨⟨i, rest, rfl⟩, fun j cleared => .inl cleared⟩
  | closedUnset stage k f after | onCloseReturns k f after =>
      obtain ⟨i, rest, rfl⟩ := closes
      exact ⟨trivial, fun j cleared => .inl cleared⟩
  | onClosePanics => exact ⟨trivial, fun j cleared => cleared.elim⟩
  | _ => exact closes.elim

variable [DecidableEq Call] {w₀ w next : World K Call} {action : Action K Call} {c : Call}

/-- What a `Close` that was called when `born` flows existed has come to. -/
structure World.Clearing (t : Table K) (c : Call) (born : Nat) (w : World K Call) : Prop where
  timed : w.Timed t
  closes : (w.pc c).CloseOf
  grown : born ≤ w.shared.created
  covers : w.shared.Covers (fun i _ => (w.pc c).Cleared i) (born ≤ ·)

theorem World.Clearing.step {born : Nat} (clearing : w.Clearing t c born)
    (stepped : w.step t action = some next) : next.Clearing t c born := by
  have timed := clearing.timed.step stepped
  have grown := Nat.le_trans clearing.grown (clearing.timed.later stepped).created
  rcases World.step_cases stepped with ⟨call, act, shared, pc, rfl, moved, rfl⟩ | ⟨rfl, rfl⟩
  · have guards := clearing.timed.frozen.guarded.guards call
    have covers := (moved.edits guards).covers clearing.covers clearing.grown
    by_cases acting : c = call
    · subst acting
      obtain ⟨closes, cleared⟩ := moved.cleared clearing.closes
      refine ⟨timed, ?_, grown, ?_⟩
      · simp only [Function.update_self]
        exact closes
      · intro i k f here present
        simp only [Function.update_self] at here
        rcases cleared i here with before | empty | beyond
        · exact covers i k f before present
        · rw [empty k] at present
          cases present
        · rw [timed.frozen.filed.beyond beyond k] at present
          cases present
    · refine ⟨timed, ?_, grown, ?_⟩
      · simp only [Function.update_of_ne acting]
        exact clearing.closes
      · simp only [Function.update_of_ne acting]
        exact covers
  · exact ⟨timed, clearing.closes, grown, clearing.covers⟩

/-- When `Close` returns, whatever other calls did meanwhile, every flow in the table was
opened after it was called. -/
theorem close_leaves_new_only {actions : List (Action K Call)}
    (reached : (system Call t).Reachable w₀) (called : w₀.pc c = .close 0)
    (executed : (system Call t).exec w₀ actions = some w) (returned : w.pc c = .returned .closed)
    {f : Nat} (stored : w.shared.Stored f) : w₀.shared.created ≤ f := by
  have start : w₀.Clearing t c w₀.shared.created := by
    refine ⟨.reached reached, ?_, Nat.le_refl _, fun i k f here _ => ?_⟩
    · rw [called]
      trivial
    · rw [called] at here
      exact absurd here (Nat.not_lt_zero i)
  have clearing := System.exec_keeps (World.Clearing t c w₀.shared.created)
    (fun _ _ _ held stepped => World.Clearing.step held stepped) start executed
  obtain ⟨i, k, present⟩ := stored
  refine clearing.covers i k f ?_ present
  rw [returned]
  trivial

end Close

def oneShard : Table Nat :=
  newTable ⟨1, 5, false⟩ fun _ => 0

def opens (call key : Nat) : List (Action Nat Nat) :=
  calls call (.call (.getOrOpen key false)) ++ nexts call 3

def closeCalled : List (Action Nat Nat) :=
  [opens 0 7, opens 1 9, calls 2 (.call .close)].flatten

/-- Key 9 is opened again in the shard that `Close` has emptied. -/
def closeOvertaken : List (Action Nat Nat) :=
  [nexts 2 1, opens 3 9, calls 2 (.visit 9), nexts 2 3, calls 2 (.visit 7), nexts 2 5].flatten

theorem close_leaves_new_only_reopened :
    ∃ w₀ w, (system Nat oneShard).exec (.start 0 0) closeCalled = some w₀ ∧
      (system Nat oneShard).exec w₀ closeOvertaken = some w ∧ w.shared.Stored 2 ∧
      w₀.shared.created ≤ 2 := by
  have result : ∀ w₀ w : World Nat Nat,
      (system Nat oneShard).exec (.start 0 0) closeCalled = some w₀ → w₀.pc 2 = .close 0 →
      (system Nat oneShard).exec w₀ closeOvertaken = some w → w.pc 2 = .returned .closed →
      w.shared.Stored 2 → w₀.shared.created ≤ 2 :=
    fun w₀ w opened called executed returned stored =>
      close_leaves_new_only (.exec (.initial ⟨0, 0, rfl⟩) opened) called executed returned stored
  exact ⟨_, _, rfl, rfl, ⟨0, 9, rfl⟩, result _ _ rfl rfl rfl rfl ⟨0, 9, rfl⟩⟩

section Sweep

variable {K Call : Type} [DecidableEq K] {t : Table K} {call : Call} {s s' : Shared K Call}
  {pc pc' : Pc K} {act : Act K} {now : Int}

/-- A `Sweep` that is done with the entry of flow `g` has let it stay: it saw it recently,
or lost a compare-and-swap on its word. -/
def Pc.LetsStay {Call : Type} (t : Table K) (now : Int) (s : Shared K Call) (pc : Pc K) (k : K)
    (g : Nat) : Prop :=
  (now - t.idle).bmod (2 ^ 64) ≤ (s.flow g).lastSeen ∨
    ∃ cutoff i v rest found, pc = .scanCas cutoff i k g v rest found ∧ (s.flow g).seen ≠ v

theorem lookup_of_keys_nil {m : Flows K} (empty : m.keys = []) (k : K) : m.lookup k = none := by
  rw [AList.lookup_eq_none, AList.mem_keys, empty]
  exact List.not_mem_nil

private theorem lookup_erase_none {rest : Flows K} {k k' : K} {i j : Nat}
    (decided : j < i ∨ j = i ∧ (rest.erase k').lookup k = none) :
    (j < i ∨ j = i ∧ rest.lookup k = none) ∨ j = i ∧ k = k' := by
  rcases decided with before | ⟨here, gone⟩
  · exact .inl (.inl before)
  · by_cases same : k = k'
    · exact .inr ⟨here, same⟩
    · rw [AList.lookup_erase_ne same] at gone
      exact .inl (.inr ⟨here, gone⟩)

theorem Moves.decided (positive : 0 < t.idle) (sweeps : pc.SweepOf t s.now now)
    (guards : pc.Guards t s) (moved : Moves t call s pc act s' pc') {j : Nat} {k : K} {g : Nat}
    (decided : pc'.Decided j k) (present : (s'.shard j).m.lookup k = some g) :
    pc.Decided j k ∨ t.size ≤ j ∨ pc.LetsStay t now s k g := by
  cases moved with
  | advancedOff n _ off | advanceCasOff n off => omega
  | advanced | advanceCas => exact absurd decided (Nat.not_lt_zero j)
  | advance | advanceAgain => exact decided.elim
  | sweep cutoff i victims inside free =>
      rcases decided with before | ⟨here, absent⟩
      · exact .inl before
      · rw [Shared.lock_m, here, absent] at present
        cases present
  | sweepDone cutoff i victims last =>
      by_cases before : j < i
      · exact .inl before
      · exact .inr (.inl (by omega))
  | scanNext cutoff i rest victims empty =>
      rcases Nat.lt_succ_iff_lt_or_eq.mp decided with before | here
      · exact .inl (.inl before)
      · exact .inl (.inr ⟨here, lookup_of_keys_nil empty k⟩)
  | scanKept cutoff i rest victims k' f found kept =>
      rcases lookup_erase_none decided with before | ⟨rfl, rfl⟩
      · exact .inl before
      · rw [guards k f found] at present
        cases present
        have recent := (Flow.expire_before kept).not.mp Bool.false_ne_true
        rw [sweeps.1] at recent
        exact .inr (.inr (.inl (Int.not_lt.mp recent)))
  | scanExpired cutoff i rest victims k' f | casExpired cutoff i k' f v rest victims =>
      rcases lookup_erase_none decided with before | ⟨rfl, rfl⟩
      · exact .inl before
      · rw [Shared.delete_m, if_pos rfl, AList.lookup_erase] at present
        cases present
  | scanLoaded => exact .inl decided
  | casKept cutoff i k' f v rest victims flow lost =>
      rcases lookup_erase_none decided with before | ⟨rfl, rfl⟩
      · exact .inl before
      · have known : (s.shard j).m.lookup k = some g := present
        rw [guards.2 k f guards.1] at known
        cases known
        have other := (Flow.expireCas_iff lost).not.mp Bool.false_ne_true
        exact .inr (.inr (.inr ⟨cutoff, j, v, rest, victims, rfl, other⟩))
  | swept | victim | closing | closed | closedUnset | onClose | onCloseReturns | onClosePanics =>
      exact .inl trivial
  | _ => exact sweeps.elim

variable {w₀ w next : World K Call} {c : Call} {f : Nat} {word : Int}

theorem Moves.loads (same : ∀ k i, (s.shard i).m.lookup k = some f → (s.flow f).seen = word)
    (sweeps : pc.SweepOf t s.now now) (guards : pc.Guards t s)
    (moved : Moves t call s pc act s' pc') {cutoff v : Int} {i : Nat} {k : K} {rest : Flows K}
    {found : List (Victim K)} (here : pc' = .scanCas cutoff i k f v rest found) : v = word := by
  cases moved with
  | call => exact sweeps.elim
  | scanLoaded cutoff i rest victims k f v present goes =>
      cases here
      rw [(Flow.expire_goes goes).1]
      exact same k i (guards k f present)
  | closedUnset stage k f after | onCloseReturns k f after => cases after <;> cases here
  | _ => cases here

/-- How far a `Sweep` has come that leaves out flow `f`, of which nobody changes the word
while it is in the table. -/
structure World.Missing (t : Table K) (c : Call) (now : Int) (f : Nat) (word : Int)
    (w : World K Call) : Prop where
  timed : w.Timed t
  sweeps : (w.pc c).SweepOf t w.shared.now now
  old : f < w.shared.created
  same : w.shared.Stored f → (w.shared.flow f).seen = word
  covers : w.shared.Covers (w.pc c).Decided (· ≠ f)
  loaded : ∀ cutoff i k v rest found, w.pc c = .scanCas cutoff i k f v rest found → v = word

theorem World.Missing.not_spared (missing : w.Missing t c now f word) {i : Nat} {k : K}
    (present : (w.shared.shard i).m.lookup k = some f)
    (idle : clear word < (now - t.idle).bmod (2 ^ 64)) :
    ¬(w.pc c).LetsStay t now w.shared k f := by
  have same := missing.same ⟨i, k, present⟩
  rintro (recent | ⟨cutoff, i, v, rest, found, here, other⟩)
  · rw [Flow.lastSeen, same] at recent
    omega
  · exact other (same.trans (missing.loaded cutoff i k v rest found here).symm)

variable [DecidableEq Call] {action : Action K Call}

theorem World.Missing.step (positive : 0 < t.idle)
    (idle : clear word < (now - t.idle).bmod (2 ^ 64))
    (missing : w.Missing t c now f word) (stepped : w.step t action = some next)
    (same : next.shared.Stored f → (next.shared.flow f).seen = word) :
    next.Missing t c now f word := by
  have timed := missing.timed.step stepped
  have later := missing.timed.later stepped
  have old := Nat.lt_of_lt_of_le missing.old later.created
  have single : (system Call t).exec w [action] = some next := System.exec_step stepped rfl
  have sweeps := missing.timed.sweepOf single missing.sweeps
  rcases World.step_cases stepped with ⟨call, act, shared, pc, rfl, moved, rfl⟩ | ⟨rfl, rfl⟩
  · have guards := missing.timed.frozen.guarded.guards call
    have covers := (moved.edits guards).covers missing.covers (Nat.ne_of_gt missing.old)
    by_cases acting : c = call
    · subst acting
      refine ⟨timed, sweeps, old, same, ?_, ?_⟩ <;> simp only [Function.update_self]
      · rintro i k g decided present rfl
        rcases moved.decided positive missing.sweeps guards decided present with
          before | beyond | spared
        · exact covers i k g before present rfl
        · rw [timed.frozen.filed.beyond beyond k] at present
          cases present
        · rcases (moved.edits guards).present present with known | new
          · exact missing.not_spared known idle spared
          · exact Nat.ne_of_lt missing.old new
      · intro cutoff i k v rest found here
        exact moved.loads (fun k i present => missing.same ⟨i, k, present⟩) missing.sweeps guards
          here
    · refine ⟨timed, sweeps, old, same, ?_, ?_⟩ <;> simp only [Function.update_of_ne acting]
      · exact covers
      · exact missing.loaded
  · exact ⟨timed, sweeps, old, same, missing.covers, missing.loaded⟩

/-- When `Sweep` returns, whatever other calls did meanwhile, a flow from before is still in
the table only if it had been seen recently, or if its word was changed during the sweep. -/
theorem sweep_survivors_justified {actions : List (Action K Call)}
    (reached : (system Call t).Reachable w₀) (positive : 0 < t.idle)
    (low : -2 ^ 63 ≤ now - t.idle) (high : now - t.idle < 2 ^ 63)
    (called : w₀.pc c = .advance now) (executed : (system Call t).exec w₀ actions = some w)
    {n : Nat} (returned : w.pc c = .returned (.swept n)) (old : f < w₀.shared.created)
    (stored : w.shared.Stored f) :
    now - t.idle ≤ (w₀.shared.flow f).lastSeen ∨
      ∃ u, (system Call t).Visits w₀ actions u ∧ u.shared.Stored f ∧
        (u.shared.flow f).seen ≠ (w₀.shared.flow f).seen := by
  by_contra unjustified
  obtain ⟨before, unchanged⟩ := not_or.mp unjustified
  have cutoff : (now - t.idle).bmod (2 ^ 64) = now - t.idle := by
    apply Int.bmod_eq_of_le <;> omega
  have idle : clear (w₀.shared.flow f).seen < (now - t.idle).bmod (2 ^ 64) := by
    rw [cutoff]
    exact Int.not_le.mp before
  have same : ∀ u, (system Call t).Visits w₀ actions u → u.shared.Stored f →
      (u.shared.flow f).seen = (w₀.shared.flow f).seen := by
    intro u visited inside
    by_contra other
    exact unchanged ⟨u, visited, inside, other⟩
  have start : w₀.Missing t c now f (w₀.shared.flow f).seen := by
    refine ⟨.reached reached, ?_, old, fun _ => rfl, fun i k g here => ?_,
      fun _ _ _ _ _ _ here => ?_⟩
    · rw [called]
      rfl
    · rw [called] at here
      exact here.elim
    · rw [called] at here
      cases here
  have missing := System.exec_keeps_visited
    (World.Missing t c now f (w₀.shared.flow f).seen)
    (fun _ _ next visited held stepped =>
      World.Missing.step positive idle held stepped (same next visited)) start executed
  obtain ⟨i, k, present⟩ := stored
  refine missing.covers i k f ?_ present rfl
  rw [returned]
  trivial

end Sweep

def sweepCalled : List (Action Nat Nat) :=
  [opens 0 7, opens 1 8, calls 2 (.call (.sweep 100))].flatten

/-- Flow 0 is touched when the sweep has loaded its word, and flow 1 is not. -/
def sweepOvertaken : List (Action Nat Nat) :=
  [nexts 2 3, calls 2 (.visit 7), calls 3 (.call (.touch 0)), nexts 3 3, nexts 2 1,
    calls 2 (.visit 8), nexts 2 8].flatten

theorem sweep_survivors_justified_touched :
    ∃ w₀ w, (system Nat oneShard).exec (.start 0 0) sweepCalled = some w₀ ∧
      (system Nat oneShard).exec w₀ sweepOvertaken = some w ∧ w.shared.Stored 0 ∧
      (100 - 5 ≤ (w₀.shared.flow 0).lastSeen ∨
        ∃ u, (system Nat oneShard).Visits w₀ sweepOvertaken u ∧ u.shared.Stored 0 ∧
          (u.shared.flow 0).seen ≠ (w₀.shared.flow 0).seen) := by
  have result : ∀ w₀ w : World Nat Nat,
      (system Nat oneShard).exec (.start 0 0) sweepCalled = some w₀ →
      w₀.pc 2 = .advance 100 → (system Nat oneShard).exec w₀ sweepOvertaken = some w →
      w.pc 2 = .returned (.swept 1) → 0 < w₀.shared.created → w.shared.Stored 0 →
      100 - 5 ≤ (w₀.shared.flow 0).lastSeen ∨
        ∃ u, (system Nat oneShard).Visits w₀ sweepOvertaken u ∧ u.shared.Stored 0 ∧
          (u.shared.flow 0).seen ≠ (w₀.shared.flow 0).seen :=
    fun w₀ w opened called executed returned old stored =>
      sweep_survivors_justified (.exec (.initial ⟨0, 0, rfl⟩) opened) (by decide) (by decide)
        (by decide) called executed returned old stored
  exact ⟨_, _, rfl, rfl, ⟨0, 7, rfl⟩,
    result _ _ rfl rfl rfl rfl (by decide) ⟨0, 7, rfl⟩⟩

end Netx.FlowTable
