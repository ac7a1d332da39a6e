import Netx.FlowTable.Freezing

/-!
# Sparing a flow

What the steps of calls do to a flow that none of them closes or takes out: its
`LastSeen` moves forward only, and a `Touch` that returns has moved it to the time
the `Touch` read.
-/

set_option autoImplicit false

namespace Netx.FlowTable

def TouchStage.now : TouchStage → Int
  | .load now => now
  | .cas now _ => now

namespace Flow

variable {f : Flow} {stage : TouchStage}

theorem touch_seen (sound : stage.Sound) : f.seen ≤ (f.touch stage).1.seen ∧
    (isFrozen f.seen = false → isFrozen (f.touch stage).1.seen = false) := by
  cases stage with
  | load now => exact ⟨le_rfl, fun live => live⟩
  | cas now v =>
      simp only [touch]
      split
      · rename_i same
        exact ⟨same ▸ sound.2.2.le, fun _ => sound.1⟩
      · exact ⟨le_rfl, fun live => live⟩

theorem touch_goes_now {next : TouchStage} (goes : (f.touch stage).2 = .goes next) :
    next.now = stage.now := by
  cases stage with
  | load now =>
      simp only [touch] at goes
      split at goes
      · cases goes
      · cases goes
        rfl
  | cas now v =>
      simp only [touch] at goes
      split at goes
      · cases goes
      · cases goes
        rfl

/-- A `Touch` that returns has recorded its time, unless the flow is frozen. -/
theorem touch_returns {result : Unit} (live : isFrozen f.seen = false)
    (returned : (f.touch stage).2 = .returns result) : stage.now ≤ (f.touch stage).1.seen := by
  cases stage with
  | load now =>
      simp only [touch] at returned ⊢
      split at returned
      · rename_i old
        rcases old with frozen | later
        · rw [live] at frozen
          cases frozen
        · exact later
      · cases returned
  | cas now v =>
      simp only [touch] at returned ⊢
      split at returned
      · rename_i same
        rw [if_pos same]
        exact le_rfl
      · cases returned

end Flow

section Spares

variable {K : Type}

def After.Spares (f : Nat) : After K → Prop
  | .remove => True
  | .sweep rest _ => ∀ v ∈ rest, v.2 ≠ f
  | .close _ _ => False

/-- The call neither closes flow `f` nor takes it out. -/
def Pc.Spares (f : Nat) : Pc K → Prop
  | .removeFreeze _ g | .removeDelete _ g => g ≠ f
  | .sweep _ _ found | .scan _ _ _ found => ∀ v ∈ found, v.2 ≠ f
  | .scanCas _ _ _ g _ _ found => g ≠ f ∧ ∀ v ∈ found, v.2 ≠ f
  | .victims rest _ => ∀ v ∈ rest, v.2 ≠ f
  | .closed _ _ g after => g ≠ f ∧ after.Spares f
  | .onClose _ _ after | .inOnClose _ _ after => after.Spares f
  | .beginClose _ g | .flowClose _ g => g ≠ f
  | .close _ | .closing _ _ => False
  | _ => True

/-- The operations that leave flow `f` alone. -/
def Op.spares (f : Nat) : Op K → Bool
  | .close => false
  | .beginClose g | .flowClose g => g ≠ f
  | _ => true

theorem After.Spares.next {f : Nat} {after : After K} (spares : after.Spares f) :
    after.next.Spares f := by
  cases after with
  | remove => trivial
  | sweep rest count => exact spares
  | close i rest => cases spares

private theorem mem_concat_spares {f : Nat} {found : List (Victim K)} {k : K} {g : Nat}
    (spares : ∀ v ∈ found, v.2 ≠ f) (other : g ≠ f) : ∀ v ∈ found ++ [⟨k, g⟩], v.2 ≠ f := by
  intro v member
  rcases List.mem_append.mp member with earlier | last
  · exact spares v earlier
  · rw [List.mem_singleton.mp last]
    exact other

theorem Op.first_spares {f : Nat} {op : Op K} (spares : op.spares f = true) :
    op.first.Spares f := by
  cases op with
  | close => cases spares
  | beginClose g | flowClose g =>
      show g ≠ f
      exact of_decide_eq_true spares
  | _ => trivial

/-- The call is in the part of `Sweep` that moves the clock or visits flows. -/
def Pc.sweeping : Pc K → Bool
  | .advance _ | .advanceCas _ _ | .sweep _ _ _ | .scan _ _ _ _ | .scanCas _ _ _ _ _ _ _ => true
  | _ => false

/-- Where a `Sweep` at time `now` is, and what it knows of a clock that began at `start`. -/
def Pc.SweepsAt (t : Table K) (start clock now : Int) : Pc K → Prop
  | .idle => False
  | .advance n => n = now
  | .advanceCas n cur => n = now ∧ cur < n
  | .sweep cutoff _ _ | .scan cutoff _ _ _ | .scanCas cutoff _ _ _ _ _ _ =>
      cutoff = (now - t.idle).bmod (2 ^ 64) ∧ clock = max start now
  | _ => clock = max start now

theorem After.next_sweeping (after : After K) : after.next.sweeping = false := by
  cases after <;> rfl

end Spares

section Calls

variable {K Call : Type} [DecidableEq K] {t : Table K} {call : Call} {s s' : Shared K Call}
  {pc pc' : Pc K} {act : Act K} {f : Nat}

/-- The word of a spared flow moves forward and stays unfrozen. -/
theorem Moves.seen_spared (spares : pc.Spares f) (freezes : pc.Freezes s)
    (moved : Moves t call s pc act s' pc') (old : f < s.created) :
    (s.flow f).seen ≤ (s'.flow f).seen ∧
      (isFrozen (s.flow f).seen = false → isFrozen (s'.flow f).seen = false) := by
  have same : s'.flow f = s.flow f → (s.flow f).seen ≤ (s'.flow f).seen ∧
      (isFrozen (s.flow f).seen = false → isFrozen (s'.flow f).seen = false) := by
    intro same
    rw [same]
    exact ⟨le_rfl, fun live => live⟩
  cases moved with
  | insert k id => exact same (Function.update_of_ne (Nat.ne_of_lt old) _ _)
  | casKept | casExpired | closing | closed | closedUnset =>
      exact same (Shared.setFlow_of_ne (Ne.symm spares.1) _)
  | removeFreeze | beginning | began | flowClosing | flowClosed =>
      exact same (Shared.setFlow_of_ne (Ne.symm spares) _)
  | touching stage _ g reply flow swapped | touched stage g reply flow _ swapped =>
      by_cases here : f = g
      · subst here
        have forward := Flow.touch_seen (f := s.flow f) freezes
        rw [swapped] at forward
        rwa [Shared.setFlow_self]
      · exact same (Shared.setFlow_of_ne here _)
  | _ => exact same rfl

theorem Moves.spares (spares : pc.Spares f)
    (entered : ∀ op, act = .call op → op.spares f = true)
    (removed : ∀ k id, pc = .remove k id → (s.shard (t.shard k)).m.lookup k = some f →
      (s.flow f).id ≠ id)
    (kept : ∀ cutoff i rest found k, pc = .scan cutoff i rest found →
      rest.lookup k = some f → (s.flow f).expire cutoff = .returns false)
    (moved : Moves t call s pc act s' pc') : pc'.Spares f := by
  cases moved with
  | call op => exact op.first_spares (entered op rfl)
  | remove k id g free present same =>
      rintro rfl
      exact removed k id rfl present same
  | advanced | advanceCas => exact fun _ => nofun
  | removeFreeze | sweep | sweepDone | scanNext | scanKept | closing | onClose | beginning
  | flowClosing => exact spares
  | removeDelete => exact ⟨spares, trivial⟩
  | casKept => exact spares.2
  | scanExpired cutoff i rest found k g present expired =>
      refine mem_concat_spares spares ?_
      rintro rfl
      rw [kept cutoff i rest found k rfl present] at expired
      cases expired
  | scanLoaded cutoff i rest found k g v present loaded =>
      refine ⟨?_, spares⟩
      rintro rfl
      rw [kept cutoff i rest found k rfl present] at loaded
      cases loaded
  | casExpired => exact mem_concat_spares spares.2 spares.1
  | victim k g rest count =>
      exact ⟨spares _ List.mem_cons_self, fun v member => spares v (List.mem_cons_of_mem _ member)⟩
  | closed => exact spares.2
  | closedUnset => exact spares.2.next
  | onCloseReturns k g after => exact After.Spares.next spares
  | close | closeDone | closeNext | closeVisit => cases spares
  | _ => trivial

/-- Only a `Sweep` moves the clock. -/
theorem Moves.not_sweeping (quiet : pc.sweeping = false)
    (other : ∀ now, act ≠ .call (.sweep now)) (moved : Moves t call s pc act s' pc') :
    s'.now = s.now ∧ pc'.sweeping = false := by
  cases moved with
  | call op =>
      cases op with
      | sweep now => exact absurd rfl (other now)
      | _ => exact ⟨rfl, rfl⟩
  | closedUnset stage k g after | onCloseReturns k g after => exact ⟨rfl, after.next_sweeping⟩
  | advancedOff | advanced | advance | advanceCasOff | advanceCas | advanceAgain | sweep
  | sweepDone | scanNext | scanKept | scanExpired | scanLoaded | casKept | casExpired =>
      cases quiet
  | _ => exact ⟨rfl, rfl⟩

theorem Moves.sweepsAt {start now : Int} (above : start ≤ s.now) (behind : s.now ≤ max start now)
    (sweeps : pc.SweepsAt t start s.now now) (moved : Moves t call s pc act s' pc') :
    pc'.SweepsAt t start s'.now now ∧ s.now ≤ s'.now ∧ s'.now ≤ max start now := by
  cases moved with
  | call => cases sweeps
  | advancedOff n late =>
      obtain rfl : n = now := sweeps
      exact ⟨le_antisymm behind (max_le above late), le_rfl, behind⟩
  | advanced n late =>
      obtain rfl : n = now := sweeps
      exact ⟨⟨rfl, le_antisymm behind (max_le above late)⟩, le_rfl, behind⟩
  | advance n early => exact ⟨⟨sweeps, early⟩, le_rfl, behind⟩
  | advanceAgain => exact ⟨sweeps.1, le_rfl, behind⟩
  | advanceCasOff n =>
      obtain ⟨rfl, early⟩ := sweeps
      have reached : n = max start n := (max_eq_right (above.trans early.le)).symm
      exact ⟨reached, early.le, reached.le⟩
  | advanceCas n =>
      obtain ⟨rfl, early⟩ := sweeps
      have reached : n = max start n := (max_eq_right (above.trans early.le)).symm
      exact ⟨⟨rfl, reached⟩, early.le, reached.le⟩
  | sweepDone => exact ⟨sweeps.2, le_rfl, behind⟩
  | closedUnset stage k g after | onCloseReturns k g after =>
      cases after <;> exact ⟨sweeps, le_rfl, behind⟩
  | _ => exact ⟨sweeps, le_rfl, behind⟩

end Calls

end Netx.FlowTable
