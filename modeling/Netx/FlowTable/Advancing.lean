import Netx.FlowTable.Closing

/-!
# Flows advance

Whatever is done to a flow, its state and its `LastSeen` move forward only, and its word
stays as it is once the flow is frozen.
-/

set_option autoImplicit false

namespace Netx.FlowTable

private theorem isFrozen_eq_true {v : Int} : isFrozen v = true ↔ v % 2 = 1 := by
  simp only [isFrozen, ne_eq, decide_not, Bool.not_eq_true', decide_eq_false_iff_not]
  omega

private theorem isFrozen_eq_false {v : Int} : isFrozen v = false ↔ v % 2 = 0 := by
  simp [isFrozen]

private theorem setFrozen_of_isFrozen {v : Int} (frozen : isFrozen v = true) : setFrozen v = v := by
  rw [isFrozen_eq_true] at frozen
  simp only [setFrozen, clear]
  omega

theorem isFrozen_setFrozen (v : Int) : isFrozen (setFrozen v) = true := by
  rw [isFrozen_eq_true]
  simp only [setFrozen, clear]
  omega

theorem isFrozen_clear (v : Int) : isFrozen (clear v) = false := by
  rw [isFrozen_eq_false]
  simp only [clear]
  omega

theorem clear_mono {v w : Int} (order : v ≤ w) : clear v ≤ clear w := by
  simp only [clear]
  omega

theorem clear_of_live {v : Int} (live : isFrozen v = false) : clear v = v := by
  rw [isFrozen_eq_false] at live
  simp only [clear, live, Int.sub_zero]

theorem clear_setFrozen (v : Int) : clear (setFrozen v) = clear v := by
  simp only [setFrozen, clear]
  omega

namespace Flow

variable {f : Flow}

theorem touch_goes {stage next : TouchStage} (sound : stage.Sound)
    (goes : (f.touch stage).2 = .goes next) : next.Sound := by
  cases stage with
  | load now =>
      simp only [touch] at goes
      split at goes
      · cases goes
      · rename_i newer
        cases goes
        rw [not_or, Int.not_le] at newer
        exact ⟨sound, by simpa using newer.1, newer.2⟩
  | cas now v =>
      simp only [touch] at goes
      split at goes
      · cases goes
      · cases goes
        exact sound.1

end Flow

/-- The order `Open`, `Closing`, `Closed`. -/
def State.rank : State → Nat
  | .opened => 0
  | .closing => 1
  | .closed => 2

namespace Flow

structure Advances (f f' : Flow) : Prop where
  state : f.state.rank ≤ f'.state.rank
  lastSeen : f.lastSeen ≤ f'.lastSeen
  frozen : isFrozen f.seen = true → f'.seen = f.seen

variable {f f' f'' : Flow}

theorem Advances.refl (f : Flow) : f.Advances f :=
  ⟨Nat.le_refl _, Int.le_refl _, fun _ => rfl⟩

theorem Advances.trans (first : f.Advances f') (second : f'.Advances f'') : f.Advances f'' where
  state := Nat.le_trans first.state second.state
  lastSeen := Int.le_trans first.lastSeen second.lastSeen
  frozen before := by
    have kept := first.frozen before
    rw [second.frozen (by rw [kept]; exact before), kept]

theorem Advances.stays_frozen (advances : f.Advances f') (frozen : isFrozen f.seen = true) :
    isFrozen f'.seen = true := by
  rw [advances.frozen frozen]
  exact frozen

theorem Advances.lastSeen_eq (advances : f.Advances f') (frozen : isFrozen f.seen = true) :
    f'.lastSeen = f.lastSeen :=
  congrArg clear (advances.frozen frozen)

theorem State.rank_le_closed (s : State) : s.rank ≤ State.closed.rank := by
  cases s <;> decide

theorem Writes.advances {sound : Prop} (writes : f.Writes sound f') (holds : sound) :
    f.Advances f' := by
  cases writes with
  | same => exact .refl f
  | begins opened =>
      exact ⟨by rw [opened]; exact Nat.zero_le 1, Int.le_refl _, fun _ => rfl⟩
  | closes => exact ⟨State.rank_le_closed f.state, Int.le_refl _, fun _ => rfl⟩
  | freezes =>
      exact ⟨Nat.le_refl _, Int.le_of_eq (clear_setFrozen f.seen).symm, setFrozen_of_isFrozen⟩
  | touches now later =>
      obtain ⟨live, later⟩ := later holds
      refine ⟨Nat.le_refl _, clear_mono (Int.le_of_lt later), fun frozen => ?_⟩
      rw [live] at frozen
      cases frozen

theorem touch_state (f : Flow) (stage : TouchStage) : (f.touch stage).1.state = f.state := by
  cases stage with
  | load now => rfl
  | cas now v =>
      simp only [touch]
      split <;> rfl

theorem expireCas_state (f : Flow) (v : Int) : (f.expireCas v).1.state = f.state := by
  unfold expireCas
  split <;> rfl

end Flow

section Table

variable {K Call : Type} {t : Table K} {call : Call} {s s' : Shared K Call}
  {pc pc' : Pc K} {act : Act K}

theorem Shared.setFlow_of_ne {f g : Nat} (other : g ≠ f) (flow : Flow) :
    (s.setFlow f flow).flow g = s.flow g :=
  Function.update_of_ne other _ _

variable [DecidableEq K]

/-- A step of a call advances every flow there is. -/
theorem Moves.advances (freezes : pc.Freezes s) (moved : Moves t call s pc act s' pc') {g : Nat}
    (old : g < s.created) : (s.flow g).Advances (s'.flow g) :=
  (moved.writes old).advances freezes

end Table

end Netx.FlowTable
