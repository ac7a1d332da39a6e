import Netx.FlowTable.Leaving

/-!
# Closing a flow that has left

A flow is closed, by whomever, before `OnClose` is called for it, and `Sweep`
counts the flows it takes out.
-/

set_option autoImplicit false

namespace Netx.FlowTable

section Flows

variable {K Call : Type} {s : Shared K Call}

theorem Shared.setFlow_self (f : Nat) (flow : Flow) : (s.setFlow f flow).flow f = flow := by
  simp only [Shared.setFlow, Function.update_self]

theorem Shared.setFlow_writes {sound : Prop} {g : Nat} {flow : Flow}
    (writes : (s.flow g).Writes sound flow) (f : Nat) :
    (s.flow f).Writes sound ((s.setFlow g flow).flow f) := by
  by_cases same : f = g
  · subst same
    rw [Shared.setFlow_self]
    exact writes
  · simp only [Shared.setFlow, Function.update_of_ne same]
    exact .same

end Flows

theorem CloseStage.Stands.forward {f f' : Flow} {stage : CloseStage} (stands : stage.Stands f)
    (forward : f.Forward f') : stage.Stands f' := by
  cases stage with
  | freeze => exact forward.closed stands
  | _ => trivial

/-- What a call knows of the word it is about to swap, or of the flow it takes out. -/
def Pc.Freezes {K Call : Type} (s : Shared K Call) : Pc K → Prop
  | .touch stage _ _ => stage.Sound
  | .removeDelete _ f => isFrozen (s.flow f).seen = true
  | _ => True

/-- What a call knows of the flow it is closing. -/
def Pc.Stands {K Call : Type} (s : Shared K Call) : Pc K → Prop
  | .closed stage _ f _ => stage.Stands (s.flow f)
  | .onClose _ f _ => (s.flow f).state = .closed
  | .inOnClose k f _ => (s.flow f).state = .closed ∧ (k, f) ∈ s.reports
  | _ => True

def Reply.Counts (n : Nat) : Reply → Prop
  | .swept count => n = count
  | _ => True

def After.Counts {K : Type} (n : Nat) : After K → Prop
  | .sweep _ count => n = count
  | _ => True

/-- What a `Sweep` takes for the number of flows it has taken out. -/
def Pc.Counts {K : Type} (n : Nat) : Pc K → Prop
  | .idle | .advance _ | .advanceCas _ _ => n = 0
  | .sweep _ _ found | .scan _ _ _ found | .scanCas _ _ _ _ _ _ found => n = found.length
  | .victims _ count => n = count
  | .closed _ _ _ after | .onClose _ _ after | .inOnClose _ _ after => after.Counts n
  | .touchClock _ reply | .touch _ _ reply | .returned reply => reply.Counts n
  | _ => True

section Afters

variable {K Call : Type}

theorem After.next_stands (s : Shared K Call) (after : After K) : after.next.Stands s := by
  cases after <;> trivial

theorem After.Counts.next {n : Nat} {after : After K} (counts : after.Counts n) :
    after.next.Counts n := by
  cases after with
  | sweep rest count => exact counts
  | _ => trivial

end Afters

section Calls

variable {K Call : Type} {t : Table K} {call : Call} {s s' : Shared K Call}
  {pc pc' : Pc K} {act : Act K}

theorem Pc.Stands.forward (stands : pc.Stands s)
    (flows : ∀ v ∈ pc.named, (s.flow v.2).Forward (s'.flow v.2))
    (reports : s.reports ⊆ s'.reports) : pc.Stands s' := by
  cases pc with
  | closed stage k f after =>
      exact CloseStage.Stands.forward stands (flows ⟨k, f⟩ List.mem_cons_self)
  | onClose k f after => exact (flows ⟨k, f⟩ List.mem_cons_self).closed stands
  | inOnClose k f after =>
      exact ⟨(flows ⟨k, f⟩ List.mem_cons_self).closed stands.1, reports stands.2⟩
  | _ => trivial

variable [DecidableEq K]

theorem Moves.writes (moved : Moves t call s pc act s' pc') {f : Nat} (old : f < s.created) :
    (s.flow f).Writes (pc.Freezes s) (s'.flow f) := by
  cases moved with
  | insert k id =>
      have same : (s.insert t k id).flow f = s.flow f :=
        Function.update_of_ne (Nat.ne_of_lt old) _ _
      rw [same]
      exact .same
  | removeFreeze k g => exact Shared.setFlow_writes .freezes f
  | casKept _ _ _ _ _ _ _ _ swapped | casExpired _ _ _ _ _ _ _ _ swapped =>
      exact Shared.setFlow_writes (Flow.expireCas_writes swapped) f
  | closing _ _ _ _ _ _ swapped | closed _ _ _ _ _ _ swapped | closedUnset _ _ _ _ _ _ swapped
  | flowClosing _ _ _ _ swapped | flowClosed _ _ _ _ swapped =>
      exact Shared.setFlow_writes (Flow.close_writes swapped) f
  | beginning _ _ _ _ swapped | began _ _ _ _ swapped =>
      exact Shared.setFlow_writes (Flow.beginClose_writes swapped) f
  | touching _ _ _ _ _ swapped | touched _ _ _ _ _ swapped =>
      exact Shared.setFlow_writes (Flow.touch_writes swapped) f
  | _ => exact .same

theorem Moves.flow_forward (moved : Moves t call s pc act s' pc') {f : Nat}
    (old : f < s.created) : (s.flow f).Forward (s'.flow f) :=
  (moved.writes old).forward

theorem Moves.stands (stands : pc.Stands s) (moved : Moves t call s pc act s' pc') :
    pc'.Stands s' := by
  cases moved with
  | call op => cases op <;> trivial
  | closing stage stage' k f after flow swapped =>
      have later := Flow.close_goes (congrArg Prod.snd swapped)
      rw [swapped] at later
      show stage'.Stands ((s.setFlow f flow).flow f)
      rwa [Shared.setFlow_self]
  | closed stage k f after flow result swapped =>
      have closed := Flow.close_returns stands (congrArg Prod.snd swapped)
      rw [swapped] at closed
      show ((s.setFlow f flow).flow f).state = .closed
      rwa [Shared.setFlow_self]
  | onClose k f after => exact ⟨stands, List.mem_append_right _ List.mem_cons_self⟩
  | closedUnset stage k f after | onCloseReturns k f after => exact after.next_stands _
  | _ => trivial

variable [DecidableEq Call]

/-- How many flows a call has taken out. -/
def Shared.taken (s : Shared K Call) (call : Call) : Nat :=
  s.removed.countP fun entry => entry.2 = call

theorem Shared.taken_delete (s : Shared K Call) (i : Nat) (k : K) (f : Nat) (call : Call) :
    (s.delete i k f call).taken call = s.taken call + 1 := by
  simp [Shared.taken, Shared.delete]

theorem Moves.counts (counts : pc.Counts (s.taken call))
    (moved : Moves t call s pc act s' pc') : pc'.Counts (s'.taken call) := by
  cases moved with
  | call op =>
      rw [show s.taken call = 0 from counts]
      cases op <;> trivial
  | advancedOff | advanced | advance | advanceCasOff | advanceCas | advanceAgain | sweep | scanNext
  | scanKept | scanLoaded | casKept | swept | victim | sweepDone | closing | closed | onClose
  | touchClock | touching | touched => exact counts
  | scanExpired cutoff i rest victims k f =>
      have before : s.taken call = victims.length := counts
      show (s.delete i k f call).taken call = _
      rw [s.taken_delete, before, List.length_append]
      rfl
  | casExpired cutoff i k f v rest victims flow =>
      have before : (s.setFlow f flow).taken call = victims.length := counts
      show ((s.setFlow f flow).delete i k f call).taken call = _
      rw [Shared.taken_delete, before, List.length_append]
      rfl
  | closedUnset stage k f after | onCloseReturns k f after => exact After.Counts.next counts
  | _ => trivial

end Calls

end Netx.FlowTable
