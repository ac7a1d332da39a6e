import Netx.FlowTable.Editing
import Netx.Transition.Custody

/-!
# The whereabouts of flows

Every flow is in the table, with the one call that took it out, or reported, and
everybody who has it knows the key it was stored under.
-/

set_option autoImplicit false

namespace Netx.FlowTable

open Transition (Place Custody)

/-- The flows a call has taken out and not yet reported. -/
def World.leaving {K Call : Type} (w : World K Call) (call : Call) : List Nat :=
  (w.pc call).pending.map Sigma.snd

section Leaving

variable {K Call : Type} [DecidableEq Call] {w : World K Call} {call : Call}
  {shared : Shared K Call} {pc : Pc K}

theorem World.leaving_self :
    World.leaving { shared, pc := Function.update w.pc call pc } call =
      pc.pending.map Sigma.snd := by
  simp only [World.leaving, Function.update_self]

theorem World.leaving_of_ne {other : Call} (acting : other ≠ call) :
    World.leaving { shared, pc := Function.update w.pc call pc } other = w.leaving other := by
  simp only [World.leaving, Function.update_of_ne acting]

end Leaving

section Runs

variable {K Call : Type} [DecidableEq K] {t : Table K}

structure World.Keyed (t : Table K) (w : World K Call) : Prop where
  stored : ∀ i k f, (w.shared.shard i).m.lookup k = some f →
    w.shared.key f = some k ∧ t.shard k = i
  named : ∀ call, ∀ v ∈ (w.pc call).named, w.shared.key v.2 = some v.1
  reports : ∀ report ∈ w.shared.reports, w.shared.key report.2 = some report.1
  created : ∀ f, w.shared.key f ≠ none ↔ f < w.shared.created

def World.Placed (w : World K Call) : Prop :=
  ∃ place, Custody place w.shared.Stored w.leaving w.shared.removed
      (w.shared.reports.map Prod.snd) ∧
    ∀ f, place f = .absent ↔ w.shared.created ≤ f

theorem World.Keyed.start (now : Int) (lastID : UInt64) :
    (World.start now lastID : World K Call).Keyed t where
  stored := (Shared.Filed.start now lastID).stored
  named _ _ := nofun
  reports _ := nofun
  created := (Shared.Filed.start (t := t) now lastID).created

theorem World.Placed.start (now : Int) (lastID : UInt64) :
    (World.start now lastID : World K Call).Placed := by
  refine ⟨fun _ => .absent, Custody.start.reorder (fun f => ?_) fun _ => .refl _, ?_⟩
  · refine iff_of_false ?_ id
    rintro ⟨i, k, present⟩
    cases present
  · exact fun f => iff_of_true rfl (Nat.zero_le f)

variable {w : World K Call} {call : Call} {shared : Shared K Call} {pc : Pc K}

theorem World.Keyed.filed (keyed : w.Keyed t) : w.shared.Filed t :=
  ⟨keyed.stored, keyed.created⟩

theorem World.Keyed.lt_created (keyed : w.Keyed t) {call : Call} {v : Victim K}
    (named : v ∈ (w.pc call).named) : v.2 < w.shared.created :=
  keyed.filed.lt_created (keyed.named call v named)

theorem World.Keyed.key_stays (keyed : w.Keyed t)
    (passes : Passes t call w.shared (w.pc call) shared pc) {f : Nat} {k : K}
    (known : w.shared.key f = some k) : shared.key f = some k :=
  keyed.filed.key_stays passes.edits known

theorem World.Keyed.named_passes (keyed : w.Keyed t)
    (passes : Passes t call w.shared (w.pc call) shared pc) {v : Victim K}
    (named : v ∈ pc.named) : shared.key v.2 = some v.1 := by
  have before : v ∈ (w.pc call).named → shared.key v.2 = some v.1 := fun here =>
    keyed.key_stays passes (keyed.named call v here)
  have stays := fun {f : Nat} {k : K} => keyed.key_stays passes (f := f) (k := k)
  cases passes with
  | quiet _ _ _ _ kept => exact before (kept named)
  | opens _ _ _ _ _ kept => exact before (kept.2 ▸ named)
  | reports _ _ _ _ _ _ kept => exact before (kept ▸ named)
  | takes j victims _ present _ _ _ _ kept =>
      rw [kept] at named
      rcases List.mem_append.mp named with old | taken
      · exact before old
      · exact stays (keyed.stored j v.1 v.2 (present v taken)).1

variable [DecidableEq Call]

theorem World.Keyed.passes (keyed : w.Keyed t)
    (passes : Passes t call w.shared (w.pc call) shared pc) :
    World.Keyed t { shared, pc := Function.update w.pc call pc } := by
  have filed := keyed.filed.edits passes.edits
  refine ⟨filed.stored, ?_, ?_, filed.created⟩
  · intro other v named
    simp only [Function.update_apply] at named
    split_ifs at named with acting
    · subst acting
      exact keyed.named_passes passes named
    · exact keyed.key_stays passes (keyed.named other v named)
  · intro report member
    have stays := fun {f : Nat} {k : K} => keyed.key_stays passes (f := f) (k := k)
    have before : report ∈ w.shared.reports → shared.key report.2 = some report.1 :=
      fun here => stays (keyed.reports report here)
    cases passes with
    | quiet _ _ history | opens _ _ _ _ history | takes _ _ _ _ _ _ history =>
        exact before (history.2 ▸ member)
    | reports k f _ _ history pending =>
        rw [history.2] at member
        rcases List.mem_append.mp member with old | new
        · exact before old
        · rw [List.mem_singleton.mp new]
          refine stays (keyed.named call ⟨k, f⟩ ((w.pc call).pending_subset ?_))
          rw [pending]
          exact List.mem_cons_self

theorem World.Placed.passes (keyed : w.Keyed t) (placed : w.Placed)
    (passes : Passes t call w.shared (w.pc call) shared pc) :
    World.Placed { shared, pc := Function.update w.pc call pc } := by
  obtain ⟨place, custody, absent⟩ := placed
  have others : ∀ other, other ≠ call →
      World.leaving { shared, pc := Function.update w.pc call pc } other = w.leaving other :=
    fun _ acting => World.leaving_of_ne acting
  cases passes with
  | quiet maps flows history pending =>
      refine ⟨place, ?_, by simpa only [flows.1] using absent⟩
      simp only [history.1, history.2]
      refine custody.reorder (fun f => ?_) fun other => ?_
      · simp only [Shared.Stored, maps]
      · by_cases acting : other = call
        · subst acting
          rw [World.leaving_self]
          exact pending.map _
        · rw [others other acting]
  | opens k missing maps flows history pending =>
      have same : World.leaving { shared, pc := Function.update w.pc call pc } =
          w.leaving := by
        funext other
        by_cases acting : other = call
        · subst acting
          rw [World.leaving_self, pending.1]
          rfl
        · exact others other acting
      refine ⟨Function.update place w.shared.created .stored, ?_, fun f => ?_⟩
      · simp only [history.1, history.2, same]
        exact custody.enter ((absent _).mpr le_rfl) (keyed.filed.stored_opens missing maps)
      · simp only [flows.1]
        by_cases new : f = w.shared.created
        · simp [new]
        · rw [Function.update_of_ne new, absent]
          omega
  | takes j victims distinct present maps flows history pending =>
      have stored : ∀ f ∈ victims.map Sigma.snd, w.shared.Stored f := by
        intro f member
        obtain ⟨v, listed, rfl⟩ := List.mem_map.mp member
        exact ⟨j, v.1, present v listed⟩
      have received : (World.leaving { shared, pc := Function.update w.pc call pc } call).Perm
          (w.leaving call ++ victims.map Sigma.snd) := by
        rw [World.leaving_self, pending, List.map_append]
        rfl
      have taken := custody.take (keyed.filed.victims_distinct distinct present) stored
        (keyed.filed.stored_takes present maps) received others
      refine ⟨fun f => if f ∈ victims.map Sigma.snd then .held call else place f, ?_,
        fun f => ?_⟩
      · simp only [history.1, history.2]
        rwa [List.map_map] at taken
      · simp only [flows.1]
        split
        · rename_i member
          refine iff_of_false (by simp) fun new => ?_
          rw [← absent, (custody.stored f).mp (stored f member)] at new
          cases new
        · exact absent f
  | reports k f maps flows history pending =>
      have given : (w.leaving call).Perm
          (f :: World.leaving { shared, pc := Function.update w.pc call pc } call) := by
        rw [World.leaving_self, World.leaving, pending]
        rfl
      have held : place f = .held call :=
        (custody.held call f).mp (given.mem_iff.mpr List.mem_cons_self)
      refine ⟨Function.update place f (.logged call), ?_, fun g => ?_⟩
      · simp only [history.1, history.2, List.map_append]
        refine (custody.report given others).reorder (fun g => ?_) fun _ => .refl _
        simp only [Shared.Stored, maps]
      · simp only [flows.1]
        by_cases same : g = f
        · subst same
          rw [Function.update_self, ← absent, held]
          simp
        · rw [Function.update_of_ne same]
          exact absent g

end Runs

end Netx.FlowTable
