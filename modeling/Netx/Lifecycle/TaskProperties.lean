import Netx.Lifecycle.Task

/-!
# Failures in a group

As long as no member panics, a group ends with an error in which the failure of
every service in it is found, it is never stuck, and it ends after a bounded
number of steps.
-/

set_option autoImplicit false

namespace Netx.Lifecycle

open Errors

/-- The error of a call that is over, with a panic as `protect` reports it. -/
def Stage.err (name : String) : Stage → Option Err
  | .ended out => protect name out
  | .done err => err
  | _ => none

/-- How many steps of a call are left. -/
def Stage.left : Stage → Nat
  | .ready => 3
  | .inside => 2
  | .ended _ => 1
  | .done _ => 0

private theorem forall_mem_set {α : Type} {property : α → Prop} {items : List α} {i : Nat}
    {item : α} (others : ∀ other ∈ items, property other) (new : property item) :
    ∀ other ∈ items.set i item, property other := by
  intro other member
  rcases List.mem_or_eq_of_mem_set member with kept | rfl
  · exact others other kept
  · exact new

namespace Task

/-- Neither the service nor any of its members was called. -/
inductive Fresh : Task → Prop where
  | leaf : Fresh (.leaf .ready)
  | group (members : List Task) : (∀ member ∈ members, Fresh member) →
      Fresh (.group .ready false members)

/-- A service in the tree, itself not a group, has failed with `err`. -/
inductive Fails (name : String) (err : Err) : Task → Prop where
  | leaf (stage : Stage) : stage.err name = some err → Fails name err (.leaf stage)
  | member (stage : Stage) (aborted : Bool) (members : List Task) (member : Task) :
      member ∈ members → Fails name err member → Fails name err (.group stage aborted members)

def Panicked (t : Task) : Prop :=
  ∃ value, t.stage = .ended (.panics value)

/-- What a group's members have done by the time it is at a stage. -/
def Agrees (members : List Task) : Stage → Prop
  | .ready => ∀ member ∈ members, member.Fresh
  | .inside => True
  | .ended out => (∀ member ∈ members, member.stored.isSome = true) ∧
      out = .returns (join (members.filterMap stored))
  | .done err => (∀ member ∈ members, member.stored.isSome = true) ∧
      err = join (members.filterMap stored)

/-- No member of a group has panicked, and groups agree with their members. -/
inductive Sound : Task → Prop where
  | leaf (stage : Stage) : Sound (.leaf stage)
  | group (stage : Stage) (aborted : Bool) (members : List Task) :
      (∀ member ∈ members, Sound member) → (∀ member ∈ members, ¬member.Panicked) →
      Agrees members stage → Sound (.group stage aborted members)

mutual

/-- How many steps of the service and of its members are left. -/
def left : Task → Nat
  | .leaf stage => stage.left
  | .group stage _ members => stage.left + leftAll members

def leftAll : List Task → Nat
  | [] => 0
  | member :: members => member.left + leftAll members

end

section

variable {m : Method} {t t' : Task} {path : List Nat} {act : TaskAct} {name : String}
  {err : Err}

private theorem stored_of_stage {err : Option Err} (done : t.stage = .done err) :
    t.stored = some err := by
  simp only [stored, done]

private theorem stage_of_stored {err : Option Err} (stored : t.stored = some err) :
    t.stage = .done err := by
  unfold Task.stored at stored
  split at stored
  · rename_i here
    cases stored
    exact here
  · cases stored

@[simp] theorem stage_setStage (stage : Stage) (t : Task) : (t.setStage stage).stage = stage := by
  cases t <;> rfl

theorem Fresh.stage (fresh : t.Fresh) : t.stage = .ready := by
  cases fresh <;> rfl

theorem Fresh.not_fails (fresh : t.Fresh) : ¬t.Fails name err := by
  intro fails
  induction fails with
  | leaf stage settled =>
      cases fresh
      cases settled
  | member stage aborted members member inside _ ih =>
      cases fresh with
      | group _ all => exact ih (all member inside)

theorem Fresh.sound (fresh : t.Fresh) : t.Sound := by
  induction fresh with
  | leaf => exact .leaf .ready
  | group members all ih =>
      refine .group _ _ _ ih (fun member inside panicked => ?_) all
      obtain ⟨value, ended⟩ := panicked
      cases ((all member inside).stage).symm.trans ended

/-- A failure in the tree is found in the error it ended with. -/
theorem Sound.found (sound : t.Sound) (fails : t.Fails name err)
    (outside : t.stage ≠ .inside) : is (t.stage.err name) err = true := by
  induction fails with
  | leaf stage settled =>
      rw [show (Task.leaf stage).stage.err name = some err from settled]
      exact Err.is_self err
  | member stage aborted members member inside fails ih =>
      cases sound with
      | group _ _ _ sound quiet agrees =>
          have whole : ∀ errs, (∀ member ∈ members, member.stored.isSome = true) →
              errs = join (members.filterMap stored) → is errs err = true := by
            intro errs all same
            obtain ⟨stored, here⟩ := Option.isSome_iff_exists.mp (all member inside)
            have done := stage_of_stored here
            have found := ih (sound member inside) (by simp [done])
            rw [done] at found
            rw [same]
            exact is_join_of_mem (List.mem_filterMap.mpr ⟨member, inside, here⟩) found
          cases stage with
          | ready => exact absurd fails (agrees member inside).not_fails
          | inside => exact absurd rfl outside
          | ended out =>
              obtain ⟨all, rfl⟩ := agrees
              exact whole _ all rfl
          | done stored => exact whole _ agrees.1 agrees.2

/-- An error that is not a join is found in a tree's error only if some service
in it failed with it. -/
theorem Sound.exists_fails (sound : t.Sound) {target : Err}
    (plain : ∀ parts, target ≠ .joined parts) (found : is (t.stage.err name) target = true) :
    ∃ err, t.Fails name err ∧ Err.is target err = true := by
  induction sound with
  | leaf stage =>
      cases failed : stage.err name with
      | none =>
          rw [show (Task.leaf stage).stage.err name = none from failed] at found
          cases found
      | some err =>
          rw [show (Task.leaf stage).stage.err name = some err from failed] at found
          exact ⟨err, .leaf stage failed, found⟩
  | group stage aborted members sound quiet agrees ih =>
      have inside : is (join (members.filterMap stored)) target = true →
          ∃ err, (Task.group stage aborted members).Fails name err ∧
            Err.is target err = true := by
        intro found
        obtain ⟨stored, listed, part⟩ := exists_of_is_join plain found
        obtain ⟨member, inside, here⟩ := List.mem_filterMap.mp listed
        have same : member.stage.err name = stored := by
          rw [stage_of_stored here]
          rfl
        obtain ⟨err, fails, is⟩ := ih member inside (same ▸ part)
        exact ⟨err, .member stage aborted members member inside fails, is⟩
      cases stage with
      | ready => cases found
      | inside => cases found
      | ended out =>
          obtain ⟨_, rfl⟩ := agrees
          exact inside found
      | done stored =>
          obtain ⟨_, rfl⟩ := agrees
          exact inside found

theorem Sound.done {err : Option Err} (sound : t.Sound)
    (ended : t.stage = .ended (.returns err)) : (t.setStage (.done err)).Sound := by
  cases sound with
  | leaf stage => exact .leaf _
  | group stage aborted members sound quiet agrees =>
      rw [show stage = .ended (.returns err) from ended] at agrees
      obtain ⟨all, same⟩ := agrees
      cases same
      exact .group _ _ _ sound quiet ⟨all, rfl⟩

theorem Acts.sound (acts : Acts m act t t') (sound : t.Sound) : t'.Sound := by
  cases acts with
  | call t ready =>
      cases sound with
      | leaf stage => exact .leaf _
      | group stage aborted members sound quiet agrees => exact .group _ _ _ sound quiet trivial
  | ends out => exact .leaf _
  | collect i aborted members member err here ended =>
      cases sound with
      | group _ _ _ sound quiet agrees =>
          have listed : member ∈ members := List.mem_of_getElem? here
          refine .group _ _ _ (forall_mem_set sound ((sound member listed).done ended))
            (forall_mem_set quiet ?_) trivial
          rintro ⟨value, panicked⟩
          rw [stage_setStage] at panicked
          cases panicked
  | returns aborted members all =>
      cases sound with
      | group _ _ _ sound quiet agrees => exact .group _ _ _ sound quiet ⟨all, rfl⟩

theorem Acts.panicked (acts : Acts m act t t') (panicked : t'.Panicked) :
    ∃ value, act = .ends (.panics value) := by
  obtain ⟨value, ended⟩ := panicked
  cases acts with
  | call t ready =>
      rw [stage_setStage] at ended
      cases ended
  | ends out =>
      cases ended
      exact ⟨value, rfl⟩
  | collect => cases ended
  | returns => cases ended

theorem Steps.panicked (steps : Steps m path act t t') (panicked : t'.Panicked) :
    ∃ value, act = .ends (.panics value) := by
  cases steps with
  | own _ _ _ acts => exact acts.panicked panicked
  | member =>
      obtain ⟨value, ended⟩ := panicked
      cases ended

/-- Only a member's panic breaks a group. -/
theorem Steps.sound (steps : Steps m path act t t')
    (calm : path ≠ [] → ∀ value, act ≠ .ends (.panics value)) (sound : t.Sound) :
    t'.Sound := by
  induction steps with
  | own _ _ _ acts => exact acts.sound sound
  | member i path act aborted members member member' here steps ih =>
      have calm := calm (List.cons_ne_nil _ _)
      cases sound with
      | group _ _ _ sound quiet agrees =>
          have kept := ih (fun _ => calm) (sound member (List.mem_of_getElem? here))
          refine .group _ _ _ (forall_mem_set sound kept) (forall_mem_set quiet ?_) trivial
          intro panicked
          obtain ⟨value, same⟩ := steps.panicked panicked
          exact calm value same

theorem Fails.of_setStage {stage : Stage} (fails : (t.setStage stage).Fails name err)
    (same : stage.err name = t.stage.err name ∨ stage.err name = none) : t.Fails name err := by
  cases t with
  | leaf before =>
      cases fails with
      | leaf _ failed =>
          rcases same with same | none
          · exact .leaf before (same.symm.trans failed)
          · cases none.symm.trans failed
  | group before aborted members =>
      cases fails with
      | member _ _ _ member inside fails => exact .member before aborted members member inside fails

theorem Acts.fails (acts : Acts m act t t') (fails : t'.Fails name err) :
    t.Fails name err ∨ ∃ out, act = .ends out ∧ protect name out = some err := by
  cases acts with
  | call t ready => exact .inl (fails.of_setStage (.inr rfl))
  | ends out =>
      cases fails with
      | leaf _ failed => exact .inr ⟨out, rfl, failed⟩
  | collect i aborted members member stored here ended =>
      cases fails with
      | member _ _ _ other inside fails =>
          refine .inl ?_
          rcases List.mem_or_eq_of_mem_set inside with kept | rfl
          · exact .member _ _ _ other kept fails
          · refine .member _ _ _ member (List.mem_of_getElem? here) (fails.of_setStage ?_)
            rw [ended]
            exact .inl rfl
  | returns aborted members all =>
      cases fails with
      | member _ _ _ member inside fails => exact .inl (.member _ _ _ member inside fails)

/-- Failures come from services that end. -/
theorem Steps.fails (steps : Steps m path act t t') (fails : t'.Fails name err) :
    t.Fails name err ∨ ∃ out, act = .ends out ∧ protect name out = some err := by
  induction steps with
  | own _ _ _ acts => exact acts.fails fails
  | member i path act aborted members member member' here steps ih =>
      cases fails with
      | member _ _ _ other inside fails =>
          rcases List.mem_or_eq_of_mem_set inside with kept | rfl
          · exact .inl (.member _ _ _ other kept fails)
          · exact (ih fails).imp_left fun fails =>
              .member _ _ _ member (List.mem_of_getElem? here) fails

/-- A service that was called and has not ended can go on, if need be by some
service in it returning nil. -/
theorem Sound.enabled (sound : t.Sound) (inside : t.stage = .inside) :
    ∃ path act, (t.step m path act).isSome = true ∧
      ∀ out, act = .ends out → out = .returns none := by
  induction sound with
  | leaf stage =>
      cases stage with
      | inside =>
          refine ⟨[], .ends (.returns none), rfl, fun out same => ?_⟩
          cases same
          rfl
      | _ => cases inside
  | group stage aborted members sound quiet agrees ih =>
      obtain rfl : stage = .inside := inside
      by_cases all : (members.all fun member => member.stored.isSome) = true
      · exact ⟨[], .returns, by simp [step, own, all], by simp⟩
      · rw [List.all_eq_true] at all
        push Not at all
        obtain ⟨member, listed, unstored⟩ := all
        obtain ⟨i, here⟩ := List.getElem?_of_mem listed
        cases reached : member.stage with
        | ready => exact ⟨[i], .call, by simp [step, own, here, reached], by simp⟩
        | inside =>
            obtain ⟨path, act, enabled, calm⟩ := ih member listed reached
            exact ⟨i :: path, act, by simpa [step, here] using enabled, calm⟩
        | ended out =>
            cases out with
            | returns err => exact ⟨[], .collect i, by simp [step, own, here, reached], by simp⟩
            | panics value => exact absurd ⟨value, reached⟩ (quiet member listed)
        | done err => exact absurd (by rw [stored_of_stage reached]; rfl) unstored

private theorem leftAll_set {members : List Task} {i : Nat} {member : Task}
    (here : members[i]? = some member) (other : Task) :
    leftAll (members.set i other) + member.left = leftAll members + other.left := by
  induction members generalizing i with
  | nil => cases here
  | cons first rest ih =>
      cases i with
      | zero =>
          cases here
          simp only [List.set_cons_zero, leftAll]
          omega
      | succ i =>
          have after := ih here
          simp only [List.set_cons_succ, leftAll]
          omega

theorem left_setStage (stage : Stage) (t : Task) :
    (t.setStage stage).left + t.stage.left = t.left + stage.left := by
  cases t with
  | leaf before => exact Nat.add_comm _ _
  | group before aborted members =>
      simp only [setStage, left, Task.stage]
      omega

theorem Acts.left_lt (acts : Acts m act t t') : t'.left < t.left := by
  cases acts with
  | call t ready =>
      have moved := left_setStage .inside t
      rw [ready] at moved
      simp only [Stage.left] at moved
      omega
  | ends out => exact Nat.lt_succ_self 1
  | collect i aborted members member err here ended =>
      have set := leftAll_set here (member.setStage (.done err))
      have moved := left_setStage (.done err) member
      rw [ended] at moved
      simp only [left, Stage.left] at moved ⊢
      omega
  | returns aborted members all => exact Nat.add_lt_add_right (Nat.lt_succ_self 1) _

theorem Steps.left_lt (steps : Steps m path act t t') : t'.left < t.left := by
  induction steps with
  | own _ _ _ acts => exact acts.left_lt
  | member i path act aborted members member member' here steps ih =>
      have set := leftAll_set here member'
      simp only [left]
      omega

end

end Task

end Netx.Lifecycle
