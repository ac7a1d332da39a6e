import Netx.Lifecycle.GroupCallProperties
import Netx.Lifecycle.TaskProperties
import Netx.Transition.Refinement

/-!
# A call of a group is a task

Seen from the outside, a goroutine's operations on what it shares with the others
are the one step `collect` of `Task`, and those of the call itself are `call` and
`returns`. What holds of every run of a task therefore holds of the goroutines.
-/

set_option autoImplicit false

namespace Netx.Lifecycle

open Errors

variable {Service : Type}

/-- All runs of a task. -/
def Task.runs (m : Method) : Transition.System Task (List Nat × TaskAct) where
  initial := Task.Fresh
  step t action := t.step m action.1 action.2

def Main.stage : Main Service → Stage
  | .returned result => .ended (.returns result)
  | _ => .inside

def Goroutine.stage (slot : Option Err) : Goroutine Service → Stage
  | .unborn => .ready
  | .starting _ => .ready
  | .inside => .inside
  | .ended err => .ended (.returns err)
  | .stored => .ended (.returns slot)
  | .aborting => .ended (.returns slot)
  | .counting => .done slot
  | .gone => .done slot

def Stage.failed : Stage → Bool
  | .done err => err.isSome
  | _ => false

namespace Task

/-- A group whose members are not groups, with its context cancelled by a failure
or by its own return. -/
def ofStages (m : Method) (stage : Stage) (stages : List Stage) : Task :=
  .group stage (m == .serve && (stages.any Stage.failed || stage != .inside)) (stages.map .leaf)

variable {m : Method} {stages : List Stage} {i : Nat}

private theorem any_failed_set {before after : Stage} (here : stages[i]? = some before)
    (fine : before.failed = false) :
    (stages.set i after).any Stage.failed = (stages.any Stage.failed || after.failed) := by
  induction stages generalizing i with
  | nil => cases here
  | cons stage stages ih =>
      cases i with
      | zero =>
          obtain rfl : stage = before := Option.some.inj here
          simp [fine, Bool.or_comm]
      | succ i => simp [ih here, Bool.or_assoc]

private theorem ofStages_member {act : TaskAct} {before after : Stage}
    (here : stages[i]? = some before) (fine : before.failed = false) (still : after.failed = false)
    (acts : (Task.leaf before).own m act = some (.leaf after)) :
    (ofStages m .inside stages).step m [i] act =
      some (ofStages m .inside (stages.set i after)) := by
  simp [ofStages, step, here, acts, any_failed_set here fine, still, List.map_set]

private theorem ofStages_collect {err : Option Err}
    (here : stages[i]? = some (.ended (.returns err))) :
    (ofStages m .inside stages).step m [] (.collect i) =
      some (ofStages m .inside (stages.set i (.done err))) := by
  simp [ofStages, step, own, here, any_failed_set here rfl, Stage.failed, List.map_set, stage,
    setStage, Bool.and_or_distrib_left]

private theorem ofStages_returns (errs : List (Option Err)) :
    (ofStages m .inside (errs.map .done)).step m [] .returns =
      some (ofStages m (.ended (.returns (join errs))) (errs.map .done)) := by
  have stored : ((errs.map Stage.done).map Task.leaf).filterMap Task.stored = errs := by
    simp [List.filterMap_map, Function.comp_def, Task.stored, stage]
  have all : (((errs.map Stage.done).map Task.leaf).all fun member => member.stored.isSome) =
      true := by
    simp [Task.stored, stage]
  have past : (Stage.ended (.returns (join errs)) != .inside) = true := by
    rw [bne_iff_ne]
    intro same
    cases same
  simp only [ofStages, step, own, all, stored, if_true, past]
  cases m <;> simp

/-- The context that a group gives its members is cancelled. -/
def aborted : Task → Bool
  | .leaf _ => false
  | .group _ aborted _ => aborted

private theorem aborted_stays {t t' : Task} {path : List Nat} {act : TaskAct}
    (stepped : t.step m path act = some t') (before : t.aborted = true) : t'.aborted = true := by
  cases step_steps stepped with
  | member => exact before
  | own _ _ _ acts =>
      cases acts with
      | call _ ready =>
          cases t with
          | leaf stage => cases before
          | group stage aborted members => exact before
      | ends out => cases before
      | collect | returns => exact Bool.or_eq_true_iff.mpr (.inl before)

end Task

theorem Main.stage_of_running {main : Main Service} (running : main.result = none) :
    main.stage = .inside := by
  cases main <;> first | rfl | cases running

namespace GroupCall

/-- What the goroutines look like to the group. -/
def stages (group : List Service) (s : GroupCall Service) : List Stage :=
  (List.range group.length).map fun i => (s.member i).point.stage (s.err i)

def view (group : List Service) (m : Method) (s : GroupCall Service) : Task :=
  .ofStages m s.main.stage (s.stages group)

/-- The steps of the task that a step of the call amounts to. -/
def shown (s : GroupCall Service) (act : GroupAct) (next : GroupCall Service) :
    List (List Nat × TaskAct) :=
  match act with
  | .next =>
      match s.main with
      | .leaving _ => [([], .returns)]
      | _ => []
  | .goroutine i =>
      match (s.member i).point, (next.member i).point with
      | .starting _, _ => [([i], .call)]
      | .stored, .counting => [([], .collect i)]
      | .aborting, _ => [([], .collect i)]
      | _, _ => []
  | .returns i err => [([i], .ends (.returns err))]
  | _ => []

variable {group : List Service} {m : Method} {s s' : GroupCall Service} {act : GroupAct}
  {i : Nat}

private theorem stages_getElem? (inside : i < group.length) :
    (s.stages group)[i]? = some ((s.member i).point.stage (s.err i)) := by
  simp [stages, inside]

private theorem stages_change {stage : Stage}
    (here : (s'.member i).point.stage (s'.err i) = stage)
    (others : ∀ j, j ≠ i → (s'.member j).point.stage (s'.err j) =
      (s.member j).point.stage (s.err j)) :
    s'.stages group = (s.stages group).set i stage := by
  refine List.ext_getElem? fun j => ?_
  by_cases inside : j < group.length
  · rw [stages_getElem? inside]
    by_cases same : j = i
    · subst same
      rw [List.getElem?_set_self (by simpa [stages] using inside), here]
    · rw [List.getElem?_set_ne (Ne.symm same), stages_getElem? inside, others j same]
  · simp [stages, inside]

/-- A step that the task does not see. -/
theorem refines_silent (main : s.main.stage = s'.main.stage)
    (each : ∀ j, (s.member j).point.stage (s.err j) = (s'.member j).point.stage (s'.err j)) :
    (Task.runs m).exec (s.view group m) [] = some (s'.view group m) := by
  unfold view stages
  simp only [Transition.System.exec_nil, main, each]

private theorem stage_setMember_of_ne {j : Nat} (member : Member Service) (other : j ≠ i) :
    ((s.setMember i member).member j).point.stage ((s.setMember i member).err j) =
      (s.member j).point.stage (s.err j) := by
  simp [setMember, other, err]

/-- A step of one goroutine that the task does not see. -/
theorem refines_unseen (main : s.main.stage = s'.main.stage)
    (here : (s'.member i).point.stage (s'.err i) = (s.member i).point.stage (s.err i))
    (others : ∀ j, j ≠ i → (s'.member j).point.stage (s'.err j) =
      (s.member j).point.stage (s.err j)) :
    (Task.runs m).exec (s.view group m) [] = some (s'.view group m) := by
  refine refines_silent main fun j => ?_
  by_cases same : j = i
  · rw [same, here]
  · rw [others j same]

/-- A step that changes what the task sees of one member. -/
theorem refines_change {action : List Nat × TaskAct} (stage : Stage)
    (sound : Sound group m s) (alive : (s.member i).point.alive = 1) (main : s'.main = s.main)
    (here : (s'.member i).point.stage (s'.err i) = stage)
    (others : ∀ j, j ≠ i → (s'.member j).point.stage (s'.err j) =
      (s.member j).point.stage (s.err j))
    (taken : (s.stages group)[i]? = some ((s.member i).point.stage (s.err i)) →
      (Task.ofStages m .inside (s.stages group)).step m action.1 action.2 =
        some (.ofStages m .inside ((s.stages group).set i stage))) :
    (Task.runs m).exec (s.view group m) [action] = some (s'.view group m) := by
  obtain ⟨inside, running⟩ := sound.ending alive
  refine Transition.System.exec_step ?_ rfl
  unfold view
  rw [stages_change here others, main, Main.stage_of_running running]
  exact taken (stages_getElem? inside)

private theorem stages_of_gone (sound : Sound group m s)
    (gone : ∀ i < group.length, (s.member i).point = .gone) :
    s.stages group = s.errs.map .done := by
  refine List.ext_getElem? fun j => ?_
  by_cases inside : j < group.length
  · rw [stages_getElem? inside, gone j inside, List.getElem?_map, sound.getElem?_errs inside]
    rfl
  · simp [stages, inside, sound.sized]

/-- A step of the call is what it shows to the task. -/
theorem Moves.refines (moved : Moves group m s act s') (sound : Sound group m s) :
    (Task.runs m).exec (s.view group m) (s.shown act s') = some (s'.view group m) := by
  cases moved with
  | add i service here listed =>
      simp only [shown, here]
      exact refines_silent (by rw [here]; rfl) fun _ => rfl
  | all i here unlisted =>
      simp only [shown, here]
      exact refines_silent (by rw [here]; rfl) fun _ => rfl
  | go i service here =>
      simp only [shown, here]
      have unborn : (s.member i).point = .unborn :=
        (sound.born i).mpr (by rw [here]; exact le_rfl)
      refine refines_unseen (by rw [here]; rfl) ?_ fun j => stage_setMember_of_ne _
      simp [setPoint, setMember, unborn, Goroutine.stage]
  | joins main here none either =>
      simp only [shown, here]
      rcases either with ⟨_, rfl⟩ | ⟨_, rfl⟩
      · exact refines_silent (by rw [here]; rfl) fun _ => rfl
      · exact refines_silent (by rw [here]; rfl) fun _ => rfl
  | deferred result here =>
      simp only [shown, here]
      exact refines_silent (by rw [here]; rfl) fun _ => rfl
  | leaves result here =>
      simp only [shown, here]
      obtain ⟨rfl, gone⟩ := sound.ended result (by rw [here]; rfl)
      refine Transition.System.exec_step ?_ rfl
      unfold view
      have same : ({ s with main := .returned (join s.errs) } : GroupCall Service).stages group =
          s.stages group := rfl
      rw [same, stages_of_gone sound gone, here]
      exact Task.ofStages_returns s.errs
  | calls i service here =>
      simp only [shown, here]
      refine refines_change .inside sound (by rw [here]; rfl) rfl ?_
        (fun j => stage_setMember_of_ne _) ?_
      · simp [setMember, Goroutine.stage]
      · rw [here]
        exact fun ready => Task.ofStages_member ready rfl rfl rfl
  | returns i err here =>
      refine refines_change (.ended (.returns err)) sound (by rw [here]; rfl) rfl ?_
        (fun j => stage_setMember_of_ne _) ?_
      · simp [setMember, Goroutine.stage]
      · rw [here]
        exact fun inside => Task.ofStages_member inside rfl rfl rfl
  | stores i err here =>
      have alive : (s.member i).point.alive = 1 := by rw [here]; rfl
      simp only [shown, here]
      refine @refines_unseen _ _ _ _ _ i rfl ?_ fun j other => ?_
      · simp [setPoint, setMember, here, Goroutine.stage, GroupCall.err, sound.sized,
          (sound.ending alive).1]
      · simp [setPoint, setMember, other, GroupCall.err, Ne.symm other]
  | fails i err here serving slot =>
      simp only [shown, here, setPoint, setMember, Function.update_self]
      refine refines_unseen rfl ?_ fun j => stage_setMember_of_ne _
      simp [here, Goroutine.stage, GroupCall.err]
  | passes i here clean =>
      simp only [shown, here, setPoint, setMember, Function.update_self]
      refine refines_change (.done (s.err i)) sound (by rw [here]; rfl) rfl ?_
        (fun j => stage_setMember_of_ne _) ?_
      · simp [Goroutine.stage, GroupCall.err]
      · rw [here]
        exact fun ended => Task.ofStages_collect ended
  | aborts i here =>
      simp only [shown, here, setPoint, setMember, Function.update_self]
      refine refines_change (.done (s.err i)) sound (by rw [here]; rfl) rfl ?_
        (fun j => stage_setMember_of_ne _) ?_
      · simp [Goroutine.stage, GroupCall.err]
      · rw [here]
        exact fun ended => Task.ofStages_collect ended
  | counts i here =>
      simp only [shown, here, setPoint, setMember, Function.update_self]
      refine refines_unseen rfl ?_ fun j => stage_setMember_of_ne _
      simp [here, Goroutine.stage, GroupCall.err]
  | cancel fresh => exact refines_silent rfl fun _ => rfl
  | propagate serving cancelled fresh => exact refines_silent rfl fun _ => rfl

private theorem view_aborted : (s.view group m).aborted = true ↔ m = .serve ∧
    ((∃ i < group.length, ((s.member i).point.stage (s.err i)).failed = true) ∨
      s.main.stage ≠ .inside) := by
  simp [view, Task.ofStages, Task.aborted, stages]

/-- The context of the task is cancelled only if that of the members is. The converse holds
but for a cancellation from outside and for the end of `Serve`. -/
structure Tied (group : List Service) (m : Method) (s : GroupCall Service) : Prop where
  left : m = .serve → s.main.Leaves → s.derived = true
  aborted : s.derived = true → (s.view group m).aborted = true ∨ s.given = true ∨ s.main.Leaves

theorem Tied.derived (tied : Tied group m s) (sound : Sound group m s)
    (aborted : (s.view group m).aborted = true) : s.derived = true := by
  obtain ⟨serving, ⟨i, _, failed⟩ | past⟩ := view_aborted.mp aborted
  · have fits := sound.member i
    cases here : (s.member i).point with
    | counting | gone =>
        simp only [Member.Fits, here] at fits
        rw [here] at failed
        exact fits.2.2 serving failed
    | _ =>
        rw [here] at failed
        cases failed
  · refine tied.left serving ?_
    cases here : s.main with
    | returned result => trivial
    | _ => exact absurd (by rw [here]; rfl) past

theorem Tied.step (tied : Tied group m s) (sound : Sound group m s)
    (moved : Moves group m s act s') : Tied group m s' := by
  have stays : (s.view group m).aborted = true → (s'.view group m).aborted = true := fun before =>
    Transition.System.exec_keeps (fun t : Task => t.aborted = true)
      (fun _ _ _ held stepped => Task.aborted_stays stepped held) before (moved.refines sound)
  have early (before : ¬s.main.Leaves) (derived : s.derived = true) :
      (s'.view group m).aborted = true ∨ s.given = true := by
    rcases tied.aborted derived with aborted | given | leaves
    · exact .inl (stays aborted)
    · exact .inr given
    · exact absurd leaves before
  constructor
  · cases moved with
    | add | all | go => exact fun _ leaves => leaves.elim
    | joins main here none either =>
        rcases either with ⟨_, rfl⟩ | ⟨rfl, _⟩
        · exact fun _ leaves => leaves.elim
        · intro serving
          cases serving
    | leaves result here => exact fun serving _ => tied.left serving (by rw [here]; trivial)
    | deferred | aborts | propagate => exact fun _ _ => rfl
    | _ => exact tied.left
  · cases moved with
    | add i service here | all i here | go i service here | joins main here =>
        exact fun derived => (early (by rw [here]; exact id) derived).imp_right .inl
    | deferred | leaves => exact fun _ => .inr (.inr trivial)
    | cancel => exact fun _ => .inr (.inl rfl)
    | propagate serving cancelled => exact fun _ => .inr (.inl cancelled)
    | aborts i here =>
        have fits := sound.member i
        simp only [Member.Fits, here] at fits
        obtain ⟨_, _, serving, failed⟩ := fits
        refine fun _ => .inl (view_aborted.mpr ⟨serving, .inl ⟨i, ?_, ?_⟩⟩)
        · exact (sound.ending (by rw [here]; rfl)).1
        · simpa [setPoint, setMember, Goroutine.stage, Stage.failed, GroupCall.err] using failed
    | _ => exact fun derived => (tied.aborted derived).imp_left stays

private theorem reachable_tied (reached : (calls group m).Reachable s) : Tied group m s := by
  have both := reached.invariant (fun s => Sound group m s ∧ Tied group m s) ?_ ?_
  · exact both.2
  · rintro _ ⟨given, rfl⟩
    refine ⟨start_sound given, fun _ => False.elim, fun derived => .inr (.inl ?_)⟩
    exact (Bool.and_eq_true_iff.mp derived).2
  · rintro before act next _ ⟨sound, tied⟩ stepped
    have moved := step_moves stepped
    exact ⟨moved.sound sound, tied.step sound moved⟩

/-- Every run of a call is a run of the task that the group is, and the abort of the one is
the abort of the other. -/
theorem exec_refines {actions : List GroupAct} {given : Bool}
    (executed : (calls group m).exec (start group m given) actions = some s) :
    (Task.runs m).exec (.group .ready false (group.map fun _ => .leaf .ready))
      (([], .call) :: (calls group m).trace shown (start group m given) actions) =
        some (s.view group m) ∧
    ((s.view group m).aborted = true → s.derived = true) ∧
    (s.derived = true → (s.view group m).aborted = true ∨ s.given = true ∨ s.main.Leaves) := by
  have called : (Task.runs m).step (.group .ready false (group.map fun _ => .leaf .ready))
      ([], .call) = some ((start group m given).view group m) := by
    have ready : (start group m given).stages group = List.replicate group.length .ready := by
      simp [stages, start, Goroutine.stage]
    have running : (start group m given).main.stage = .inside := rfl
    rw [view, running, ready]
    simp [Task.runs, Task.step, Task.own, Task.stage, Task.setStage, Task.ofStages, Stage.failed]
  have reached : (calls group m).Reachable s := .exec (.initial ⟨given, rfl⟩) executed
  have tied := reachable_tied reached
  refine ⟨Transition.System.exec_step called ?_, tied.derived (reachable_sound reached),
    tied.aborted⟩
  refine Transition.System.exec_simulates (view group m) ((calls group m).Reachable) ?_
    (.initial ⟨given, rfl⟩) executed
  intro before act next reached stepped
  exact ⟨reached.step stepped, (step_moves stepped).refines (reachable_sound reached)⟩

theorem exec_refines_failing :
    ∃ s : GroupCall Nat, (calls [10, 20, 30] .serve).exec (start [10, 20, 30] .serve false)
        failingRun = some s ∧
      (Task.runs .serve).exec (.group .ready false (.replicate 3 (.leaf .ready)))
        (([], .call) :: (calls [10, 20, 30] .serve).trace shown
          (start [10, 20, 30] .serve false) failingRun) = some (s.view [10, 20, 30] .serve) ∧
      (s.view [10, 20, 30] .serve).aborted = true ∧ s.derived = true := by
  have executed : (calls [10, 20, 30] .serve).exec (start [10, 20, 30] .serve false)
      failingRun = some _ := rfl
  obtain ⟨refined, aborts, _⟩ := exec_refines executed
  exact ⟨_, executed, refined, rfl, aborts rfl⟩

end GroupCall

end Netx.Lifecycle
