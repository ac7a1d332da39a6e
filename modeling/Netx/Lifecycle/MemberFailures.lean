import Netx.Lifecycle.ProcessProperties
import Netx.Lifecycle.ShutdownErrors

/-!
# Failures of a group's members

In a process whose groups see no panic, a `LoopContext` returns and reports what
failed in its service. A panic in a group ends the process instead.
-/

set_option autoImplicit false

namespace Netx.Lifecycle

open Errors

/-- `OnStart` has failed. -/
def Frame.Failed (f : Frame) : Prop :=
  ∃ out err, .onStartReturned out ∈ f.events ∧ protect "start" out = some err

/-- No service was cancelled in its `Shutdown`, unless `OnStart` has failed. -/
def Frame.Calm (f : Frame) (crew : Crew) : Prop :=
  (∀ err, crew.shutdown.Fails "shutdown" err → Err.is Canceled err = false) ∨ f.Failed

section

variable {Call : Type}

/-- No service in a group panics, Serve ends before `LoopContext` gives up on it,
and `Shutdown` is cancelled only after a failed `OnStart`. -/
structure Orderly (p : Process Call) (action : Call × Move) : Prop where
  calm : action.2.memberPanics = false
  prompt : action.2 ≠ .loop .graceOver
  kept : ∀ path out, action.2 = .member .shutdown path (.ends out) →
    is (protect "shutdown" out) Canceled = true →
      ∃ err, (p.world.frame action.1).pc = .inShutdown (.failed err)

structure Process.Sound (p : Process Call) : Prop where
  alive : p.crashed = false
  linked : ∀ call, Linked (p.world.frame call) (p.crew call)
  calm : ∀ call, (p.world.frame call).Calm (p.crew call)
  expects : ∀ call, (p.world.frame call).Expects

theorem Process.Sound.start (made : Bool) {service : Task} (fresh : service.Fresh) :
    (Process.start made service : Process Call).Sound where
  alive := rfl
  linked _ := linked_start fresh
  calm _ := .inl fun _ fails => absurd fails fresh.not_fails
  expects _ := False.elim

end

section

variable {Call : Type} [DecidableEq Call] {o : Options} {p p' : Process Call} {call : Call}
  {move : Move} {f f' : Frame} {crew crew' : Crew}

theorem Frame.Follows.failed {c : Course} {err : Err} (follows : f.Follows o c)
    (here : f.pc = .inShutdown (.failed err)) : f.Failed := by
  obtain ⟨failed, events⟩ := follows.at here
  have set : o.onStart = true := by
    by_contra unset
    rw [Course.Exits, Course.startErr, if_neg unset] at failed
    cases failed
  refine ⟨c.start, err, ?_, ?_⟩
  · rw [events, Course.opening, if_pos set]
    simp
  · rwa [Course.Exits, Course.startErr, if_pos set] at failed

theorem Frame.Calm.moves {act : Act} {s s' : Server Call} (calm : f.Calm crew)
    (moved : Moves o call s f act s' f') (followed : crew.follow f.pc act = some crew') :
    f'.Calm crew' := by
  refine calm.imp (fun clean err fails => clean err ?_) fun ⟨out, err, member, failed⟩ =>
    ⟨out, err, moved.events_subset member, failed⟩
  unfold Crew.follow at followed
  split at followed
  · cases followed
    exact fails
  · obtain ⟨_, same⟩ := Option.ite_none_right_eq_some.mp followed
    cases same
    exact fails
  · cases followed
    exact fails.of_setStage (.inr rfl)
  · obtain ⟨_, same⟩ := Option.ite_none_right_eq_some.mp followed
    cases same
    exact fails
  · cases followed
    exact fails

theorem Frame.Calm.member {m : Method} {path : List Nat} {act : TaskAct} {t : Task}
    (calm : f.Calm crew) (steps : Task.Steps m path act (crew.task m) t)
    (kept : ∀ out, m = .shutdown → act = .ends out →
      is (protect "shutdown" out) Canceled = true → f.Failed) :
    f.Calm (crew.setTask t m) := by
  cases m with
  | serve => exact calm
  | shutdown =>
      rcases calm with clean | failed
      · by_cases canceled : ∃ out, act = .ends out ∧
            is (protect "shutdown" out) Canceled = true
        · obtain ⟨out, ends, canceled⟩ := canceled
          exact .inr (kept out rfl ends canceled)
        · refine .inl fun err fails => ?_
          rcases steps.fails fails with old | ⟨out, ends, failed⟩
          · exact clean err old
          · push Not at canceled
            have live := canceled out ends
            rw [failed, is_some] at live
            simpa using live
      · exact .inr failed

theorem Process.Sound.steps (sound : p.Sound) (steps : p.Steps o call move p')
    (follows : ∃ c, (p.world.frame call).Follows o c) (orderly : Orderly p (call, move)) :
    p'.Sound := by
  obtain ⟨c, follows⟩ := follows
  cases steps with
  | loop act s f crew moved followed =>
      have unstarted : (p.world.frame call).pc = .goServe →
          (p.world.frame call).serve = .absent := by
        intro here
        by_contra present
        exact (here ▸ (follows.launched present).1 : Pc.goServe.Launched)
      have linked := (sound.linked call).moves moved unstarted followed
        fun same => orderly.prompt (congrArg Move.loop same)
      refine ⟨rfl, fun other => ?_, fun other => ?_, fun other => ?_⟩ <;>
        by_cases acting : other = call
      · subst acting
        simpa only [Function.update_self] using linked
      · simpa only [Function.update_of_ne acting] using sound.linked other
      · subst acting
        simpa only [Function.update_self] using (sound.calm other).moves moved followed
      · simpa only [Function.update_of_ne acting] using sound.calm other
      · subst acting
        simpa only [Function.update_self] using moved.expects (sound.expects other)
      · simpa only [Function.update_of_ne acting] using sound.expects other
  | member m path act t calling steps =>
      refine ⟨orderly.calm, fun other => ?_, fun other => ?_, sound.expects⟩ <;>
        by_cases acting : other = call
      · subst acting
        simpa only [Function.update_self] using
          (sound.linked other).member calling steps orderly.calm
      · simpa only [Function.update_of_ne acting] using sound.linked other
      · subst acting
        have kept : ∀ out, m = .shutdown → act = .ends out →
            is (protect "shutdown" out) Canceled = true → (p.world.frame other).Failed := by
          rintro out rfl rfl canceled
          obtain ⟨err, here⟩ := orderly.kept path out rfl canceled
          exact follows.failed here
        simpa only [Function.update_self] using (sound.calm other).member steps kept
      · simpa only [Function.update_of_ne acting] using sound.calm other

private theorem orderly_sound (reached : (process Call o).ReachableWithin Orderly p) : p.Sound := by
  refine reached.invariant Process.Sound ?_ ?_
  · rintro _ ⟨made, service, fresh, rfl⟩
    exact .start made fresh
  · rintro p ⟨call, move⟩ next before sound orderly stepped
    obtain ⟨_, steps⟩ := Process.step_steps stepped
    have follows := (reachable_sound (reachable_world before.reachable)).follows call
    exact sound.steps steps follows orderly

end

section Records

variable {Call : Type} {o : Options} {p : Process Call} {call : Call} {f : Frame} {crew : Crew}

private theorem Canceled_ne_joined (parts : List Err) : Canceled ≠ .joined parts := by
  simp [Canceled]

variable {err : Err} {c : Course}

theorem Course.served_mem_draining (clean : c.startErr o = none) :
    .served c.serveErr ∈ c.draining o := by
  cases early : c.early with
  | true => simp [Course.draining_of_early clean early]
  | false => simp [Course.draining_of_late clean early]

theorem Course.is_err_of_serve {target : Err} (clean : c.startErr o = none)
    (found : is c.serveErr target = true) : is (c.err o) target = true := by
  rw [Course.err, Course.errs_of_started clean]
  exact is_join_of_mem List.mem_cons_self found

theorem Task.Sound.gave {t : Task} {name : String} {given : Option Err} (sound : t.Sound)
    (fails : t.Fails name err) (gave : t.Gave name given) : is given err = true := by
  obtain ⟨out, ended, rfl⟩ := gave
  have found := sound.found fails (by simp [ended])
  rwa [ended] at found

theorem Linked.serve_recorded (linked : Linked f crew) (follows : f.Follows o c)
    (events : f.events = c.events o) (fails : crew.serve.Fails "serve" err) :
    is (c.err o) err = true := by
  cases started : c.startErr o with
  | some failed =>
      have absent : f.serve = .absent := by
        by_contra present
        cases started.symm.trans (follows.launched present).2
      have fresh := linked.serve
      rw [absent] at fresh
      exact absurd fails (Task.Fresh.not_fails fresh)
  | none =>
      have member : .served c.serveErr ∈ f.events := by
        rw [events, Course.events]
        simp [Course.served_mem_draining started]
      exact Course.is_err_of_serve started ((linked.sound .serve).gave fails
        (linked.events _ member))

theorem Linked.shutdown_recorded (linked : Linked f crew) (calm : f.Calm crew)
    (follows : f.Follows o c) (launched : f.pc.Launched) (events : f.events = c.events o)
    (fails : crew.shutdown.Fails "shutdown" err) : is (c.err o) err = true := by
  have member : .shutdownReturned c.shutdown ∈ f.events := by
    rw [events, Course.events]
    simp [c.shutdownReturned_mem_draining]
  have gave : crew.shutdown.Gave "shutdown" c.shutdownErr :=
    ⟨c.shutdown, linked.events _ member, rfl⟩
  have sound : crew.shutdown.Sound := linked.sound .shutdown
  refine Course.is_err_of_shutdown (sound.gave fails gave) ?_
  rcases calm with clean | ⟨out, failed, member, start⟩
  · refine .inr (Bool.eq_false_iff.mpr fun canceled => ?_)
    obtain ⟨out, ended, same⟩ := gave
    have found : is (crew.shutdown.stage.err "shutdown") Canceled = true := by
      rw [ended]
      show is (protect "shutdown" out) Canceled = true
      rwa [same]
    obtain ⟨err, fails, cancels⟩ := sound.exists_fails Canceled_ne_joined found
    rw [clean err fails] at cancels
    cases cancels
  · obtain ⟨set, rfl⟩ := follows.along.onStartReturned launched member
    refine .inl ?_
    simp [Course.startErr, set, start]

theorem Process.Sound.recorded (sound : p.Sound) (follows : ∃ c, (p.world.frame call).Follows o c)
    {result : Option Err} (here : (p.world.frame call).pc = .returned (.looped result))
    (fails : (p.crew call).serve.Fails "serve" err ∨
      (p.crew call).shutdown.Fails "shutdown" err) : is result err = true := by
  obtain ⟨c, follows⟩ := follows
  obtain ⟨rfl, events⟩ := follows.at here
  refine Course.is_result ?_
  rcases fails with served | shut
  · exact (sound.linked call).serve_recorded follows events served
  · exact (sound.linked call).shutdown_recorded (sound.calm call) follows (here ▸ trivial)
      events shut

end Records

section Progress

variable {Call : Type} [DecidableEq Call] {o : Options} {p : Process Call} {call : Call}

/-- A step that the call or its Serve goroutine takes without giving up. -/
def Act.plain : Act → Bool
  | .graceOver | .ctxEnds _ | .drainExpires => false
  | _ => true

/-- The call, its goroutines or its service can take a step. -/
def Process.Moves (o : Options) (p : Process Call) (call : Call) : Prop :=
  ∃ move next, Orderly p (call, move) ∧ move.counts = true ∧
    p.step o (call, move) = some next

theorem Process.Sound.loop_moves (sound : p.Sound) (act : Act) {s : Server Call} {f : Frame}
    {crew : Crew} (found : effect o call p.world.server (p.world.frame call) act = some (s, f))
    (followed : (p.crew call).follow (p.world.frame call).pc act = some crew)
    (plain : act.plain = true) : p.Moves o call := by
  obtain ⟨next, stepped⟩ :=
    Process.step_of_loop sound.alive (World.step_of_effect found) followed
  refine ⟨.loop act, next, ⟨rfl, ?_, by simp⟩, ?_, stepped⟩
  · rintro ⟨⟩
    cases plain
  · cases act with
    | ctxEnds | drainExpires => cases plain
    | _ => rfl

theorem Process.Sound.member_moves (sound : p.Sound) {m : Method}
    (calling : (p.world.frame call).calling m = true)
    (inside : ((p.crew call).task m).stage = .inside) : p.Moves o call := by
  obtain ⟨path, act, enabled, quiet⟩ :=
    ((sound.linked call).sound m).enabled (m := m) inside
  obtain ⟨next, stepped⟩ := Process.step_of_member (o := o) sound.alive calling enabled
  refine ⟨.member m path act, next, ⟨?_, by simp, ?_⟩, rfl, stepped⟩
  · cases act with
    | ends out =>
        cases quiet out rfl
        cases path <;> rfl
    | _ => cases path <;> rfl
  · intro path' out same canceled
    cases same
    cases quiet out rfl
    cases canceled

theorem Process.Sound.serve_moves (sound : p.Sound)
    (here : (p.world.frame call).pc = .select ∨
      ∃ err, (p.world.frame call).pc = .awaitServe err) : p.Moves o call := by
  have awaits : (p.world.frame call).pc.Awaits := by
    rcases here with here | ⟨err, here⟩ <;> rw [here] <;> trivial
  obtain ⟨present, sent⟩ := sound.expects call awaits
  have backed := (sound.linked call).serve
  cases serving : (p.world.frame call).serve with
  | absent => exact absurd serving present
  | ready =>
      exact sound.loop_moves .serveCalled (by simp only [effect, serving]; rfl) rfl rfl
  | inside =>
      rw [serving] at backed
      rcases backed with inside | ⟨out, ended⟩
      · exact sound.member_moves (m := .serve) (by simp only [Frame.calling, serving]) inside
      · exact sound.loop_moves (.serveReturns out) (by simp only [effect, serving]; rfl)
          (if_pos ended) rfl
  | returned err =>
      exact sound.loop_moves .serveSends (by simp only [effect, serving]; rfl) rfl rfl
  | sent =>
      cases taken : (p.world.frame call).served with
      | none => exact absurd taken (sent serving)
      | some err =>
          rcases here with here | ⟨_, here⟩ <;>
            exact sound.loop_moves .takeServed (by simp only [effect, here, taken]; rfl)
              rfl rfl

/-- A `LoopContext` that has begun is never stuck. -/
theorem Process.Sound.moves (sound : p.Sound) (begun : (p.world.frame call).pc.Begun)
    (unfinished : ∀ result, (p.world.frame call).pc ≠ .returned (.looped result)) :
    p.Moves o call := by
  cases here : (p.world.frame call).pc with
  | onStart | setRunning | goServe | setStopping | shutdown | abort | unwind | finish =>
      exact sound.loop_moves .next (by simp only [effect, next, here]; rfl)
        (by simp only [Crew.follow, here]; rfl) rfl
  | onStop errs =>
      have next : ∃ f, effect o call p.world.server (p.world.frame call) .next =
          some (p.world.server, f) := by
        cases set : o.onStop <;> exact ⟨_, by simp only [effect, Lifecycle.next, here, set]; rfl⟩
      obtain ⟨f, found⟩ := next
      exact sound.loop_moves .next found (by simp only [Crew.follow, here]; rfl) rfl
  | report err =>
      have next : ∃ f, effect o call p.world.server (p.world.frame call) .next =
          some (p.world.server, f) := by
        cases err <;> cases set : o.onError <;>
          exact ⟨_, by simp only [effect, Lifecycle.next, here, set]; rfl⟩
      obtain ⟨f, found⟩ := next
      exact sound.loop_moves .next found (by simp only [Crew.follow, here]; rfl) rfl
  | inOnStart | inOnStop | inOnError =>
      exact sound.loop_moves (.returns (.returns none))
        (by simp only [effect, Frame.returns, here]; rfl)
        (by simp only [Crew.follow, here]; rfl) rfl
  | inShutdown exit =>
      rcases (sound.linked call).at here with inside | ⟨out, ended⟩
      · exact sound.member_moves (m := .shutdown) (by simp only [Frame.calling, here]) inside
      · exact sound.loop_moves (.returns out) (by simp only [effect, Frame.returns, here]; rfl)
          (by simp only [Crew.follow, here, ended, if_true]; rfl) rfl
  | select => exact sound.serve_moves (.inl here)
  | awaitServe err => exact sound.serve_moves (.inr ⟨err, here⟩)
  | returned reply =>
      cases reply with
      | looped result => exact absurd here (unfinished result)
      | _ => exact absurd (congrArg Pc.states here) begun
  | _ => exact absurd (congrArg Pc.states here) begun

end Progress

section Contract

variable {Call : Type} [DecidableEq Call]

/-- The process is alive, a `LoopContext` that has begun goes on until it returns,
and then its result shows every failure in its service. -/
structure Reports (o : Options) (p : Process Call) (call : Call) : Prop where
  alive : p.crashed = false
  moves : (p.world.frame call).pc.Begun →
    (∀ result, (p.world.frame call).pc ≠ .returned (.looped result)) → p.Moves o call
  bounded : ∀ actions final, (process Call o).exec p actions = some final →
    actions.countP (fun action => action.1 = call ∧ action.2.counts = true) ≤ p.left call
  recorded : ∀ result err, (p.world.frame call).pc = .returned (.looped result) →
    (p.crew call).serve.Fails "serve" err ∨ (p.crew call).shutdown.Fails "shutdown" err →
      is result err = true

variable {o : Options} {p : Process Call}

theorem Process.step_crashed {next : Process Call} {action : Call × Move}
    (stepped : p.step o action = some next) :
    next.crashed = false ↔ action.2.memberPanics = false := by
  obtain ⟨call, move⟩ := action
  obtain ⟨_, steps⟩ := Process.step_steps stepped
  cases steps with
  | loop => exact iff_of_true rfl rfl
  | member => exact Iff.rfl

private theorem orderly_reports (reached : (process Call o).ReachableWithin Orderly p)
    (call : Call) : Reports o p call where
  alive := (orderly_sound reached).alive
  moves := (orderly_sound reached).moves
  bounded actions final executed :=
    Nat.le_trans (Nat.le_add_right _ _) (Process.countP_le call executed)
  recorded _ _ here fails := by
    have follows := (reachable_sound (reachable_world reached.reachable)).follows call
    exact (orderly_sound reached).recorded follows here fails

/-- A process lives exactly as long as no member of a group panics. In an orderly
run every `LoopContext` returns and reports the failures of all members. -/
theorem group_failures_reported (o : Options) {start final : Process Call}
    (initial : (process Call o).initial start) {actions : List (Call × Move)}
    (executed : (process Call o).exec start actions = some final) :
    ((∀ p, (process Call o).Visits start actions p → p.crashed = false) ↔
      ∀ p action, (process Call o).Takes start actions p action →
        action.2.memberPanics = false) ∧
    ((∀ p action, (process Call o).Takes start actions p action → Orderly p action) →
      ∀ p, (process Call o).Visits start actions p → ∀ call, Reports o p call) := by
  constructor
  · have alive : start.crashed = false := by
      obtain ⟨made, service, _, rfl⟩ := initial
      rfl
    have exact_step : ∀ p action next, (process Call o).Reachable p → p.crashed = false →
        (process Call o).step p action = some next →
          (next.crashed = false ↔ ¬action.2.memberPanics = true) := by
      intro p action next _ _ stepped
      rw [Process.step_crashed stepped, Bool.not_eq_true]
    have lives := Transition.System.visits_iff_takes (fun p => p.crashed = false)
      (fun _ action => action.2.memberPanics = true) exact_step (.initial initial) alive executed
    simpa only [Bool.not_eq_true] using lives
  · rintro orderly p ⟨front, back, rfl, executedFront⟩
    refine orderly_reports (.exec (.initial initial) ?_ executedFront)
    rintro state action ⟨earlier, later, rfl, reached⟩
    exact orderly state action ⟨earlier, later ++ back, by simp, reached⟩

end Contract

def onlyService : Options := ⟨true, false, false, false, 30⟩

/-- `LoopContext` up to the moment it has called Serve and waits. -/
def servingRun : List (Nat × Move) :=
  [(0, .loop (.call .loopContext)), (0, .loop .next), (0, .loop .next), (0, .loop .next),
    (0, .loop .serveCalled)]

/-- A service beside a group of one. -/
def nestedService : Task :=
  .group .ready false [.leaf .ready, .group .ready false [.leaf .ready]]

def lostConnection : Err := .new 11 "connection lost"

/-- The inner member fails, the outer one is aborted and returns nil, and all
members shut down without error. -/
def failingMemberRun : List (Nat × Move) :=
  servingRun ++
    [(0, .member .serve [0] .call), (0, .member .serve [1] .call),
      (0, .member .serve [1, 0] .call),
      (0, .member .serve [1, 0] (.ends (.returns (some lostConnection)))),
      (0, .member .serve [1] (.collect 0)), (0, .member .serve [1] .returns),
      (0, .member .serve [] (.collect 1)), (0, .member .serve [0] (.ends (.returns none))),
      (0, .member .serve [] (.collect 0)), (0, .member .serve [] .returns),
      (0, .loop (.serveReturns (.returns (some (.joined [.joined [lostConnection]]))))),
      (0, .loop .serveSends), (0, .loop .takeServed), (0, .loop .next), (0, .loop .next),
      (0, .member .shutdown [0] .call), (0, .member .shutdown [0] (.ends (.returns none))),
      (0, .member .shutdown [] (.collect 0)), (0, .member .shutdown [1] .call),
      (0, .member .shutdown [1, 0] .call),
      (0, .member .shutdown [1, 0] (.ends (.returns none))),
      (0, .member .shutdown [1] (.collect 0)), (0, .member .shutdown [1] .returns),
      (0, .member .shutdown [] (.collect 1)), (0, .member .shutdown [] .returns),
      (0, .loop (.returns (.returns none))), (0, .loop .next), (0, .loop .next),
      (0, .loop .next), (0, .loop .next)]

private theorem nestedService_fresh : nestedService.Fresh := by
  refine .group _ fun member listed => ?_
  simp only [List.mem_cons, List.not_mem_nil, or_false] at listed
  rcases listed with rfl | rfl
  · exact .leaf
  · refine .group _ fun member listed => ?_
    obtain rfl := List.mem_singleton.mp listed
    exact .leaf

/-- Steps that are orderly wherever they are taken. -/
def Move.tame : Move → Bool
  | .loop .graceOver => false
  | .member .shutdown path (.ends out) =>
      !(Move.member .shutdown path (.ends out)).memberPanics &&
        !is (protect "shutdown" out) Canceled
  | move => !move.memberPanics

private theorem orderly_of_tame {Call : Type} {p : Process Call} {action : Call × Move}
    (tame : action.2.tame = true) : Orderly p action := by
  obtain ⟨call, move⟩ := action
  refine ⟨?_, ?_, ?_⟩
  · unfold Move.tame at tame
    split at tame
    · cases tame
    · simp only [Bool.and_eq_true, Bool.not_eq_true'] at tame
      simp_all only
    · simpa using tame
  · rintro rfl
    cases tame
  · rintro path out rfl canceled
    simp [Move.tame, canceled] at tame

def Pc.reports (err : Err) : Pc → Bool
  | .returned (.looped result) => is result err
  | _ => false

theorem Pc.exists_of_reports {pc : Pc} {err : Err} (reports : pc.reports err = true) :
    ∃ result, pc = .returned (.looped result) ∧ is result err = true := by
  unfold Pc.reports at reports
  split at reports
  · exact ⟨_, rfl, reports⟩
  · cases reports

theorem group_failures_reported_nested :
    ∃ p, (process Nat onlyService).exec (.start true nestedService) failingMemberRun = some p ∧
      Reports onlyService p 0 ∧
      ∃ result, (p.world.frame 0).pc = .returned (.looped result) ∧
        is result lostConnection = true := by
  have checked : ((process Nat onlyService).exec (.start true nestedService)
      failingMemberRun).any (fun p => (p.world.frame 0).pc.reports lostConnection) = true := by
    decide +kernel
  obtain ⟨p, executed, returned⟩ := Transition.System.exec_of_check _ checked
  have tame : ∀ action ∈ failingMemberRun, action.2.tame = true := by decide +kernel
  have orderly : ∀ q action, (process Nat onlyService).Takes (.start true nestedService)
      failingMemberRun q action → Orderly q action := by
    rintro q action ⟨front, back, split, _⟩
    exact orderly_of_tame (tame action (split ▸ List.mem_append_right _ List.mem_cons_self))
  have reports := (group_failures_reported onlyService
    ⟨true, nestedService, nestedService_fresh, rfl⟩ executed).2 orderly
      p (Transition.System.visits_final executed) 0
  exact ⟨p, executed, reports, Pc.exists_of_reports returned⟩

/-- The only member panics while it serves. -/
def panickingMemberRun : List (Nat × Move) :=
  servingRun ++
    [(0, .member .serve [0] .call), (0, .member .serve [0] (.ends (.panics "boom")))]

/-- The same service panics, run without a group. -/
def panickingServiceRun : List (Nat × Move) :=
  servingRun ++
    [(0, .member .serve [] (.ends (.panics "boom"))),
      (0, .loop (.serveReturns (.panics "boom"))), (0, .loop .serveSends),
      (0, .loop .takeServed), (0, .loop .next), (0, .loop .next),
      (0, .member .shutdown [] (.ends (.returns none))), (0, .loop (.returns (.returns none))),
      (0, .loop .next), (0, .loop .next), (0, .loop .next), (0, .loop .next)]

/-- In a group the panic is fatal and `LoopContext` never returns. Without one it
is reported. -/
theorem panicking_member_kills_process :
    (∃ p, (process Nat onlyService).exec (.start true (.group .ready false [.leaf .ready]))
        panickingMemberRun = some p ∧ p.crashed = true ∧ (p.world.frame 0).pc = .select ∧
        ∀ action, (process Nat onlyService).step p action = none) ∧
      ∃ p, (process Nat onlyService).exec (.start true (.leaf .ready))
        panickingServiceRun = some p ∧ p.crashed = false ∧
        ∃ result, (p.world.frame 0).pc = .returned (.looped result) ∧
          is result (.errorf "netx: serve panic: boom") = true := by
  have fatal : (process Nat onlyService).exec (.start true (.group .ready false [.leaf .ready]))
      panickingMemberRun = some _ := rfl
  have direct : (process Nat onlyService).exec (.start true (.leaf .ready))
      panickingServiceRun = some _ := rfl
  exact ⟨⟨_, fatal, rfl, rfl, fun _ => rfl⟩, _, direct, rfl, _, rfl, by decide⟩

end Netx.Lifecycle
