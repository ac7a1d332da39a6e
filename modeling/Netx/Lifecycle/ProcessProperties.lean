import Netx.Lifecycle.Process

/-!
# The server and the service it runs

What the server has seen of its service is what the service did, and a
`LoopContext` waits for nothing that does not come.
-/

set_option autoImplicit false

namespace Netx.Lifecycle

open Errors

/-- The call is over and its caller was given `err`. -/
def Task.Gave (name : String) (err : Option Err) (t : Task) : Prop :=
  ∃ out, t.stage = .ended out ∧ protect name out = err

/-- The call was made. It may be over. -/
def Task.Called (t : Task) : Prop :=
  t.stage = .inside ∨ ∃ out, t.stage = .ended out

def Serving.Backed (t : Task) : Serving → Prop
  | .absent | .ready => t.Fresh
  | .inside => t.Called
  | .returned err => t.Gave "serve" err
  | .sent => ∃ err, t.Gave "serve" err

def Event.Backed (crew : Crew) : Event → Prop
  | .served err => crew.serve.Gave "serve" err
  | .shutdownReturned out => crew.shutdown.stage = .ended out
  | _ => True

def Pc.Backed (t : Task) : Pc → Prop
  | .inShutdown _ => t.Called
  | .abort _ | .awaitServe _ | .onStop _ | .inOnStop _ | .report _ | .inOnError _ => True
  | .unwind _ | .finish _ | .returned (.looped _) => True
  | _ => t.Fresh

/-- What a call knows of its service is so. -/
structure Linked (f : Frame) (crew : Crew) : Prop where
  serve : f.serve.Backed crew.serve
  served : ∀ err, f.served = some err → crew.serve.Gave "serve" err
  events : ∀ event ∈ f.events, event.Backed crew
  pc : f.pc.Backed crew.shutdown
  sound : ∀ m, (crew.task m).Sound

section Tasks

variable {m : Method} {t t' : Task} {path : List Nat} {act : TaskAct} {name : String}

theorem Task.Fresh.not_gave {err : Option Err} (fresh : t.Fresh) : ¬t.Gave name err := by
  rintro ⟨out, ended, _⟩
  cases fresh.stage.symm.trans ended

theorem Task.Steps.called (steps : Task.Steps m path act t t') : t'.Called := by
  cases steps with
  | own _ _ _ acts =>
      cases acts with
      | call t ready => exact .inl (Task.stage_setStage _ t)
      | ends out => exact .inr ⟨out, rfl⟩
      | collect => exact .inl rfl
      | returns => exact .inr ⟨_, rfl⟩
  | member => exact .inl rfl

theorem Task.Steps.not_ended (steps : Task.Steps m path act t t') (out : Outcome) :
    t.stage ≠ .ended out := by
  intro ended
  cases steps with
  | own _ _ _ acts =>
      cases acts with
      | call t ready => cases ready.symm.trans ended
      | ends | collect | returns => cases ended
  | member => cases ended

theorem Task.Steps.not_gave {err : Option Err} (steps : Task.Steps m path act t t') :
    ¬t.Gave name err := by
  rintro ⟨out, ended, _⟩
  exact steps.not_ended out ended

end Tasks

section Links

variable {f f' : Frame} {crew crew' : Crew}

theorem linked_start {service : Task} (fresh : service.Fresh) : Linked {} ⟨service, service⟩ where
  serve := fresh
  served := nofun
  events := nofun
  pc := fresh
  sound m := by cases m <;> exact fresh.sound

variable {pc : Pc} {t : Task}

theorem Linked.at (linked : Linked f crew) (here : f.pc = pc) : pc.Backed crew.shutdown :=
  here ▸ linked.pc

/-- A step that only moves the call on. -/
theorem Linked.goto (linked : Linked f crew) (backed : pc.Backed crew.shutdown) :
    Linked (f.goto pc) crew :=
  ⟨linked.serve, linked.served, linked.events, backed, linked.sound⟩

theorem Linked.log (linked : Linked f crew) {event : Event} (backed : pc.Backed crew.shutdown)
    (known : event.Backed crew) : Linked (f.log pc event) crew where
  serve := linked.serve
  served := linked.served
  events := by
    intro other member
    rcases List.mem_append.mp member with old | new
    · exact linked.events other old
    · exact List.mem_singleton.mp new ▸ known
  pc := backed
  sound := linked.sound

/-- What is known of a call that is over is not touched by the other call. -/
theorem Event.Backed.setTask {event : Event} {m : Method} (backed : event.Backed crew)
    (unended : ∀ out, (crew.task m).stage ≠ .ended out) : event.Backed (crew.setTask t m) := by
  cases event with
  | served err =>
      cases m with
      | serve =>
          obtain ⟨out, ended, _⟩ := backed
          exact absurd ended (unended out)
      | shutdown => exact backed
  | shutdownReturned out =>
      cases m with
      | serve => exact backed
      | shutdown => exact absurd backed (unended out)
  | _ => trivial

theorem Linked.sound_setTask {m : Method} (linked : Linked f crew) (sound : t.Sound)
    (other : Method) : ((crew.setTask t m).task other).Sound := by
  cases m with
  | serve =>
      cases other with
      | serve => exact sound
      | shutdown => exact linked.sound .shutdown
  | shutdown =>
      cases other with
      | serve => exact linked.sound .serve
      | shutdown => exact sound

theorem Task.Fresh.called (fresh : t.Fresh) :
    (t.setStage .inside).Called ∧ (t.setStage .inside).Sound ∧ ∀ out, t.stage ≠ .ended out := by
  refine ⟨.inl (Task.stage_setStage _ t), ?_, fun out ended => ?_⟩
  · exact (Task.Acts.call (m := .serve) t fresh.stage).sound fresh.sound
  · cases fresh.stage.symm.trans ended

end Links

section Steps

variable {Call : Type} [DecidableEq Call] {o : Options} {call : Call} {s s' : Server Call}
  {f f' : Frame} {crew crew' : Crew} {act : Act}

/-- Other fields of the frame do not matter. -/
theorem Linked.congr (linked : Linked f crew) (serve : f'.serve = f.serve)
    (served : f'.served = f.served ∨ f'.served = none) (events : f'.events = f.events)
    (pc : f'.pc = f.pc) : Linked f' crew where
  serve := serve ▸ linked.serve
  served err sent := by
    rcases served with same | none
    · exact linked.served err (same ▸ sent)
    · cases none.symm.trans sent
  events := events ▸ linked.events
  pc := pc ▸ linked.pc
  sound := linked.sound

theorem Linked.moves (linked : Linked f crew) (moved : Moves o call s f act s' f')
    (unstarted : f.pc = .goServe → f.serve = .absent)
    (followed : crew.follow f.pc act = some crew') (prompt : act ≠ .graceOver) :
    Linked f' crew' := by
  cases moved with
  | call op here =>
      have backed := linked.at here
      cases followed
      refine linked.goto ?_
      cases op <;> exact backed
  | unset here | refused here | setRunning here | stop here | shutdownRefused _ here
  | shutdownStop here | shutdownLock here | forceAbort here | onStopUnset _ here
  | reportNone here | onErrorUnset _ here | finish _ here =>
      have backed := linked.at here
      rw [here] at followed
      cases followed
      exact linked.goto backed
  | done here | ctxDone _ here | stopRequested here =>
      have backed := linked.at here
      cases followed
      exact linked.goto backed
  | begin here begun =>
      have backed := linked.at here
      rw [here] at followed
      cases followed
      refine linked.goto ?_
      cases o.onStart <;> exact backed
  | onStart here | started _ here | onStop _ here | onStopReturned _ _ here | onError _ here
  | onErrorReturned _ here | onErrorPanicked _ _ here =>
      have backed := linked.at here
      rw [here] at followed
      cases followed
      exact linked.log backed trivial
  | startFailed out err here failed =>
      have backed := linked.at here
      rw [here] at followed
      cases followed
      have logged : Linked (f.log (.shutdown (.failed err)) (.onStartReturned out)) crew :=
        linked.log backed trivial
      exact logged.congr rfl (.inl rfl) rfl rfl
  | goServe here =>
      have backed := linked.at here
      have fresh := linked.serve
      rw [unstarted here] at fresh
      rw [here] at followed
      cases followed
      exact ⟨fresh, linked.served, linked.events, backed, linked.sound⟩
  | servedEarly err here sent =>
      have backed := linked.at here
      cases followed
      have logged : Linked (f.log (.setStopping (some err)) (.served err)) crew :=
        linked.log backed (linked.served err sent)
      exact logged.congr rfl (.inr rfl) rfl rfl
  | servedLate shutdownErr err here sent =>
      cases followed
      have logged : Linked (f.log (.onStop [err, ignoreCanceled shutdownErr]) (.served err))
          crew := linked.log trivial (linked.served err sent)
      exact logged.congr rfl (.inr rfl) rfl rfl
  | setStopping served here =>
      have backed := linked.at here
      rw [here] at followed
      cases followed
      have moved : Linked (f.goto (.shutdown (.stopping served))) crew := linked.goto backed
      exact moved.congr rfl (.inl rfl) rfl rfl
  | shutdown exit here =>
      obtain ⟨called, sound, unended⟩ := Task.Fresh.called (linked.at here)
      rw [here] at followed
      cases followed
      refine ⟨linked.serve, linked.served, fun event member => ?_, called, ?_⟩
      · rcases List.mem_append.mp member with old | new
        · exact (linked.events event old).setTask (m := .shutdown) unended
        · exact List.mem_singleton.mp new ▸ trivial
      · exact linked.sound_setTask (m := .shutdown) sound
  | shutdownReturned exit out here =>
      rw [here] at followed
      obtain ⟨ended, same⟩ := Option.ite_none_right_eq_some.mp followed
      cases same
      refine linked.log ?_ ended
      rcases exit with err | (_ | err) <;> trivial
  | abort shutdownErr here =>
      rw [here] at followed
      cases followed
      have moved : Linked (f.goto (.awaitServe shutdownErr)) crew := linked.goto trivial
      exact moved.congr rfl (.inl rfl) rfl rfl
  | graceOver => exact absurd rfl prompt
  | unwind result here =>
      rw [here] at followed
      cases followed
      have moved : Linked (f.goto (.finish result)) crew := linked.goto trivial
      exact moved.congr rfl (.inl rfl) rfl rfl
  | ctxEnds | drainExpires | watchForce | watchDrain =>
      cases followed
      exact linked.congr rfl (.inl rfl) rfl rfl
  | serveCalled here =>
      have fresh := linked.serve
      rw [here] at fresh
      obtain ⟨called, sound, unended⟩ := Task.Fresh.called fresh
      cases followed
      refine ⟨called, fun err sent => ?_, fun event member => ?_, linked.pc, ?_⟩
      · exact absurd (linked.served err sent) fresh.not_gave
      · exact (linked.events event member).setTask (m := .serve) unended
      · exact linked.sound_setTask (m := .serve) sound
  | serveReturns out here =>
      obtain ⟨ended, same⟩ := Option.ite_none_right_eq_some.mp followed
      cases same
      exact ⟨⟨out, ended, rfl⟩, linked.served, linked.events, linked.pc, linked.sound⟩
  | serveSends err here =>
      cases followed
      have gave := linked.serve
      rw [here] at gave
      refine ⟨⟨err, gave⟩, fun other sent => ?_, linked.events, linked.pc, linked.sound⟩
      cases sent
      exact gave

/-- A service of the tree moves while the call waits for it. -/
theorem Linked.member {m : Method} {path : List Nat} {act : TaskAct} {t : Task}
    (linked : Linked f crew) (calling : f.calling m = true)
    (steps : Task.Steps m path act (crew.task m) t)
    (calm : (Move.member m path act).memberPanics = false) :
    Linked f (crew.setTask t m) := by
  have sound : t.Sound := by
    refine steps.sound (fun inner value same => ?_) (linked.sound m)
    subst same
    cases path with
    | nil => exact inner rfl
    | cons i path => cases calm
  have events : ∀ event ∈ f.events, event.Backed (crew.setTask t m) := fun event member =>
    (linked.events event member).setTask fun out => steps.not_ended out
  cases m with
  | serve =>
      have inside : f.serve = .inside := by
        cases here : f.serve <;> simp_all [Frame.calling]
      refine ⟨?_, fun err sent => ?_, events, linked.pc, linked.sound_setTask sound⟩
      · rw [inside]
        exact steps.called
      · exact absurd (linked.served err sent) steps.not_gave
  | shutdown =>
      have inside : ∃ exit, f.pc = .inShutdown exit := by
        cases here : f.pc <;> simp_all [Frame.calling]
      obtain ⟨exit, here⟩ := inside
      refine ⟨linked.serve, linked.served, events, ?_, linked.sound_setTask sound⟩
      rw [here]
      exact steps.called

theorem Moves.events_subset (moved : Moves o call s f act s' f') : f.events ⊆ f'.events := by
  cases moved <;> first
    | exact List.Subset.refl _
    | exact List.subset_append_left _ _

/-- Serve's result is still to come. -/
def Pc.Awaits : Pc → Prop
  | .select | .setStopping none | .shutdown (.stopping none) => True
  | .inShutdown (.stopping none) | .abort _ | .awaitServe _ => True
  | _ => False

/-- A result that is still to come is on its way. -/
def Frame.Expects (f : Frame) : Prop :=
  f.pc.Awaits → f.serve ≠ .absent ∧ (f.serve = .sent → f.served ≠ none)

theorem Moves.expects (moved : Moves o call s f act s' f') (expects : f.Expects) :
    f'.Expects := by
  cases moved with
  | call op => cases op <;> exact False.elim
  | begin => cases h : o.onStart <;> simp [Frame.goto, Frame.Expects, Pc.Awaits]
  | goServe here => exact fun _ => ⟨by simp, by simp⟩
  | stopRequested here => exact fun _ => expects (here ▸ trivial)
  | setStopping served here =>
      intro awaits
      cases served with
      | none => exact expects (here ▸ trivial)
      | some err => exact awaits.elim
  | shutdown exit here =>
      intro awaits
      rcases exit with err | (_ | err)
      · exact awaits.elim
      · exact expects (here ▸ trivial)
      · exact awaits.elim
  | shutdownReturned exit out here =>
      intro awaits
      rcases exit with err | (_ | err)
      · exact awaits.elim
      · exact expects (here ▸ trivial)
      · exact awaits.elim
  | abort err here => exact fun _ => expects (here ▸ trivial)
  | ctxEnds | drainExpires | watchForce | watchDrain => exact expects
  | serveCalled here | serveReturns out here => exact fun awaits => ⟨by simp, by simp⟩
  | serveSends err here => exact fun awaits => ⟨by simp, by simp⟩
  | _ => exact False.elim

end Steps

/-- How many steps of its own a call has left at most. -/
def Pc.left : Pc → Nat
  | .idle => 18
  | .loopContext => 17
  | .onStart => 16
  | .inOnStart => 15
  | .setRunning => 14
  | .goServe => 13
  | .select => 12
  | .setStopping _ => 11
  | .shutdown _ => 10
  | .inShutdown _ => 9
  | .abort _ => 8
  | .awaitServe _ => 7
  | .onStop _ => 6
  | .inOnStop _ => 5
  | .report _ => 4
  | .inOnError _ | .shutdownStop => 3
  | .unwind _ | .shutdownSelect => 2
  | .finish _ | .shutdownLock | .stop | .forceAbort => 1
  | .returned _ => 0

def Serving.left : Serving → Nat
  | .ready => 3
  | .inside => 2
  | .returned _ => 1
  | .absent | .sent => 0

def Watcher.left : Watcher → Nat
  | .watching => 1
  | .absent | .gone => 0

/-- The weights leave room for the goroutines that a step starts. -/
def Frame.left (f : Frame) : Nat :=
  5 * f.pc.left + f.serve.left + f.watcher.left

/-- A call of the service is at most two steps from where it was before. -/
def Process.left {Call : Type} (p : Process Call) (call : Call) : Nat :=
  3 * (p.world.frame call).left + (p.crew call).serve.left + (p.crew call).shutdown.left

/-- Not a step of the clock or of whoever gave the context. -/
def Move.counts : Move → Bool
  | .loop (.ctxEnds _) | .loop .drainExpires => false
  | _ => true

section Bounds

variable {Call : Type} [DecidableEq Call] {o : Options} {call : Call} {s s' : Server Call}
  {f f' : Frame} {crew crew' : Crew} {act : Act} {p p' : Process Call} {move : Move}

theorem Moves.left_lt (moved : Moves o call s f act s' f')
    (counts : (Move.loop act).counts = true) : f'.left < f.left := by
  cases moved with
  | ctxEnds | drainExpires => cases counts
  | call op here => cases op <;> simp [Frame.left, Frame.goto, Op.entry, here, Pc.left]
  | begin here => cases o.onStart <;> simp [Frame.left, Frame.goto, here, Pc.left]
  | shutdownReturned exit out here =>
      rcases exit with err | (_ | err) <;>
        simp [Frame.left, Frame.log, Exit.afterShutdown, here, Pc.left]
  | goServe here | setStopping _ here =>
      simp only [Frame.left, here, Pc.left, Serving.left, Watcher.left]
      omega
  | serveCalled here | serveReturns _ here | serveSends _ here =>
      simp [Frame.left, here, Serving.left]
  | watchForce here | watchDrain _ here => simp [Frame.left, here, Watcher.left]
  | _ => simp [Frame.left, Frame.goto, Frame.log, *, Pc.left]

theorem Moves.left_le (moved : Moves o call s f act s' f') : f'.left ≤ f.left := by
  cases counts : (Move.loop act).counts with
  | true => exact Nat.le_of_lt (moved.left_lt counts)
  | false =>
      cases moved with
      | ctxEnds | drainExpires => exact Nat.le_refl _
      | _ => cases counts

theorem Task.left_setStage_inside (t : Task) : (t.setStage .inside).left ≤ t.left + 2 :=
  Nat.le_trans (Nat.le_add_right _ _) (Nat.le_of_eq (Task.left_setStage .inside t))

theorem Crew.follow_left {pc : Pc} (followed : crew.follow pc act = some crew') :
    crew'.serve.left + crew'.shutdown.left ≤ crew.serve.left + crew.shutdown.left + 2 ∧
      ((Move.loop act).counts = false → crew' = crew) := by
  have serve := crew.serve.left_setStage_inside
  have shutdown := crew.shutdown.left_setStage_inside
  unfold Crew.follow at followed
  split at followed
  · cases followed
    exact ⟨by simp only; omega, by simp [Move.counts]⟩
  · obtain ⟨_, same⟩ := Option.ite_none_right_eq_some.mp followed
    cases same
    exact ⟨Nat.le_add_right _ _, by simp [Move.counts]⟩
  · cases followed
    exact ⟨by simp only; omega, by simp [Move.counts]⟩
  · obtain ⟨_, same⟩ := Option.ite_none_right_eq_some.mp followed
    cases same
    exact ⟨Nat.le_add_right _ _, by simp [Move.counts]⟩
  · cases followed
    exact ⟨Nat.le_add_right _ _, fun _ => rfl⟩

/-- Every counted step of a call leaves it fewer. -/
theorem Process.Steps.left_lt (steps : p.Steps o call move p') (counts : move.counts = true) :
    p'.left call < p.left call := by
  cases steps with
  | loop act s f crew moved followed =>
      have frame := moved.left_lt counts
      have crewed := (Crew.follow_left followed).1
      simp only [Process.left, Function.update_self]
      omega
  | member m path act t calling steps =>
      have task := steps.left_lt
      cases m <;>
        simp only [Process.left, Function.update_self, Crew.setTask, Crew.task] at task ⊢ <;>
        omega

theorem Process.Steps.left_le (steps : p.Steps o call move p') (other : Call) :
    p'.left other ≤ p.left other := by
  by_cases acting : other = call
  · subst acting
    cases counts : move.counts with
    | true => exact Nat.le_of_lt (steps.left_lt counts)
    | false =>
        cases steps with
        | loop act s f crew moved followed =>
            have frame := moved.left_le
            simp only [Process.left, Function.update_self, (Crew.follow_left followed).2 counts]
            omega
        | member => cases counts
  · cases steps <;> simp only [Process.left, Function.update_of_ne acting] <;> exact Nat.le_refl _

/-- A call takes a bounded number of steps in any run. -/
theorem Process.countP_le {final : Process Call} {actions : List (Call × Move)} (call : Call)
    (executed : (process Call o).exec p actions = some final) :
    actions.countP (fun action => action.1 = call ∧ action.2.counts = true) + final.left call ≤
      p.left call := by
  induction actions generalizing p with
  | nil =>
      cases executed
      exact Nat.le_of_eq (Nat.zero_add _)
  | cons action rest ih =>
      obtain ⟨next, stepped, remaining⟩ := Option.bind_eq_some_iff.mp executed
      obtain ⟨_, steps⟩ := Process.step_steps stepped
      have later := ih remaining
      rw [List.countP_cons]
      split
      · rename_i mine
        obtain ⟨rfl, counts⟩ := of_decide_eq_true mine
        have fewer := steps.left_lt counts
        omega
      · have fewer := steps.left_le call
        omega

end Bounds

end Netx.Lifecycle
