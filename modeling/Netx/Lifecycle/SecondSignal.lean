import Netx.Lifecycle.Signals

/-!
# The second signal

On the way out that `LoopContext` takes when it was running, a goroutine links the
abort to the drain, so the second signal cancels it. On the way out after a
failed `OnStart` there is no such goroutine.
-/

set_option autoImplicit false

namespace Netx.Lifecycle

open Errors

/-- What becomes of the force channel. -/
structure Server.Forces {Call : Type} (s s' : Server Call) : Prop where
  made : s.force ≠ .nil → s'.force ≠ .nil
  closed : s.force = .closed → s'.force = .closed
  honest : (s.forced = true → s.force = .closed) → s'.forced = true → s'.force = .closed

/-- The goroutine that links the abort to the drain: none before the server stops,
nor after a failed `OnStart`. It leaves once the drain has ended. -/
def Pc.Watched (watcher : Watcher) (drain : Drain) : Pc → Prop
  | .shutdown (.stopping _) | .inShutdown (.stopping _) =>
      watcher = .watching ∧ drain = .active ∨ ∃ err, drain = .ended err
  | .shutdown (.failed _) | .inShutdown (.failed _) => watcher = .absent
  | .idle | .loopContext | .onStart | .inOnStart | .setRunning => watcher = .absent
  | .goServe | .select | .setStopping _ => watcher = .absent
  | _ => True

def Frame.Watched (f : Frame) : Prop :=
  f.pc.Watched f.watcher f.drain

/-- `OnStart` has failed, and `Service.Shutdown` is about to drain or draining, with
a context that nothing has cancelled. -/
def Frame.Exposed (f : Frame) : Prop :=
  f.drain = .active ∧
    ∃ err, f.pc = .shutdown (.failed err) ∨ f.pc = .inShutdown (.failed err)

section Server

variable {Call : Type} {s s' : Server Call}

theorem Server.Forces.of_eq (force : s'.force = s.force)
    (forced : s'.forced = s.forced) : s.Forces s' := by
  refine ⟨fun made => force ▸ made, fun closed => force.trans closed, fun honest set => ?_⟩
  exact force.trans (honest (forced ▸ set))

theorem Chan.make_ne_nil (chan : Chan) : chan.make ≠ .nil := by
  cases chan <;> simp [Chan.make]

theorem Server.forceAbort_forces (s : Server Call) : s.Forces s.forceAbort := by
  unfold Server.forceAbort
  split
  · exact ⟨by simp, fun _ => rfl, fun _ _ => rfl⟩
  · exact .of_eq rfl rfl

theorem Server.begin_forces {call : Call} (begun : s.begin call = .ok s') :
    s.Forces s' ∧ s'.force ≠ .nil := by
  unfold Server.begin at begun
  split at begun
  · cases begun
  · cases begun
    refine ⟨⟨fun _ => s.force.make_ne_nil, fun closed => ?_, fun honest set => ?_⟩,
      s.force.make_ne_nil⟩
    · exact congrArg Chan.make closed
    · exact congrArg Chan.make (honest set)

/-- The force channel is there once `LoopContext` has begun, and closed once the
abort was forced. -/
structure World.Forceable (w : World Call) : Prop where
  made : ∀ call, (w.frame call).pc.Begun → w.server.force ≠ .nil
  honest : w.server.forced = true → w.server.force = .closed

theorem World.Forceable.start (made : Bool) : (World.start made : World Call).Forceable :=
  ⟨fun _ begun => absurd rfl begun, nofun⟩

end Server

section Moves

variable {Call : Type} [DecidableEq Call] {o : Options} {call : Call} {s s' : Server Call}
  {f f' : Frame} {act : Act}

theorem Server.callStop_force (s : Server Call) :
    s.callStop.force = s.force ∧ s.callStop.forced = s.forced := by
  unfold Server.callStop
  split <;> exact ⟨rfl, rfl⟩

theorem Server.Stop_force (s : Server Call) :
    s.Stop.2.force = s.force ∧ s.Stop.2.forced = s.forced := by
  unfold Server.Stop
  split
  · exact ⟨rfl, rfl⟩
  · exact s.callStop_force

theorem Server.finish_force (s : Server Call) (result : Option Err) :
    (s.finish result).force = s.force ∧ (s.finish result).forced = s.forced := by
  unfold Server.finish Server.closeDone
  split <;> exact s.callStop_force

theorem Moves.forces (moved : Moves o call s f act s' f') : s.Forces s' := by
  cases moved with
  | begin here begun => exact (Server.begin_forces begun).1
  | stop | shutdownRefused | shutdownStop => exact .of_eq s.Stop_force.1 s.Stop_force.2
  | finish result => exact .of_eq (s.finish_force result).1 (s.finish_force result).2
  | forceAbort => exact s.forceAbort_forces
  | _ => exact .of_eq rfl rfl

theorem Frame.Watched.at {pc : Pc} (watched : f.Watched) (here : f.pc = pc) :
    pc.Watched f.watcher f.drain :=
  here ▸ watched

/-- The watcher leaves a drain that has ended, and only then. -/
theorem Pc.Watched.cut {pc : Pc} {watcher watcher' : Watcher} {drain : Drain} (err : Err)
    (watched : pc.Watched watcher drain) (same : watcher = .absent → watcher' = .absent) :
    pc.Watched watcher' (drain.cut err) := by
  have ended : watcher = .watching ∧ drain = .active ∨ (∃ err, drain = .ended err) →
      ∃ other, drain.cut err = .ended other := by
    rintro (⟨_, rfl⟩ | ⟨other, rfl⟩)
    · exact ⟨err, rfl⟩
    · exact ⟨other, rfl⟩
  cases pc with
  | shutdown exit | inShutdown exit =>
      cases exit with
      | failed => exact same watched
      | stopping => exact .inr (ended watched)
  | idle | loopContext | onStart | inOnStart | setRunning | goServe | select | setStopping =>
      exact same watched
  | _ => trivial

theorem Moves.watched (moved : Moves o call s f act s' f') (watched : f.Watched) :
    f'.Watched := by
  cases moved with
  | call op here =>
      have before := watched.at here
      cases op <;> first | exact before | trivial
  | begin here =>
      have before := watched.at here
      unfold Frame.Watched
      cases o.onStart <;> exact before
  | onStart here | started _ here | startFailed _ _ here | setRunning here | goServe here
  | servedEarly _ here | stopRequested here =>
      have before := watched.at here
      exact before
  | setStopping => exact .inl ⟨rfl, rfl⟩
  | shutdown exit here =>
      have before := watched.at here
      cases exit <;> exact before
  | shutdownReturned exit => rcases exit with err | (_ | err) <;> trivial
  | ctxEnds | serveCalled | serveReturns | serveSends => exact watched
  | drainExpires => exact Pc.Watched.cut _ watched id
  | watchForce here =>
      exact Pc.Watched.cut _ watched fun absent => by cases here.symm.trans absent
  | watchDrain err here ended =>
      have kept : f.drain.cut err = f.drain := by
        rw [ended]
        rfl
      have cut : f.pc.Watched .gone (f.drain.cut err) :=
        Pc.Watched.cut err watched fun absent => by cases here.symm.trans absent
      rwa [kept] at cut
  | _ => trivial

theorem Drain.active_of_cut {drain : Drain} {err : Err} (active : drain.cut err = .active) :
    drain = .active := by
  cases drain <;> simp_all [Drain.cut]

/-- Only a failed `OnStart` exposes a `LoopContext`. -/
theorem Moves.exposed (moved : Moves o call s f act s' f') (exposed : f'.Exposed) :
    f.Exposed ∨
      f.pc = .inOnStart ∧ ∃ out, act = .returns out ∧ protect "start" out ≠ none := by
  obtain ⟨active, err, here⟩ := exposed
  cases moved with
  | startFailed out err before failed => exact .inr ⟨before, out, rfl, by simp [failed]⟩
  | shutdown exit before =>
      cases exit with
      | failed err => exact .inl ⟨active, err, .inl before⟩
      | stopping => rcases here with here | here <;> cases here
  | ctxEnds | serveCalled | serveReturns | serveSends | watchDrain =>
      exact .inl ⟨active, err, here⟩
  | drainExpires | watchForce => exact .inl ⟨Drain.active_of_cut active, err, here⟩
  | call op => cases op <;> rcases here with here | here <;> cases here
  | begin => cases set : o.onStart <;> simp [Frame.goto, set] at here
  | shutdownReturned exit =>
      rcases exit with _ | (_ | _) <;> rcases here with here | here <;> cases here
  | _ => rcases here with here | here <;> cases here

theorem Moves.ctx_eq (moved : Moves o call s f act s' f') (takes : loopTakes act = true) :
    f'.ctx = f.ctx := by
  cases moved with
  | ctxEnds => cases takes
  | _ => rfl

theorem Moves.returned (moved : Moves o call s f act s' f') {reply : Reply}
    (here : f.pc = .returned reply) : f'.pc = .returned reply := by
  cases moved with
  | ctxEnds | drainExpires | serveCalled | serveReturns | serveSends | watchForce
  | watchDrain => exact here
  | _ => simp_all

theorem World.Forceable.moves {w : World Call} (forceable : w.Forceable)
    (moved : Moves o call w.server (w.frame call) act s' f') :
    World.Forceable { server := s', frame := Function.update w.frame call f' } := by
  refine ⟨fun other begun => ?_, moved.forces.honest forceable.honest⟩
  simp only [Function.update_apply] at begun
  split_ifs at begun with acting
  · subst acting
    by_cases before : (w.frame other).pc.Begun
    · exact moved.forces.made (forceable.made other before)
    · rcases moved.outside (not_not.mp before) with ⟨outside, _⟩ | ⟨begins, _⟩
      · exact absurd outside begun
      · exact (Server.begin_forces begins).2
  · exact moved.forces.made (forceable.made other begun)

end Moves

section Loops

variable {Other : Type}

/-- What the goroutine's position tells about `LoopContext`, about its own call of
`forceAbort` and about the server. -/
def Signals.Stands (loop signals : Frame) (s : Server (Caller Other)) : Signals → Prop
  | .first | .canceling => signals.pc = .idle ∧ loop.ctx = none
  | .second => signals.pc = .idle
  | .forcing => signals.pc = .forceAbort ∧ s.force ≠ .nil
  | .forced => s.force = .closed
  | .left => ∃ reply, loop.pc = .returned reply

structure Loop.Sound (p : Loop Other) : Prop where
  forceable : p.world.Forceable
  watched : p.frame.Watched
  stands : p.signals.Stands p.frame (p.world.frame .signals) p.world.server

theorem Loop.Sound.start (made : Bool) : (Loop.start made : Loop Other).Sound :=
  ⟨.start made, rfl, rfl, rfl⟩

theorem Server.forceAbort_closed {Call : Type} {s : Server Call} (made : s.force ≠ .nil)
    (honest : s.forced = true → s.force = .closed) : s.forceAbort.force = .closed := by
  unfold Server.forceAbort
  split
  · rfl
  · rename_i kept
    refine honest ?_
    by_contra unforced
    exact kept ⟨made, by simpa using unforced⟩

variable [DecidableEq Other] {o : Options} {p p' : Loop Other} {action : LoopAct Other}

/-- A step of a call other than the goroutine's. -/
theorem Loop.Sound.call {call : Caller Other} {act : Act} {world : World (Caller Other)}
    (sound : p.Sound) (stepped : p.world.step o (call, act) = some world)
    (apart : call ≠ .signals) (takes : call = .loop → loopTakes act = true) :
    Loop.Sound { p with world } := by
  obtain ⟨s, f, moved, rfl⟩ := World.step_moves stepped
  have signals : Function.update p.world.frame call f .signals = p.world.frame .signals :=
    Function.update_of_ne (Ne.symm apart) _ _
  have forces := moved.forces
  refine ⟨sound.forceable.moves moved, ?_, ?_⟩
  · by_cases acting : call = .loop
    · subst acting
      simpa only [Loop.frame, Function.update_self] using moved.watched sound.watched
    · simpa only [Loop.frame, Function.update_of_ne (Ne.symm acting)] using sound.watched
  · have stands := sound.stands
    have ctx : Frame.ctx (Function.update p.world.frame call f .loop) = p.frame.ctx := by
      by_cases acting : call = .loop
      · subst acting
        rw [Function.update_self]
        exact moved.ctx_eq (takes rfl)
      · rw [Function.update_of_ne (Ne.symm acting)]
        rfl
    cases here : p.signals with
    | first | canceling =>
        rw [here] at stands
        exact ⟨(congrArg Frame.pc signals).trans stands.1, ctx.trans stands.2⟩
    | second =>
        rw [here] at stands
        exact (congrArg Frame.pc signals).trans stands
    | forcing =>
        rw [here] at stands
        exact ⟨(congrArg Frame.pc signals).trans stands.1, forces.made stands.2⟩
    | forced =>
        rw [here] at stands
        exact forces.closed stands
    | left =>
        rw [here] at stands
        obtain ⟨reply, returned⟩ := stands
        refine ⟨reply, ?_⟩
        by_cases acting : call = .loop
        · subst acting
          simp only [Loop.frame, Function.update_self]
          exact moved.returned returned
        · simpa only [Loop.frame, Function.update_of_ne (Ne.symm acting)] using returned

/-- A step of the goroutine's own call leaves `LoopContext` where it is. -/
theorem Loop.Sound.goroutine {act : Act} {s : Server (Caller Other)} {f : Frame}
    {signals : Signals} (sound : p.Sound)
    (moved : Moves o .signals p.world.server (p.world.frame .signals) act s f)
    (stands : signals.Stands p.frame f s) :
    Loop.Sound {
      world := { server := s, frame := Function.update p.world.frame .signals f }
      signals } := by
  have loop : Function.update p.world.frame .signals f .loop = p.frame :=
    Function.update_of_ne (by simp) _ _
  refine ⟨sound.forceable.moves moved, ?_, ?_⟩
  · simpa only [Loop.frame, loop] using sound.watched
  · simpa only [Loop.frame, loop, Function.update_self] using stands

theorem Loop.Sound.step (sound : p.Sound) (after : AfterBegin p action)
    (stepped : p.step o action = some p') : p'.Sound := by
  cases action with
  | call call act =>
      cases call with
      | signals => cases stepped
      | loop =>
          obtain ⟨takes, taken⟩ := Option.ite_none_right_eq_some.mp stepped
          obtain ⟨world, moved, rfl⟩ := Option.map_eq_some_iff.mp taken
          exact sound.call moved (by simp) fun _ => takes
      | other call =>
          obtain ⟨world, moved, rfl⟩ := Option.map_eq_some_iff.mp stepped
          exact sound.call moved (by simp) (by simp)
  | receive =>
      have stands := sound.stands
      cases here : p.signals with
      | first =>
          simp only [Loop.step, here] at stepped
          cases stepped
          rw [here] at stands
          exact ⟨sound.forceable, sound.watched, stands⟩
      | second =>
          simp only [Loop.step, here] at stepped
          obtain ⟨world, moved, rfl⟩ := Option.map_eq_some_iff.mp stepped
          obtain ⟨s, f, moves, rfl⟩ := World.step_moves moved
          have made := sound.forceable.made .loop after
          refine sound.goroutine moves ?_
          cases moves
          exact ⟨rfl, made⟩
      | _ => simp [Loop.step, here] at stepped
  | cancel =>
      have stands := sound.stands
      cases here : p.signals with
      | canceling =>
          simp only [Loop.step, here] at stepped
          obtain ⟨world, moved, rfl⟩ := Option.map_eq_some_iff.mp stepped
          obtain ⟨s, f, moves, rfl⟩ := World.step_moves moved
          rw [here] at stands
          have signals : Function.update p.world.frame .loop f .signals =
              p.world.frame .signals := Function.update_of_ne (by simp) _ _
          refine ⟨sound.forceable.moves moves, ?_, ?_⟩
          · simpa only [Loop.frame, Function.update_self] using moves.watched sound.watched
          · exact (congrArg Frame.pc signals).trans stands.1
      | _ => simp [Loop.step, here] at stepped
  | force =>
      have stands := sound.stands
      cases here : p.signals with
      | forcing =>
          rw [here] at stands
          obtain ⟨forcing, made⟩ := stands
          simp only [Loop.step, here] at stepped
          obtain ⟨world, moved, rfl⟩ := Option.map_eq_some_iff.mp stepped
          rw [World.step_of_effect (s := p.world.server.forceAbort)
            (f := (p.world.frame .signals).goto (.returned .forced))
            (by simp only [effect, next, forcing])] at moved
          cases moved
          exact sound.goroutine (o := o) (.forceAbort forcing)
            (Server.forceAbort_closed made sound.forceable.honest)
      | _ => simp [Loop.step, here] at stepped
  | leave =>
      simp only [Loop.step] at stepped
      split at stepped
      · rename_i reply _ returned
        cases stepped
        exact ⟨sound.forceable, sound.watched, reply, returned⟩
      · rename_i reply _ returned
        cases stepped
        exact ⟨sound.forceable, sound.watched, reply, returned⟩
      · cases stepped

private theorem afterBegin_sound (reached : (looping Other o).ReachableWithin AfterBegin p) :
    p.Sound := by
  refine reached.invariant Loop.Sound ?_ fun _ _ _ _ sound after stepped => sound.step after stepped
  rintro _ ⟨made, rfl⟩
  exact .start made

/-- A step of the loop is a step of the server, or of the goroutine alone. -/
theorem Loop.step_world (stepped : p.step o action = some p') :
    p'.world = p.world ∨ ∃ call act, p.world.step o (call, act) = some p'.world ∧
      (call = .loop → action = .call .loop act ∨ act = .ctxEnds Canceled) := by
  cases action with
  | call call act =>
      cases call with
      | signals => cases stepped
      | loop =>
          obtain ⟨_, taken⟩ := Option.ite_none_right_eq_some.mp stepped
          obtain ⟨world, moved, rfl⟩ := Option.map_eq_some_iff.mp taken
          exact .inr ⟨_, _, moved, fun _ => .inl rfl⟩
      | other call =>
          obtain ⟨world, moved, rfl⟩ := Option.map_eq_some_iff.mp stepped
          exact .inr ⟨_, _, moved, by simp⟩
  | receive =>
      simp only [Loop.step] at stepped
      split at stepped
      · cases stepped
        exact .inl rfl
      · obtain ⟨world, moved, rfl⟩ := Option.map_eq_some_iff.mp stepped
        exact .inr ⟨_, _, moved, by simp⟩
      · cases stepped
  | cancel =>
      simp only [Loop.step] at stepped
      split at stepped
      · obtain ⟨world, moved, rfl⟩ := Option.map_eq_some_iff.mp stepped
        exact .inr ⟨_, _, moved, fun _ => .inr rfl⟩
      · cases stepped
  | force =>
      simp only [Loop.step] at stepped
      split at stepped
      · obtain ⟨world, moved, rfl⟩ := Option.map_eq_some_iff.mp stepped
        exact .inr ⟨_, _, moved, by simp⟩
      · cases stepped
  | leave =>
      simp only [Loop.step] at stepped
      split at stepped
      · cases stepped
        exact .inl rfl
      · cases stepped
        exact .inl rfl
      · cases stepped

private theorem reachable_loop_world (reached : (looping Other o).Reachable p) :
    (system (Caller Other) o).Reachable p.world := by
  refine reached.invariant (fun p => (system (Caller Other) o).Reachable p.world) ?_ ?_
  · rintro _ ⟨made, rfl⟩
    exact .initial ⟨made, rfl⟩
  · intro p action next _ held stepped
    rcases Loop.step_world stepped with same | ⟨call, act, moved, _⟩
    · exact same ▸ held
    · exact held.step moved

/-- A second signal is ignored only after a failed `OnStart`. -/
theorem Loop.Sound.exposed (sound : p.Sound) (ignored : p.Ignored o) : p.frame.Exposed := by
  obtain ⟨exit, here⟩ := ignored.inside
  refine ⟨ignored.active, ?_⟩
  cases exit with
  | failed err => exact ⟨err, .inr here⟩
  | stopping served =>
      have stands := sound.stands
      have closed : p.world.server.force = .closed := by
        cases received : p.signals with
        | forced =>
            rw [received] at stands
            exact stands
        | forcing =>
            rw [received] at stands
            have quiet := ignored.quiet .force rfl
            simp [Loop.step, received, World.step, effect, next, stands.1] at quiet
        | _ =>
            have two := ignored.received
            rw [received] at two
            cases two
      rcases sound.watched.at here with ⟨watching, _⟩ | ⟨err, ended⟩
      · have quiet := ignored.quiet (.call .loop .watchForce) rfl
        have watching : (p.world.frame .loop).watcher = .watching := watching
        simp [Loop.step, loopTakes, World.step, effect, watching, closed] at quiet
      · cases ignored.active.symm.trans ended

theorem Loop.step_exposed (stepped : p.step o action = some p') (starts : ¬FailsStart p action)
    (exposed : p'.frame.Exposed) : p.frame.Exposed := by
  rcases Loop.step_world stepped with same | ⟨call, act, moved, whose⟩
  · rwa [Loop.frame, same] at exposed
  · obtain ⟨s, f, moves, world⟩ := World.step_moves moved
    rw [Loop.frame, world] at exposed
    by_cases acting : call = .loop
    · subst acting
      simp only [Function.update_self] at exposed
      rcases moves.exposed exposed with before | ⟨here, out, rfl, failed⟩
      · exact before
      · rcases whose rfl with rfl | other
        · exact absurd ⟨here, failed⟩ starts
        · cases other
    · simp only [Function.update_of_ne (Ne.symm acting)] at exposed
      exact exposed

/-- How far the goroutine has come. -/
def Signals.progress : Signals → Nat
  | .first => 0
  | .canceling => 1
  | .second => 2
  | .forcing => 3
  | .forced | .left => 4

section Goroutine

variable {world : World (Caller Other)}

theorem Loop.step_loop {act : Act} (takes : loopTakes act = true)
    (moved : p.world.step o (.loop, act) = some world) :
    p.step o (.call .loop act) = some { p with world } := by
  simp only [Loop.step, takes, moved, Option.map_some, if_true]

theorem Loop.step_receive (here : p.signals = .second)
    (moved : p.world.step o (.signals, .call .forceAbort) = some world) :
    p.step o .receive = some { world, signals := .forcing } := by
  simp only [Loop.step, here, moved, Option.map_some]

theorem Loop.step_cancel (here : p.signals = .canceling)
    (moved : p.world.step o (.loop, .ctxEnds Canceled) = some world) :
    p.step o .cancel = some { world, signals := .second } := by
  simp only [Loop.step, here, moved, Option.map_some]

theorem Loop.step_force (here : p.signals = .forcing)
    (moved : p.world.step o (.signals, .next) = some world) :
    p.step o .force = some { world, signals := .forced } := by
  simp only [Loop.step, here, moved, Option.map_some]

end Goroutine

/-- Signals may arrive, and the goroutine act on them, while `Service.Shutdown`
drains. -/
theorem Loop.Sound.advances (sound : p.Sound) (begun : p.frame.pc.Begun)
    (behind : p.signals.progress < 4) :
    ∃ action p', p.step o action = some p' ∧ AfterBegin p action ∧ ¬FailsStart p action ∧
      p'.signals.progress = p.signals.progress + 1 ∧
      p'.frame.pc = p.frame.pc ∧ p'.frame.drain = p.frame.drain := by
  have stands := sound.stands
  cases here : p.signals with
  | first =>
      refine ⟨.receive, { p with signals := .canceling }, ?_, begun, id, ?_⟩
      · simp only [Loop.step, here]
      · exact ⟨rfl, rfl, rfl⟩
  | canceling =>
      rw [here] at stands
      have found : effect o .loop p.world.server (p.world.frame .loop) (.ctxEnds Canceled) =
          some (p.world.server, { p.world.frame .loop with ctx := some Canceled }) := by
        have ctx : (p.world.frame .loop).ctx = none := stands.2
        simp only [effect, ctx]
      have stepped := Loop.step_cancel here (World.step_of_effect found)
      refine ⟨.cancel, _, stepped, trivial,
        id, rfl, ?_, ?_⟩ <;> simp only [Loop.frame, Function.update_self]
  | second =>
      rw [here] at stands
      have found : effect o .signals p.world.server (p.world.frame .signals)
          (.call .forceAbort) =
          some (p.world.server, (p.world.frame .signals).goto .forceAbort) := by
        have idle : (p.world.frame .signals).pc = .idle := stands
        simp only [effect, idle]
        rfl
      have stepped := Loop.step_receive here (World.step_of_effect found)
      refine ⟨.receive, _, stepped, begun,
        id, rfl, ?_, ?_⟩ <;> simp [Loop.frame]
  | forcing =>
      rw [here] at stands
      have found : effect o .signals p.world.server (p.world.frame .signals) .next =
          some (p.world.server.forceAbort,
            (p.world.frame .signals).goto (.returned .forced)) := by
        simp only [effect, next, stands.1]
      have stepped := Loop.step_force here (World.step_of_effect found)
      refine ⟨.force, _, stepped, trivial,
        id, rfl, ?_, ?_⟩ <;> simp [Loop.frame]
  | forced | left =>
      rw [here] at behind
      exact absurd behind (Nat.lt_irrefl 4)

/-- After a failed `OnStart` no goroutine of the server is left to do anything. -/
theorem Loop.Sound.ignored {err : Err} (sound : p.Sound)
    (follows : ∃ c, p.frame.Follows o c) (here : p.frame.pc = .inShutdown (.failed err))
    (active : p.frame.drain = .active) (forced : p.signals = .forced) : p.Ignored o where
  received := by
    rw [forced]
    rfl
  inside := ⟨_, here⟩
  active := active
  quiet := by
    have unwatched : (p.world.frame .loop).watcher = .absent := sound.watched.at here
    have absent : (p.world.frame .loop).serve = .absent := by
      obtain ⟨c, follows⟩ := follows
      by_contra present
      have clean := (follows.launched present).2
      cases clean.symm.trans (follows.at here).1
    have inside : (p.world.frame .loop).pc = .inShutdown (.failed err) := here
    intro action internal
    cases action with
    | call call act =>
        cases call with
        | loop =>
            cases act with
            | next | takeServed | stopRequested | graceOver | serveCalled | serveSends
            | watchForce | watchDrain =>
                simp [Loop.step, loopTakes, World.step, effect, next, inside, absent, unwatched]
            | _ => cases internal
        | _ => cases internal
    | cancel | force | leave => simp [Loop.step, forced]
    | receive => cases internal

/-- Steps that the rest of a run may take: `OnStart` does not fail in it. -/
def Starts (p : Loop Other) (action : LoopAct Other) : Prop :=
  AfterBegin p action ∧ ¬FailsStart p action

/-- Whatever follows, a second signal is not ignored. -/
def Loop.Heeded (o : Options) (p : Loop Other) : Prop :=
  ∀ final, ((looping Other o).startedAt p).ReachableWithin Starts final → ¬final.Ignored o

section Continuations

variable {q : Loop Other}

private theorem reached_trans (reached : (looping Other o).ReachableWithin AfterBegin p)
    (later : ((looping Other o).startedAt p).ReachableWithin Starts q) :
    (looping Other o).ReachableWithin AfterBegin q :=
  reached.trans (fun _ _ starts => starts.1) later

/-- Both signals can arrive while the service drains after a failed `OnStart`. -/
theorem exists_ignored {err : Err} (reached : (looping Other o).ReachableWithin AfterBegin p)
    (later : ((looping Other o).startedAt p).ReachableWithin Starts q)
    (here : q.frame.pc = .inShutdown (.failed err)) (active : q.frame.drain = .active) :
    ∃ final, ((looping Other o).startedAt p).ReachableWithin Starts final ∧
      final.Ignored o := by
  have whole := reached_trans reached later
  have sound := afterBegin_sound whole
  induction left : 4 - q.signals.progress generalizing q with
  | zero =>
      have forced : q.signals = .forced := by
        have stands := sound.stands
        cases position : q.signals with
        | forced => rfl
        | left =>
            rw [position] at stands
            obtain ⟨reply, returned⟩ := stands
            cases here.symm.trans returned
        | _ => simp [position, Signals.progress] at left
      have follows := (reachable_sound (reachable_loop_world whole.reachable)).follows .loop
      exact ⟨q, later, sound.ignored follows here active forced⟩
  | succ n ih =>
      have begun : q.frame.pc.Begun := by
        rw [here]
        exact List.cons_ne_nil _ _
      obtain ⟨action, next, stepped, after, starts, further, pc, drain⟩ :=
        sound.advances (o := o) begun (by omega)
      have reachedNext : ((looping Other o).startedAt p).ReachableWithin Starts next :=
        .step later ⟨after, starts⟩ stepped
      have wholeNext := reached_trans reached reachedNext
      exact ih reachedNext (pc.trans here) (drain.trans active) wholeNext
        (afterBegin_sound wholeNext) (by omega)

end Continuations

/-- The second signal is heeded from a state on exactly if `OnStart` has not failed
there, or nothing is left of that drain. -/
theorem second_signal_heeded_iff (o : Options) {p : Loop Other}
    (reached : (looping Other o).ReachableWithin AfterBegin p) :
    p.Heeded o ↔ ¬p.frame.Exposed := by
  constructor
  · rintro heeded ⟨active, err, here⟩
    have ignored : ∃ final, ((looping Other o).startedAt p).ReachableWithin Starts final ∧
        final.Ignored o := by
      rcases here with here | here
      · have found : effect o .loop p.world.server (p.world.frame .loop) .next =
            some (p.world.server, p.frame.log (.inShutdown (.failed err)) .shutdown) := by
          have here : (p.world.frame .loop).pc = .shutdown (.failed err) := here
          simp only [effect, next, here]
          rfl
        have stepped := Loop.step_loop (p := p) rfl (World.step_of_effect found)
        have starts : Starts p (.call .loop .next) := ⟨trivial, id⟩
        have frame : Function.update p.world.frame .loop
            (p.frame.log (.inShutdown (.failed err)) .shutdown) .loop =
              p.frame.log (.inShutdown (.failed err)) .shutdown := Function.update_self _ _ _
        exact exists_ignored reached (.step (.initial rfl) starts stepped)
          (congrArg Frame.pc frame) ((congrArg Frame.drain frame).trans active)
      · exact exists_ignored reached (.initial rfl) here active
    obtain ⟨final, later, ignored⟩ := ignored
    exact heeded final later ignored
  · intro covered final later ignored
    have uncovered : final.frame.Exposed :=
      (afterBegin_sound (reached_trans reached later)).exposed ignored
    refine later.invariant (fun q => ¬q.frame.Exposed) ?_ ?_ uncovered
    · rintro _ rfl
      exact covered
    · intro q action next _ covered starts stepped exposed
      exact covered (Loop.step_exposed stepped starts.2 exposed)

end Loops

/-- `OnStart` is set and the drain is not bounded. -/
def unbounded : Options := ⟨true, true, false, false, 0⟩

/-- `LoopContext` up to the end of `OnStart`. -/
def startingRun (out : Outcome) : List (LoopAct Nat) :=
  [.call .loop (.call .loopContext), .call .loop .next, .call .loop .next,
    .call .loop (.returns out)]

private theorem startingRun_reached {out : Outcome} {p : Loop Nat}
    (executed : (looping Nat unbounded).exec (.start true) (startingRun out) = some p) :
    (looping Nat unbounded).ReachableWithin AfterBegin p := by
  refine .exec (.initial ⟨true, rfl⟩) ?_ executed
  rintro q action ⟨front, back, split, _⟩
  have member : action ∈ startingRun out := split ▸ List.mem_append_right _ List.mem_cons_self
  simp only [startingRun, List.mem_cons, List.not_mem_nil, or_false] at member
  rcases member with rfl | rfl | rfl | rfl <;> trivial

theorem second_signal_heeded_iff_started :
    ∃ p, (looping Nat unbounded).exec (.start true) (startingRun (.returns none)) = some p ∧
      p.frame.pc = .setRunning ∧ p.Heeded unbounded := by
  have executed : (looping Nat unbounded).exec (.start true) (startingRun (.returns none)) =
      some _ := rfl
  refine ⟨_, executed, rfl, (second_signal_heeded_iff unbounded
    (startingRun_reached executed)).mpr ?_⟩
  rintro ⟨active, _⟩
  cases active

def portInUse : Err := .new 12 "address already in use"

/-- `OnStart` fails, `Service.Shutdown` is called, and two signals come in. -/
def ignoredRun : List (LoopAct Nat) :=
  startingRun (.returns (some portInUse)) ++
    [.call .loop .next, .receive, .cancel, .receive, .force]

theorem second_signal_ignored :
    ∃ p, (looping Nat unbounded).exec (.start true) ignoredRun = some p ∧
      (looping Nat unbounded).ReachableWithin AfterBegin p ∧ p.Ignored unbounded := by
  have executed : (looping Nat unbounded).exec (.start true)
      (startingRun (.returns (some portInUse))) = some _ := rfl
  have draining : (looping Nat unbounded).ReachableWithin AfterBegin _ :=
    .step (startingRun_reached executed) (show AfterBegin _ (.call .loop .next) from trivial) rfl
  have first : (looping Nat unbounded).ReachableWithin AfterBegin _ :=
    .step draining (show AfterBegin _ .receive from List.cons_ne_nil _ _) rfl
  have cancelled : (looping Nat unbounded).ReachableWithin AfterBegin _ :=
    .step first (show AfterBegin _ .cancel from trivial) rfl
  have second : (looping Nat unbounded).ReachableWithin AfterBegin _ :=
    .step cancelled (show AfterBegin _ .receive from List.cons_ne_nil _ _) rfl
  have forced : (looping Nat unbounded).ReachableWithin AfterBegin _ :=
    .step second (show AfterBegin _ .force from trivial) rfl
  refine ⟨_, rfl, forced, rfl, ⟨_, rfl⟩, fun action internal => ?_, rfl⟩
  cases action with
  | call call act =>
      cases call with
      | loop => cases act <;> first | rfl | cases internal
      | _ => cases internal
  | receive => cases internal
  | cancel | force | leave => rfl

end Netx.Lifecycle
