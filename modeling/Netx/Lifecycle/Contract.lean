import Netx.Lifecycle.CourseProperties
import Netx.Lifecycle.Ownership

/-!
# The lifecycle contract

What holds of the server and of every call on it in every reachable world.
-/

set_option autoImplicit false

namespace Netx.Lifecycle

open Errors

/-- What a call's reply, or a `Shutdown` about to read the result, tells about the
server. -/
def Pc.Answered {Call : Type} (o : Options) (s : Server Call) (ctx : Option Err) : Pc → Prop
  | .shutdownLock => s.state = .stopped
  | .returned (.refused err) =>
      o.service = false ∧ err = .errorf "netx: Service is required" ∨
        s.state ≠ .new ∧ err = ErrAlreadyRunning
  | .returned (.stopped err) => err = none ∨ err = some ErrNotRunning
  | .returned (.shutdownRefused err) => err = ErrNotRunning
  | .returned (.shutdownCut err) => ctx = some err
  | .returned (.shutdownResult result) => s.state = .stopped ∧ s.result = result
  | _ => True

section Worlds

variable {Call : Type}

def World.Owned (w : World Call) : Prop :=
  (Fresh w.server ∧ ∀ call, (w.frame call).pc.states = []) ∨
    ∃ owner, Owns owner w.server (w.frame owner).pc ∧
      ∀ call, call ≠ owner → (w.frame call).pc.states = []

variable {pc : Pc} {f : Frame} {call : Call} {s : Server Call} {w : World Call}

theorem World.Owned.closed (owned : w.Owned) (closed : w.server.done = .closed) :
    w.server.state = .stopped := by
  rcases owned with ⟨fresh, _⟩ | ⟨owner, owns, _⟩
  · exact absurd closed fresh.done
  · by_contra live
    have made := owns.done
    rw [if_neg live, closed] at made
    cases made

structure World.Sound (o : Options) (w : World Call) : Prop where
  follows : ∀ call, ∃ c, (w.frame call).Follows o c
  owned : w.Owned
  answered : ∀ call, (w.frame call).pc.Answered o w.server (w.frame call).ctx

theorem World.start_sound (o : Options) (made : Bool) :
    (World.start made : World Call).Sound o where
  follows _ := ⟨⟨.returns none, false, none, .returns none, .returns none, .returns none⟩,
    rfl, fun present => absurd rfl present, rfl, nofun⟩
  owned := .inl ⟨⟨rfl, by cases made <;> exact nofun, rfl⟩, fun _ => rfl⟩
  answered _ := trivial

theorem World.Owned.whole (owned : w.Owned) : w.server.crashed = false := by
  rcases owned with ⟨fresh, _⟩ | ⟨_, owns, _⟩
  · exact fresh.whole
  · exact owns.whole

theorem World.Owned.stopped (owned : w.Owned) (stopped : w.server.state = .stopped) :
    ∃ owner, (w.frame owner).pc = .returned (.looped w.server.result) := by
  rcases owned with ⟨fresh, _⟩ | ⟨owner, owns, _⟩
  · cases fresh.state.symm.trans stopped
  · have allowed := owns.state
    rw [stopped] at allowed
    have finished : ∃ result, (w.frame owner).pc = .returned (.looped result) := by
      cases here : (w.frame owner).pc with
      | shutdown exit | inShutdown exit => cases exit <;> simp [here, Pc.states] at allowed
      | returned reply =>
          cases reply with
          | looped result => exact ⟨result, rfl⟩
          | _ => simp [here, Pc.states] at allowed
      | _ => simp [here, Pc.states] at allowed
    obtain ⟨result, here⟩ := finished
    exact ⟨owner, by rw [here, owns.result result here]⟩

theorem Pc.Answered.forward {o : Options} {s' : Server Call} {ctx : Option Err}
    (answered : pc.Answered o s ctx) (forward : s.Forward s') : pc.Answered o s' ctx := by
  unfold Pc.Answered at answered ⊢
  split at answered
  · exact forward.stopped answered
  · exact answered.imp_right fun ⟨started, same⟩ => ⟨forward.started started, same⟩
  · exact answered
  · exact answered
  · exact answered
  · exact ⟨forward.stopped answered.1, (forward.result answered.1).trans answered.2⟩
  · trivial

theorem Pc.Answered.ctxEnds {o : Options} (err : Err) (answered : pc.Answered o s none) :
    pc.Answered o s (some err) := by
  unfold Pc.Answered at answered ⊢
  split at answered <;> first | exact answered | cases answered

variable [DecidableEq Call] {o : Options}

theorem Server.Stop_error (s : Server Call) :
    s.Stop.1 = none ∨ s.Stop.1 = some ErrNotRunning := by
  unfold Server.Stop
  split
  · exact .inr rfl
  · exact .inl rfl

theorem Moves.answered {s' : Server Call} {f' : Frame} {act : Act}
    (moved : Moves o call s f act s' f') (forward : s.Forward s')
    (closed : s.done = .closed → s.state = .stopped) (answered : f.pc.Answered o s f.ctx) :
    f'.pc.Answered o s' f'.ctx := by
  cases moved with
  | call op here => cases op <;> trivial
  | unset here unset => exact .inl ⟨unset, rfl⟩
  | refused here running => exact .inr ⟨running, rfl⟩
  | begin => cases o.onStart <;> trivial
  | shutdownReturned exit => rcases exit with err | (_ | err) <;> trivial
  | stop => exact s.Stop_error
  | shutdownRefused err here refused =>
      rcases s.Stop_error with accepted | same
      · cases accepted.symm.trans refused
      · exact Option.some.inj (refused.symm.trans same)
  | done here finished => exact closed finished
  | ctxDone err here ended => exact ended
  | shutdownLock here =>
      rw [here] at answered
      exact ⟨answered, rfl⟩
  | ctxEnds err alive =>
      rw [alive] at answered
      exact answered.ctxEnds err
  | drainExpires | serveCalled | serveReturns | serveSends | watchForce | watchDrain =>
      exact answered
  | _ => trivial

theorem World.Owned.step {act : Act} (owned : w.Owned)
    (moved : Moves o call w.server (w.frame call) act s f) :
    World.Owned { server := s, frame := Function.update w.frame call f } ∧
      w.server.Forward s := by
  rcases owned with ⟨fresh, outside⟩ | ⟨owner, owns, outside⟩
  · obtain ⟨⟨freshNext, outsideNext⟩ | owns, forward⟩ := moved.fresh_keeps (outside call) fresh
    · refine ⟨.inl ⟨freshNext, ?_⟩, forward⟩
      rw [Function.forall_update_iff w.frame fun _ f => f.pc.states = []]
      exact ⟨outsideNext, fun other _ => outside other⟩
    · refine ⟨.inr ⟨call, ?_, fun other apart => ?_⟩, forward⟩
      · simpa only [Function.update_self] using owns
      · simpa only [Function.update_of_ne apart] using outside other
  · by_cases same : call = owner
    · subst same
      obtain ⟨ownsNext, forward⟩ := moved.owner_keeps owns
      refine ⟨.inr ⟨call, ?_, fun other apart => ?_⟩, forward⟩
      · simpa only [Function.update_self] using ownsNext
      · simpa only [Function.update_of_ne apart] using outside other apart
    · obtain ⟨ownsNext, forward, outsideNext⟩ := moved.other_keeps (outside call same) owns
      refine ⟨.inr ⟨owner, ?_, ?_⟩, forward⟩
      · simpa only [Function.update_of_ne (Ne.symm same)] using ownsNext
      · rw [Function.forall_update_iff w.frame fun other f => other ≠ owner → f.pc.states = []]
        exact ⟨fun _ => outsideNext, fun other _ => outside other⟩

theorem World.Sound.step {next : World Call} {action : Call × Act} (sound : w.Sound o)
    (stepped : w.step o action = some next) : next.Sound o ∧ w.server.Forward next.server := by
  obtain ⟨call, act⟩ := action
  obtain ⟨s, f, moved, rfl⟩ := World.step_moves stepped
  obtain ⟨owned, forward⟩ := sound.owned.step moved
  obtain ⟨c, follows⟩ := sound.follows call
  refine ⟨⟨?_, owned, ?_⟩, forward⟩
  · rw [Function.forall_update_iff w.frame fun _ f => ∃ c, Frame.Follows o f c]
    exact ⟨moved.follows follows, fun other _ => sound.follows other⟩
  · rw [Function.forall_update_iff w.frame fun _ f => f.pc.Answered o s f.ctx]
    exact ⟨moved.answered forward sound.owned.closed (sound.answered call),
      fun other _ => (sound.answered other).forward forward⟩

theorem reachable_sound (reached : (system Call o).Reachable w) : w.Sound o := by
  refine reached.invariant (World.Sound o) ?_ ?_
  · rintro _ ⟨made, rfl⟩
    exact World.start_sound o made
  · intro before action next _ sound stepped
    exact (sound.step stepped).1

theorem World.Sound.exec {final : World Call} {actions : List (Call × Act)} (sound : w.Sound o)
    (executed : (system Call o).exec w actions = some final) : w.server.Forward final.server := by
  refine (Transition.System.exec_keeps (fun v => v.Sound o ∧ w.server.Forward v.server) ?_
    ⟨sound, .refl _⟩ executed).2
  intro state action next held stepped
  obtain ⟨soundNext, forward⟩ := held.1.step stepped
  exact ⟨soundNext, held.2.trans forward⟩

/-- The call is a `LoopContext` that passed `begin`. -/
def Pc.Begun (pc : Pc) : Prop :=
  pc.states ≠ []

def Pc.InHook : Pc → Prop
  | .inOnStart | .inShutdown _ | .inOnStop _ | .inOnError _ => True
  | _ => False

/-- What `LoopContext` promises: one call passes `begin`, it calls its hooks as it
should, and no panic of a hook gets past it. -/
structure LoopContract (o : Options) (w : World Call) : Prop where
  single : ∀ a b, (w.frame a).pc.Begun → (w.frame b).pc.Begun → a = b
  refused : ∀ call err, (w.frame call).pc = .returned (.refused err) →
    o.service = false ∧ err = .errorf "netx: Service is required" ∨ err = ErrAlreadyRunning
  late : ∀ call, (w.frame call).pc = .loopContext → o.service = true →
    w.server.state ≠ .new → ∃ next, w.step o (call, .next) = some next ∧
      (next.frame call).pc = .returned (.refused ErrAlreadyRunning)
  others : ∀ call, ¬(w.frame call).pc.Begun →
    (w.frame call).events = [] ∧ (w.frame call).serves = 0
  returned : ∀ call result, (w.frame call).pc = .returned (.looped result) →
    Completed o (w.frame call).events result ∧
      ∃ c : Course, (w.frame call).events = c.events o ∧ result = c.result o
  serve_once : ∀ call, (w.frame call).serves ≤ 1
  serve_started : ∀ call out, 0 < (w.frame call).serves →
    .onStartReturned out ∈ (w.frame call).events → protect "start" out = none
  run_live : ∀ call, (w.frame call).runDone = true →
    ∃ out, .shutdownReturned out ∈ (w.frame call).events
  recovers : ∀ call value, (w.frame call).pc.InHook →
    ∃ next, w.step o (call, .returns (.panics value)) = some next ∧
      (next.frame call).pc.Begun
  serve_recovers : ∀ call value, (w.frame call).serve = .inside →
    ∃ next, w.step o (call, .serveReturns (.panics value)) = some next
  whole : w.server.crashed = false

/-- What `Stop` and `Shutdown` promise. -/
structure StopContract (o : Options) (w : World Call) : Prop where
  stop : ∀ call next, (w.frame call).pc = .stop → w.step o (call, .next) = some next →
    (next.frame call).pc = .returned (.stopped
      (if w.server.state = .new ∨ w.server.state = .stopped then some ErrNotRunning else none))
  shutdown : ∀ call next, (w.frame call).pc = .shutdownStop →
    w.step o (call, .next) = some next →
    (next.frame call).pc =
      if w.server.state = .new ∨ w.server.state = .stopped then
        .returned (.shutdownRefused ErrNotRunning)
      else .shutdownSelect
  shutdownCut : ∀ call err, (w.frame call).pc = .returned (.shutdownCut err) →
    (w.frame call).ctx = some err
  shutdownResult : ∀ call result, (w.frame call).pc = .returned (.shutdownResult result) →
    w.server.state = .stopped ∧
      ∃ owner, (w.frame owner).pc = .returned (.looped result)
  shutdownWakes : ∀ call owner result, (w.frame call).pc = .shutdownSelect →
    (w.frame owner).pc = .returned (.looped result) → ∃ next, w.step o (call, .done) = some next

theorem Pc.Launched.begun (launched : pc.Launched) : pc.Begun := by
  cases pc with
  | shutdown exit | inShutdown exit => cases exit <;> exact List.cons_ne_nil _ _
  | returned reply => cases reply <;> first | exact List.cons_ne_nil _ _ | exact launched.elim
  | _ => first | exact List.cons_ne_nil _ _ | exact launched.elim

theorem Course.Along.events_of_not_begun {c : Course} {events : List Event}
    (along : c.Along o pc events) (outside : ¬pc.Begun) : events = [] := by
  have none : pc.states = [] := not_not.mp outside
  cases pc with
  | shutdown exit | inShutdown exit => cases exit <;> cases none
  | returned reply => cases reply <;> first | exact along | cases none
  | _ => first | exact along | cases none

theorem Frame.Follows.of_not_begun {c : Course} (follows : f.Follows o c) (outside : ¬f.pc.Begun) :
    f.events = [] ∧ f.serves = 0 := by
  refine ⟨follows.along.events_of_not_begun outside, ?_⟩
  have absent : f.serve = .absent := by
    by_contra present
    exact outside (follows.launched present).1.begun
  rw [follows.serves, absent]
  rfl

theorem World.Owned.single (owned : w.Owned) {a b : Call} (first : (w.frame a).pc.Begun)
    (second : (w.frame b).pc.Begun) : a = b := by
  rcases owned with ⟨_, outside⟩ | ⟨owner, _, outside⟩
  · exact absurd (outside a) first
  · have left : a = owner := by
      by_contra apart
      exact first (outside a apart)
    have right : b = owner := by
      by_contra apart
      exact second (outside b apart)
    exact left.trans right.symm

theorem World.step_refused (here : (w.frame call).pc = .loopContext) (service : o.service = true)
    (started : w.server.state ≠ .new) : ∃ next, w.step o (call, .next) = some next ∧
      (next.frame call).pc = .returned (.refused ErrAlreadyRunning) := by
  have refused : w.server.begin call = .error ErrAlreadyRunning := if_pos started
  have taken : effect o call w.server (w.frame call) .next = some (w.server,
      (w.frame call).goto (.returned (.refused ErrAlreadyRunning))) := by
    simp [effect, next, here, service, refused]
  refine ⟨_, World.step_of_effect taken, ?_⟩
  simp only [Function.update_self, Frame.goto]

theorem World.step_panics (value : String) (hook : (w.frame call).pc.InHook) :
    ∃ next, w.step o (call, .returns (.panics value)) = some next ∧
      (next.frame call).pc.Begun := by
  have taken : ∃ f, (w.frame call).returns (.panics value) = some f ∧ f.pc.Begun := by
    cases here : (w.frame call).pc with
    | inOnStart =>
        refine ⟨_, by simp only [Frame.returns, here, protect]; rfl, ?_⟩
        exact List.cons_ne_nil _ _
    | inShutdown exit =>
        refine ⟨_, by simp only [Frame.returns, here]; rfl, ?_⟩
        rcases exit with err | (_ | err) <;> exact List.cons_ne_nil _ _
    | inOnStop | inOnError =>
        refine ⟨_, by simp only [Frame.returns, here]; rfl, ?_⟩
        exact List.cons_ne_nil _ _
    | _ =>
        rw [here] at hook
        exact hook.elim
  obtain ⟨f, taken, begun⟩ := taken
  refine ⟨_, World.step_of_effect (s := w.server) (f := f) ?_, ?_⟩
  · rw [effect, taken, Option.map_some]
  · simpa only [Function.update_self] using begun

theorem World.Sound.loopContract (sound : w.Sound o) : LoopContract o w where
  single _ _ := sound.owned.single
  refused call err here := by
    have answered := sound.answered call
    rw [here] at answered
    exact answered.imp_right And.right
  late _ := World.step_refused
  others call outside := by
    obtain ⟨c, follows⟩ := sound.follows call
    exact follows.of_not_begun outside
  returned call result here := by
    obtain ⟨c, follows⟩ := sound.follows call
    obtain ⟨rfl, events⟩ := follows.at here
    exact ⟨events ▸ c.completed o, c, events, rfl⟩
  serve_once call := by
    obtain ⟨c, follows⟩ := sound.follows call
    exact follows.serves_le
  serve_started call out called member := by
    obtain ⟨c, follows⟩ := sound.follows call
    exact follows.started called member
  run_live call done := by
    obtain ⟨c, follows⟩ := sound.follows call
    exact ⟨c.shutdown, follows.shutdownReturned done⟩
  recovers _ := World.step_panics
  serve_recovers call value inside :=
    ⟨_, World.step_of_effect (by simp only [effect, inside]; rfl)⟩
  whole := sound.owned.whole

theorem World.Owned.returned (owned : w.Owned) {result : Option Err}
    (here : (w.frame call).pc = .returned (.looped result)) : w.server.done = .closed := by
  have begun : (w.frame call).pc.states ≠ [] := by
    rw [here]
    exact List.cons_ne_nil _ _
  rcases owned with ⟨_, outside⟩ | ⟨owner, owns, outside⟩
  · exact absurd (outside call) begun
  · have same : call = owner := by
      by_contra apart
      exact begun (outside call apart)
    subst same
    have stopped := List.mem_singleton.mp (owns.at here)
    exact owns.done.trans (if_pos stopped)

theorem World.Sound.stopContract (sound : w.Sound o) : StopContract o w where
  stop call next here stepped := by
    have taken : effect o call w.server (w.frame call) .next = some (w.server.Stop.2,
        (w.frame call).goto (.returned (.stopped w.server.Stop.1))) := by
      simp only [effect, Lifecycle.next, here]
    rw [World.step_of_effect taken] at stepped
    cases stepped
    simp only [Function.update_self, Frame.goto, Server.Stop]
    split <;> rfl
  shutdown call next here stepped := by
    by_cases idle : w.server.state = .new ∨ w.server.state = .stopped
    · have refused : w.server.Stop = (some ErrNotRunning, w.server) := if_pos idle
      have taken : effect o call w.server (w.frame call) .next = some (w.server,
          (w.frame call).goto (.returned (.shutdownRefused ErrNotRunning))) := by
        simp only [effect, Lifecycle.next, here, refused]
      rw [World.step_of_effect taken] at stepped
      cases stepped
      simp only [Function.update_self, Frame.goto, if_pos idle]
    · have accepted : w.server.Stop = (none, w.server.callStop) := if_neg idle
      have taken : effect o call w.server (w.frame call) .next = some (w.server.callStop,
          (w.frame call).goto .shutdownSelect) := by
        simp only [effect, Lifecycle.next, here, accepted]
      rw [World.step_of_effect taken] at stepped
      cases stepped
      simp only [Function.update_self, Frame.goto, if_neg idle]
  shutdownCut call err here := by
    have answered := sound.answered call
    rw [here] at answered
    exact answered
  shutdownResult call result here := by
    have answered := sound.answered call
    rw [here] at answered
    obtain ⟨stopped, rfl⟩ := answered
    exact ⟨stopped, sound.owned.stopped stopped⟩
  shutdownWakes call owner result here returned := by
    have closed := sound.owned.returned returned
    exact ⟨_, World.step_of_effect (by simp only [effect, here, if_pos closed]; rfl)⟩

/-- The lifecycle of the server: its state only moves forward along any further
run, and in every reachable world `LoopContext`, `Stop` and `Shutdown` keep what
they promise. -/
theorem lifecycle_contract (o : Options) {w : World Call}
    (reached : (system Call o).Reachable w) :
    LoopContract o w ∧ StopContract o w ∧
      ∀ actions final, (system Call o).exec w actions = some final →
        w.server.state.rank ≤ final.server.state.rank := by
  have sound := reachable_sound reached
  refine ⟨sound.loopContract, sound.stopContract, ?_⟩
  intro actions final executed
  exact (sound.exec executed).rank

end Worlds

/-- `Shutdown` stops a server whose Serve and `OnError` panic. -/
def panickingRun : List (Nat × Act) :=
  [(0, .call .loopContext), (0, .next), (0, .next), (0, .returns (.returns none)), (0, .next),
    (0, .next), (1, .call .shutdown), (1, .next), (0, .stopRequested), (0, .next), (0, .next),
    (0, .returns (.returns none)), (0, .next), (0, .serveCalled),
    (0, .serveReturns (.panics "serve")), (0, .serveSends), (0, .takeServed), (0, .next),
    (0, .returns (.returns none)), (0, .next), (0, .returns (.panics "report")), (0, .next),
    (0, .next), (1, .done), (1, .next)]

theorem lifecycle_contract_panicking :
    ∃ w : World Nat, (system Nat ⟨true, true, true, true, 30⟩).exec (.start true)
        panickingRun = some w ∧
      (w.frame 0).serves = 1 ∧ (w.frame 0).events.countP Event.isOnError = 1 ∧
      (∃ result, (w.frame 0).pc = .returned (.looped result) ∧
        (w.frame 1).pc = .returned (.shutdownResult result)) ∧
      LoopContract ⟨true, true, true, true, 30⟩ w := by
  have executed : (system Nat ⟨true, true, true, true, 30⟩).exec (.start true)
      panickingRun = some _ := rfl
  exact ⟨_, executed, rfl, rfl, ⟨_, rfl, rfl⟩,
    (lifecycle_contract _ (.exec (.initial ⟨true, rfl⟩) executed)).1⟩

end Netx.Lifecycle
