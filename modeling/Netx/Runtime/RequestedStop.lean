import Netx.Lifecycle.ShutdownErrors
import Netx.Runtime.Members

/-!
# A requested stop

In a healthy run the only error `LoopContext` can see is that of a `Serve` whose
goroutine was so late that its transport had been told to stop already.
-/

set_option autoImplicit false

namespace Netx.Runtime

open Errors
open Lifecycle (Frame Outcome Event Course protect)

/-- A hook and `Service.Shutdown` return nil, and `served` is what the service
returned. -/
def Event.Clean (served : Option (Option Err)) : Event → Prop
  | .onStartReturned out | .onStopReturned out | .shutdownReturned out => out = .returns none
  | .served err => served = some err
  | _ => True

/-- What a `LoopContext` call has been told agrees with what the service returned. -/
structure Told (served : Option (Option Err)) (f : Frame) : Prop where
  events : ∀ event ∈ f.events, Event.Clean served event
  returned : ∀ err, f.serve = .returned err → served = some err
  sent : ∀ err, f.served = some err → served = some err

/-- The service goroutine is told what the service returned, and the hooks return nil. -/
def Fair (served : Option (Option Err)) : Lifecycle.Act → Prop
  | .returns out => out = .returns none
  | .serveReturns out => ∃ err, out = .returns err ∧ served = some err
  | .graceOver => False
  | _ => True

section Told

variable {served later : Option (Option Err)} {f f' : Frame}

theorem Event.Clean.mono (stays : ∀ err, served = some err → later = some err)
    {event : Event} (clean : Event.Clean served event) : Event.Clean later event := by
  cases event with
  | served err => exact stays err clean
  | _ => exact clean

theorem Told.mono (stays : ∀ err, served = some err → later = some err)
    (told : Told served f) : Told later f where
  events event member := (told.events event member).mono stays
  returned err here := stays err (told.returned err here)
  sent err here := stays err (told.sent err here)

/-- A step of the call itself leaves the Serve goroutine alone. -/
theorem Told.move (told : Told served f) (events : f'.events = f.events)
    (serve : f'.serve = f.serve) (sent : f'.served = f.served) : Told served f' where
  events event member := told.events event (events ▸ member)
  returned err here := told.returned err (serve ▸ here)
  sent err here := told.sent err (sent ▸ here)

theorem Told.logged (told : Told served f) {event : Event}
    (events : f'.events = f.events ++ [event]) (clean : Event.Clean served event)
    (serve : f'.serve = f.serve) (sent : f'.served = f.served ∨ f'.served = none) :
    Told served f' where
  events other member := by
    rw [events] at member
    rcases List.mem_append.mp member with before | added
    · exact told.events other before
    · obtain rfl := List.mem_singleton.mp added
      exact clean
  returned err here := told.returned err (serve ▸ here)
  sent err here := by
    rcases sent with same | taken
    · exact told.sent err (same ▸ here)
    · rw [taken] at here
      cases here

variable {Call : Type} [DecidableEq Call] {o : Lifecycle.Options}

theorem Told.moves {call : Call} {s s' : Lifecycle.Server Call} {act : Lifecycle.Act}
    (told : Told served f) (fair : Fair served act)
    (moved : Lifecycle.Moves o call s f act s' f') : Told served f' := by
  cases moved with
  | onStart | shutdown | onStop | onError =>
      exact told.logged rfl trivial rfl (.inl rfl)
  | startFailed out | started out | shutdownReturned _ out | onStopReturned _ out =>
      exact told.logged rfl fair rfl (.inl rfl)
  | onErrorReturned | onErrorPanicked => exact told.logged rfl trivial rfl (.inl rfl)
  | servedEarly err _ sent | servedLate _ err _ sent =>
      exact told.logged rfl (told.sent err sent) rfl (.inr rfl)
  | graceOver => exact fair.elim
  | goServe => exact ⟨told.events, nofun, told.sent⟩
  | serveCalled => exact ⟨told.events, nofun, told.sent⟩
  | serveReturns out =>
      obtain ⟨err, rfl, returned⟩ := fair
      refine ⟨told.events, fun other here => ?_, told.sent⟩
      cases here
      exact returned
  | serveSends err here =>
      refine ⟨told.events, nofun, fun other sent => ?_⟩
      cases sent
      exact told.returned err here
  | _ => exact told.move rfl rfl rfl

/-- All hooks of the course returned nil, so its error is that of the service. -/
theorem Told.err {c : Course} (told : Told served f)
    (whole : c.opening o ++ c.draining o ++ c.stopping o ⊆ f.events) :
    ∃ err, served = some err ∧ (c.err o = none ↔ err = none) := by
  have clean : ∀ event, event ∈ c.opening o ∨ event ∈ c.draining o ∨ event ∈ c.stopping o →
      Event.Clean served event := by
    intro event member
    exact told.events event (whole (by simpa [or_assoc] using member))
  have started : c.startErr o = none := by
    unfold Course.startErr
    split
    · rename_i set
      have returned : c.start = .returns none :=
        clean (.onStartReturned c.start) (.inl (by simp [Course.opening, set]))
      rw [returned]
      rfl
    · rfl
  have stopped : c.stopErr o = none := by
    unfold Course.stopErr
    split
    · rename_i set
      have returned : c.stop = .returns none :=
        clean (.onStopReturned c.stop) (.inr (.inr (by simp [Course.stopping, set])))
      rw [returned]
      rfl
    · rfl
  have shut : c.shutdown = .returns none :=
    clean (.shutdownReturned c.shutdown) (.inr (.inl c.shutdownReturned_mem_draining))
  have returned : served = some c.serveErr := by
    refine clean (.served c.serveErr) (.inr (.inl ?_))
    unfold Course.draining
    rw [started]
    split <;> simp_all
  refine ⟨c.serveErr, returned, ?_⟩
  rw [Course.err, Course.errs_of_started started, stopped, Course.shutdownErr, shut,
    join_eq_none]
  simp [protect, Lifecycle.ignoreCanceled, is]

end Told

section Services

variable {Call ι : Type} {service : Service ι} {w : World Call ι}

/-- While the drain lasts `Service.Shutdown` returns nil. -/
theorem shutdown_returns {member : ι → Transport}
    (fit : ∀ i, (member i).Fit) {out : Outcome}
    (returned : service.returns (fun i => (member i).shutdownResult) out = true) :
    out = .returns none := by
  cases out with
  | panics value => cases returned
  | returns err =>
      have collected := of_decide_eq_true returned
      congr
      rw [Service.collect_eq_none_iff collected]
      intro i listed
      obtain ⟨result, here⟩ := Service.collect_members collected i listed
      rw [here, (fit i).shutdown_returns here]

/-- What `Service.Serve` returns, once all members have returned. -/
def World.served (service : Service ι) (w : World Call ι) : Option (Option Err) :=
  service.collect fun i => (w.member i).serveResult

/-- A service returns nil exactly if none of its members failed. -/
theorem World.working_iff {err : Option Err} (returned : w.served service = some err) :
    w.Working service ↔ err = none := by
  rw [Service.collect_eq_none_iff returned]
  constructor
  · intro working i listed
    obtain ⟨result, here⟩ := Service.collect_members returned i listed
    cases result with
    | none => exact here
    | some failure => exact absurd ⟨failure, here⟩ (working i listed)
  · intro quiet i listed failed
    obtain ⟨failure, here⟩ := failed
    cases (quiet i listed).symm.trans here

variable [DecidableEq Call] {o : Lifecycle.Options}

structure World.Sound (o : Lifecycle.Options) (service : Service ι) (w : World Call ι) :
    Prop where
  loop : (Lifecycle.system Call o).Reachable w.loop
  fit : ∀ i, (w.member i).Fit
  told : ∀ call, Told (w.served service) (w.loop.frame call)

/-- `OnError` was not called, and what the call returned, if it did, is nil. -/
def Quiet (f : Frame) : Prop :=
  (∀ err, .onError err ∉ f.events) ∧
    ∀ result, f.pc = .returned (.looped result) → result = none

theorem Quiet.returned {f : Frame} (silent : f.events.countP Event.isOnError = 0)
    (here : f.pc = .returned (.looped none)) : Quiet f := by
  constructor
  · intro err member
    exact absurd rfl (List.countP_eq_zero.mp silent _ member)
  · intro result same
    rw [here] at same
    cases same
    rfl

theorem World.Sound.returned (sound : w.Sound o service) {call : Call} {result : Option Err}
    (here : (w.loop.frame call).pc = .returned (.looped result)) :
    w.Working service ↔ result = none := by
  obtain ⟨c, follows⟩ := (Lifecycle.reachable_sound sound.loop).follows call
  obtain ⟨rfl, events⟩ := follows.at here
  have whole : c.opening o ++ c.draining o ++ c.stopping o ⊆ (w.loop.frame call).events :=
    events ▸ List.subset_append_left _ _
  obtain ⟨err, returned, same⟩ := (sound.told call).err whole
  rw [World.working_iff returned, c.result_eq_none o, same]

theorem World.Sound.quiet (sound : w.Sound o service) (working : w.Working service)
    (call : Call) : Quiet (w.loop.frame call) := by
  constructor
  · intro err member
    obtain ⟨c, follows⟩ := (Lifecycle.reachable_sound sound.loop).follows call
    obtain ⟨failed, whole⟩ := follows.along.onError member
    obtain ⟨served, returned, same⟩ := (sound.told call).err whole
    rw [same.mpr ((World.working_iff returned).mp working)] at failed
    cases failed
  · intro result here
    exact (sound.returned here).mp working

end Services

section Runs

variable {Call ι : Type} [DecidableEq Call] [DecidableEq ι] {o : Lifecycle.Options}
  {service : Service ι} {w next : World Call ι} {action : Action Call ι}

theorem World.Sound.start (initial : (system Call ι o service).initial w) :
    w.Sound o service := by
  obtain ⟨⟨made, begun⟩, members⟩ := initial
  refine ⟨.initial ⟨made, begun⟩, fun i => .start (members i), fun call => ?_⟩
  rw [begun]
  exact ⟨nofun, nofun, nofun⟩

theorem World.Sound.fair (sound : w.Sound o service) {call : Call} {act : Lifecycle.Act}
    {member : ι → Transport} (sane : healthy w (.loop call act) = true)
    (reacted : react service (w.loop.frame call) w.member act = some member) :
    Fair (w.served service) act := by
  cases act with
  | returns out =>
      cases here : (w.loop.frame call).pc with
      | inShutdown exit =>
          simp only [react, here] at reacted
          exact shutdown_returns sound.fit (Option.ite_none_right_eq_some.mp reacted).1
      | _ =>
          simp only [healthy, here, decide_eq_true_eq] at sane
          exact sane
  | serveReturns out =>
      have returned := (Option.ite_none_right_eq_some.mp reacted).1
      cases out with
      | returns err => exact ⟨err, rfl, of_decide_eq_true returned⟩
      | panics value => cases returned
  | graceOver => cases sane
  | _ => trivial

theorem World.served_stays (sane : healthy w action = true)
    (stepped : w.step o service action = some next) {err : Option Err}
    (returned : w.served service = some err) : next.served service = some err :=
  Service.collect_stays (fun i _ here => World.step_stays sane stepped i here) returned

/-- Only the calls on the server itself change it. -/
theorem World.step_loop (stepped : w.step o service action = some next) :
    (∃ call act, action = .loop call act ∧ w.loop.step o (call, act) = some next.loop ∧
      react service (w.loop.frame call) w.member act = some next.member) ∨
    next.loop = w.loop := by
  cases action with
  | loop call act =>
      obtain ⟨loop, moved, mapped⟩ := Option.bind_eq_some_iff.mp stepped
      obtain ⟨member, reacted, rfl⟩ := Option.map_eq_some_iff.mp mapped
      exact .inl ⟨call, act, rfl, moved, reacted⟩
  | member i act | cancel call i | abort i j =>
      obtain ⟨_, mapped⟩ := Option.ite_none_right_eq_some.mp stepped
      obtain ⟨t, _, rfl⟩ := Option.map_eq_some_iff.mp mapped
      exact .inr rfl
  | expire call i =>
      cases drain : (w.loop.frame call).drain with
      | ended err =>
          simp only [World.step, drain] at stepped
          obtain ⟨t, _, rfl⟩ := Option.map_eq_some_iff.mp stepped
          exact .inr rfl
      | _ =>
          simp only [World.step, drain] at stepped
          cases stepped

theorem World.Sound.step (sound : w.Sound o service) (sane : healthy w action = true)
    (stepped : w.step o service action = some next) : next.Sound o service := by
  have stays : ∀ err, w.served service = some err → next.served service = some err :=
    fun _ => World.served_stays sane stepped
  have fit := World.step_fit sane stepped sound.fit
  rcases World.step_loop stepped with ⟨call, act, rfl, moved, reacted⟩ | same
  · refine ⟨sound.loop.step moved, fit, fun other => Told.mono stays ?_⟩
    obtain ⟨server, frame, moves, loop⟩ := Lifecycle.World.step_moves moved
    rw [loop]
    simp only [Function.update_apply]
    split_ifs with acting
    · subst acting
      exact (sound.told other).moves (sound.fair sane reacted) moves
    · exact sound.told other
  · refine ⟨same ▸ sound.loop, fit, fun other => ?_⟩
    rw [same]
    exact (sound.told other).mono stays

theorem World.Working.back {actions : List (Action Call ι)} {final : World Call ι}
    (executed : ((system Call ι o service).restrict healthy).exec w actions = some final)
    (working : final.Working service) : w.Working service := by
  intro i listed failed
  refine working i listed (Transition.System.exec_keeps
    (fun v : World Call ι => (v.member i).Failed) ?_ failed executed)
  rintro state action next ⟨err, returned⟩ stepped
  obtain ⟨sane, moved⟩ := Transition.System.restrict_step.mp stepped
  exact ⟨err, World.step_stays sane moved i returned⟩

/-- In a healthy run the service works throughout exactly if no `Serve` was late. -/
theorem working_iff_punctual {start : World Call ι} {actions : List (Action Call ι)}
    (initial : (system Call ι o service).initial start)
    (executed : ((system Call ι o service).restrict healthy).exec start actions = some w) :
    w.Sound o service ∧ (w.Working service ↔ ∀ state action,
      ((system Call ι o service).restrict healthy).Takes start actions state action →
        ¬late service state action = true) := by
  have sound : ∀ {v : World Call ι}, ((system Call ι o service).restrict healthy).Reachable v →
      v.Sound o service := by
    intro v reached
    refine Transition.System.Reachable.invariant (World.Sound o service) ?_ ?_ reached
    · exact fun _ begun => .start begun
    intro state action next _ held stepped
    obtain ⟨sane, moved⟩ := Transition.System.restrict_step.mp stepped
    exact held.step sane moved
  have reached : ((system Call ι o service).restrict healthy).Reachable start :=
    .initial initial
  have begun : start.Working service := fun i _ =>
    Transport.not_failed_of_initial (initial.2 i)
  refine ⟨sound (reached.exec executed), ?_⟩
  rw [← Transition.System.visits_iff_takes (World.Working service)
    (fun state action => late service state action = true) ?_ reached begun executed]
  · constructor
    · rintro working state ⟨front, back, rfl, before⟩
      rw [Transition.System.exec_append, before] at executed
      exact .back executed working
    · intro working
      exact working w (Transition.System.visits_final executed)
  · intro state action next before working stepped
    obtain ⟨sane, moved⟩ := Transition.System.restrict_step.mp stepped
    exact World.step_working_iff sane moved (sound before).fit working

/-- No member of the service came to the gate of its `Serve` after it was told to stop. -/
def Punctual (o : Lifecycle.Options) (service : Service ι) (start : World Call ι)
    (actions : List (Action Call ι)) : Prop :=
  ∀ state action,
    ((system Call ι o service).restrict healthy).Takes start actions state action →
      late service state action = false

/-- A healthy run without a late `Serve` is quiet at every moment, and a call that has
returned was quiet exactly if there was none. -/
theorem requested_stop_quiet_iff (o : Lifecycle.Options) (service : Service ι)
    {start w : World Call ι} {actions : List (Action Call ι)}
    (initial : (system Call ι o service).initial start)
    (executed : ((system Call ι o service).restrict healthy).exec start actions = some w) :
    (Punctual o service start actions → ∀ call, Quiet (w.loop.frame call)) ∧
    ∀ call result, (w.loop.frame call).pc = .returned (.looped result) →
      (Quiet (w.loop.frame call) ↔ Punctual o service start actions) := by
  obtain ⟨sound, working⟩ := working_iff_punctual initial executed
  have punctual : w.Working service ↔ Punctual o service start actions := by
    simpa only [Punctual, Bool.not_eq_true] using working
  constructor
  · intro kept call
    exact sound.quiet (punctual.mpr kept) call
  · intro call result here
    rw [← punctual]
    constructor
    · intro quiet
      exact (sound.returned here).mpr (quiet.2 result here)
    · intro held
      exact sound.quiet held call

end Runs

/-- A group of a TCP server and a UDP socket, both as their constructors return them. -/
def pairStart : World Nat Bool where
  loop := .start true
  member
    | false => .tcp (.start (.empty none none 0))
    | true => .udp ⟨1, 1, 1⟩ (.start ⟨1, 1, 1⟩)

def pair : Service Bool :=
  .group [false, true]

def pairOptions : Lifecycle.Options :=
  ⟨true, false, false, true, 30⟩

private theorem pairStart_initial : (system Nat Bool pairOptions pair).initial pairStart := by
  refine ⟨⟨true, rfl⟩, fun i => ?_⟩
  cases i with
  | false => exact ⟨⟨none, 0, 0⟩, _, _, rfl, rfl, rfl⟩
  | true => rfl

def onLoop (call : Nat) (acts : List Lifecycle.Act) : List (Action Nat Bool) :=
  acts.map (.loop call)

def onTcp (actions : List (Tcp.Action Role)) : List (Action Nat Bool) :=
  actions.map fun action => .member false (.tcp action)

def onUdp (actions : List (Udp.Action Role)) : List (Action Nat Bool) :=
  actions.map fun action => .member true (.udp action)

def memberNext (role : Role) (tcp udp : Nat) : List (Action Nat Bool) :=
  onTcp (.replicate tcp (.call role .next)) ++ onUdp (.replicate udp (.call role .next))

/-- The goroutine that calls `Serve` runs before the stop is requested. -/
def promptRun : List (Action Nat Bool) :=
  onLoop 0 [.call .loopContext, .next, .next, .next, .serveCalled] ++ memberNext .serve 2 4 ++
    onLoop 1 [.call .stop, .next] ++ onLoop 0 [.stopRequested, .next, .next] ++
    memberNext .shutdown 6 7 ++
    onTcp [.call .serve (.acceptFails false (.errorf "use of closed network connection"))] ++
    onUdp [.reader 0 (.fails .netClosed), .reader 0 .next] ++ memberNext .serve 6 4 ++
    onTcp [.call .shutdown .done] ++ onUdp [.call .shutdown .done] ++
    onLoop 0 [.returns (.returns none), .serveReturns (.returns none), .serveSends, .next,
      .takeServed, .next, .next, .next, .next]

theorem requested_stop_quiet_iff_prompt :
    ∃ w, ((system Nat Bool pairOptions pair).restrict healthy).exec pairStart promptRun =
        some w ∧
      (w.loop.frame 0).pc = .returned (.looped none) ∧ Quiet (w.loop.frame 0) ∧
      Punctual pairOptions pair pairStart promptRun := by
  have executed : ((system Nat Bool pairOptions pair).restrict healthy).exec pairStart
      promptRun = some _ := rfl
  obtain ⟨_, exactly⟩ := requested_stop_quiet_iff pairOptions pair pairStart_initial executed
  exact ⟨_, executed, rfl, .returned rfl rfl, (exactly 0 none rfl).mp (.returned rfl rfl)⟩

/-- The goroutine that calls `Serve` runs only after `Service.Shutdown` has returned. -/
def lateServeRun : List (Action Nat Bool) :=
  onLoop 0 [.call .loopContext, .next, .next, .next] ++ onLoop 1 [.call .stop, .next] ++
    onLoop 0 [.stopRequested, .next, .next] ++ memberNext .shutdown 6 7 ++
    onLoop 0 [.returns (.returns none), .next, .serveCalled] ++ memberNext .serve 1 1 ++
    onLoop 0 [.serveReturns (.returns (join [some Tcp.ErrClosed, some Udp.ErrClosed])),
      .serveSends, .takeServed, .next, .next, .returns (.returns none), .next, .next]

/-- A stop that was requested before the goroutine came to call `Serve` is reported as
a failure of both transports. -/
theorem late_serve_reported :
    ∃ w result, (system Nat Bool pairOptions pair).initial pairStart ∧
      ((system Nat Bool pairOptions pair).restrict healthy).exec pairStart lateServeRun =
        some w ∧
      (w.loop.frame 0).pc = .returned (.looped result) ∧
      is result Tcp.ErrClosed = true ∧ is result Udp.ErrClosed = true ∧
      (w.loop.frame 0).events.countP Event.isOnError = 1 ∧ ¬Quiet (w.loop.frame 0) := by
  have executed : ((system Nat Bool pairOptions pair).restrict healthy).exec pairStart
      lateServeRun = some _ := rfl
  refine ⟨_, join [join [some Tcp.ErrClosed, some Udp.ErrClosed], none, none],
    pairStart_initial, executed, rfl, by decide, by decide, rfl, ?_⟩
  intro quiet
  exact absurd (quiet.2 _ rfl) (by decide)

end Netx.Runtime
