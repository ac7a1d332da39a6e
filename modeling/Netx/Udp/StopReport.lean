import Netx.Udp.Serving

/-!
# What a UDP connection reports when it stops

`Serve` reports the first fatal read error unless the `Conn` was closed before. The
readers stop only on a closed `Conn`, and after `Shutdown` returned nil no handler runs.
-/

set_option autoImplicit false

namespace Netx.Udp

open Errors Sync Transition

/-- The fatal error that a step handles: the critical section of `readFailed`. -/
def World.handles {Call : Type} (w : World Call) : Action Call → Option Err
  | .reader i .next =>
      match (w.shared.reader i).stage with
      | .failed err => some err
      | _ => none
  | _ => none

/-- The first fatal error that a run handles, and whether `closed` was set by then. -/
def firstFatal {Call : Type} [DecidableEq Call] (o : Options) (w : World Call) :
    List (Action Call) → Option (Err × Bool)
  | [] => none
  | action :: rest =>
      match w.handles action with
      | some err => some (err, w.shared.conn.closed)
      | none => (w.step o action).bind fun next => firstFatal o next rest

/-- What `Serve` owes its caller. -/
def owed : Option (Err × Bool) → Option Err
  | some (err, false) => some (readError err)
  | _ => none

def Stage.Stopped : Stage → Prop
  | .finished | .gone => True
  | _ => False

/-- No handler is running, and `Serve` is over or has not passed its gate. -/
def World.Quiet {Call : Type} (w : World Call) : Prop :=
  (∀ i left, (w.shared.reader i).stage ≠ .handling left) ∧
    (w.shared.conn.done = true ∨ ∀ a, ¬(w.pc a).Serves)

/-- The calls and readers of one `Conn`, on sockets that do as documented. -/
def listening (Call : Type) [DecidableEq Call] (o : Options) :
    System (World Call) (Action Call) :=
  (system Call o).restrict documented

structure World.Sound {Call : Type} (o : Options) (w : World Call) : Prop where
  ordered : w.Ordered o
  gated : w.Gated o
  closes : w.shared.conn.closeOnce = .running → w.Closes

/-- A reader that is closing goes on with it, or every socket is closed. -/
theorem Reads.leaving {o : Options} {i : Nat} {c c' : Conn} {r r' : Reader} {act : ReaderAct}
    {stage : Closing} (ordered : c.Ordered o) (knows : r.stage.Knows o c)
    (here : r.stage = .closing stage) (stepped : Reads o i c r act c' r') :
    (∃ later, r'.stage = .closing later) ∨ c'.Shut o := by
  cases stepped with
  | closing stage next conn reached closed =>
      rw [reached] at knows
      cases next with
      | none => exact .inr ((Conn.close_closes closed).returns ordered knows).2
      | some later => exact .inl ⟨later, rfl⟩
  | netClosed reached closed =>
      rw [here] at reached
      rcases reached with other | other <;> cases other
  | fails leaves failure reached other =>
      rw [here] at reached
      cases leaves <;> cases reached
  | failed err reached => exact .inl ⟨.enter, rfl⟩
  | setup reached | handledAll reached | truncated _ reached | message _ _ reached
  | finished reached | receive _ reached | handled _ reached | timer _ reached
  | woken _ reached =>
      rw [here] at reached
      cases reached

section Steps

variable {Call : Type} {o : Options}

theorem World.Sound.start (o : Options) : (World.start o : World Call).Sound o where
  ordered := .start o
  gated := .start o
  closes running := by cases running

variable {w next : World Call} {action : Action Call}

/-- Where `Shutdown` has returned nil, no handler is running. -/
theorem World.Sound.quiet (sound : w.Sound o) {a : Call} {reply : Runtime.Reply}
    (returned : w.pc a = .returned reply) (drained : reply.Drained) : w.Quiet := by
  have knows := sound.ordered.call a
  rw [returned] at knows
  cases reply with
  | notServing =>
      refine ⟨fun i left handling => ?_, .inr fun b serves => ?_⟩
      · have present : (w.shared.reader i).stage ≠ .absent := by simp [handling]
        have serving := (sound.gated.started i present).1
        rw [knows.2] at serving
        cases serving
      · have serving := sound.gated.serving b serves
        rw [knows.2] at serving
        cases serving
  | shutdownDone =>
      obtain ⟨b, waited⟩ := sound.gated.done knows
      refine ⟨fun i left handling => ?_, .inl knows⟩
      have inactive := sound.gated.settled b waited i
      rw [handling] at inactive
      cases inactive
  | _ => exact drained.elim

variable [DecidableEq Call]

theorem World.Sound.step (sockets : 0 < o.socks) (sound : w.Sound o)
    (stepped : (listening Call o).step w action = some next) : next.Sound o := by
  obtain ⟨allowed, stepped⟩ := System.restrict_step.mp stepped
  exact ⟨sound.ordered.step sockets allowed stepped, sound.gated.step stepped,
    World.closes_step sound.gated sound.closes stepped⟩

theorem World.handled_step {err : Err} (stepped : w.step o action = some next)
    (handled : w.handles action = some err) : ∃ i, action = .reader i .next ∧
      next = { w with
        shared := (w.shared.withConn (w.shared.conn.fail err)).setReader i
          ((w.shared.reader i).goto (.closing .enter)) } := by
  unfold World.handles at handled
  split at handled
  · rename_i i
    split at handled
    · rename_i here
      cases handled
      simp only [World.step, read, here, Option.map_some, Option.some.injEq] at stepped
      exact ⟨i, rfl, stepped.symm⟩
    · cases handled
  · cases handled

theorem World.unhandled_fatal (stepped : w.step o action = some next)
    (unhandled : w.handles action = none) :
    next.shared.conn.fatal = w.shared.conn.fatal := by
  rcases World.step_cases stepped with ⟨call, act, shared, pc, rfl, moved, rfl⟩ |
    ⟨i, act, conn, reader, rfl, moved, rfl⟩
  · rcases moved.turns with ⟨_, _, rfl⟩ | ⟨k, _, _, _, rfl⟩ | stays
    · rfl
    · rfl
    · exact stays.fatal
  · cases moved with
    | failed err here =>
        simp only [World.handles, here] at unhandled
        cases unhandled
    | closing stage next conn here closed => exact (Conn.close_closes closed).forward.2
    | _ => rfl

end Steps

section Runs

variable {Call : Type} [DecidableEq Call] {o : Options} {w final : World Call}
  {actions : List (Action Call)}

theorem World.Sound.exec (sockets : 0 < o.socks) (sound : w.Sound o)
    (executed : (listening Call o).exec w actions = some final) : final.Sound o :=
  System.exec_keeps (World.Sound o) (fun _ _ _ held stepped => held.step sockets stepped)
    sound executed

/-- An error once recorded is never replaced, and none is recorded once closed. -/
theorem fatal_settled
    (settled : w.shared.conn.closed = true ∨ w.shared.conn.fatal ≠ none)
    (executed : (listening Call o).exec w actions = some final) :
    final.shared.conn.fatal = w.shared.conn.fatal := by
  refine (System.exec_keeps (fun v => (v.shared.conn.closed = true ∨ v.shared.conn.fatal ≠ none) ∧
    v.shared.conn.fatal = w.shared.conn.fatal) ?_ ⟨settled, rfl⟩ executed).2
  rintro v action next ⟨settled, same⟩ stepped
  have later := World.later (System.restrict_step.mp stepped).2
  have kept := later.fatal settled
  refine ⟨settled.imp later.closed fun recorded => ?_, kept.trans same⟩
  rwa [kept]

private theorem fatal_exec (executed : (listening Call o).exec w actions = some final)
    (clean : w.shared.conn.fatal = none) :
    final.shared.conn.fatal = owed (firstFatal o w actions) := by
  induction actions generalizing w with
  | nil =>
      cases executed
      exact clean
  | cons action rest ih =>
      obtain ⟨next, stepped, remaining⟩ := Option.bind_eq_some_iff.mp executed
      obtain ⟨_, taken⟩ := System.restrict_step.mp stepped
      cases handled : w.handles action with
      | none =>
          have same := (World.unhandled_fatal taken handled).trans clean
          rw [ih remaining same, firstFatal, handled]
          simp only [show w.step o action = some next from taken, Option.bind_some]
      | some err =>
          have conn : next.shared.conn = w.shared.conn.fail err := by
            obtain ⟨i, _, rfl⟩ := World.handled_step taken handled
            rfl
          rw [firstFatal, handled]
          cases closed : w.shared.conn.closed with
          | true =>
              have same : w.shared.conn.fail err = w.shared.conn := by simp [Conn.fail, closed]
              rw [same] at conn
              rw [fatal_settled (.inl (conn ▸ closed)) remaining, conn]
              exact clean
          | false =>
              have recorded : next.shared.conn.fatal = some (readError err) := by
                rw [conn, Conn.fail, if_pos ⟨clean, closed⟩]
              rw [fatal_settled (.inr (by simp [recorded])) remaining, recorded]
              rfl

/-- A reader on its way out after a fatal error is still closing, or all is closed. -/
theorem shut_exec (sockets : 0 < o.socks) (sound : w.Sound o) {i : Nat}
    (leaving : (∃ stage, (w.shared.reader i).stage = .closing stage) ∨ w.shared.conn.Shut o)
    (executed : (listening Call o).exec w actions = some final) :
    (∃ stage, (final.shared.reader i).stage = .closing stage) ∨ final.shared.conn.Shut o := by
  refine (System.exec_keeps (fun v : World Call => v.Sound o ∧
    ((∃ stage, (v.shared.reader i).stage = .closing stage) ∨ v.shared.conn.Shut o))
    ?_ ⟨sound, leaving⟩ executed).2
  rintro v action next ⟨sound, leaving⟩ permitted
  refine ⟨sound.step sockets permitted, ?_⟩
  have stepped := (System.restrict_step.mp permitted).2
  rcases leaving with ⟨stage, here⟩ | shut
  · rcases World.step_cases stepped with ⟨call, act, shared, pc, rfl, moved, rfl⟩ |
      ⟨j, act, conn, reader, rfl, moved, rfl⟩
    · refine .inl ⟨stage, ?_⟩
      rw [sound.gated.reader_stays moved (by rw [here]; simp), here]
    · by_cases same : i = j
      · subst same
        have goes := moved.leaving sound.ordered.conn (sound.ordered.reader i) here
        simp only [Shared.setReader, Function.update_self]
        exact goes
      · refine .inl ⟨stage, ?_⟩
        simp only [Shared.setReader, Shared.withConn, Function.update_of_ne same, here]
  · exact .inr ((World.later stepped).shut shut)

end Runs

/-- What holds where a run of `actions` has led from `start` to `w`. -/
structure StopReport {Call : Type} [DecidableEq Call] (o : Options) (start : World Call)
    (actions : List (Action Call)) (w : World Call) : Prop where
  /-- `Serve` returns the first fatal error handled, or nil if `closed` was set before it. -/
  report : ∀ a err, w.pc a = .returned (.served err) → err = owed (firstFatal o start actions)
  /-- Until it returns, somebody it may be waiting for can go on. -/
  goesOn : ∀ a, (w.pc a).Serves → (∀ err, w.pc a ≠ .returned (.served err)) → w.GoesOn o
  /-- A reader that handled a fatal error stops after every socket was closed. -/
  shut : ∀ u i err, (listening Call o).Takes start actions u (.reader i .next) →
    u.handles (.reader i .next) = some err → (w.shared.reader i).stage.Stopped →
    w.shared.conn.Shut o
  /-- No reader stops on an open `Conn`. -/
  closed : ∀ i, (w.shared.reader i).stage.Stopped → w.shared.conn.closed = true
  /-- One call at most has passed the gate, and the readers are its own. -/
  single : ∀ a b, (w.pc a).Serves → (w.pc b).Serves → a = b
  runs : ∀ i, (w.shared.reader i).stage ≠ .absent → ∃ a, (w.pc a).Serves
  /-- Once a `Shutdown` has returned nil, no handler runs, now or later. -/
  quiet : ∀ a reply, w.pc a = .returned reply → reply.Drained →
    ∀ more final, (listening Call o).exec w more = some final → final.Quiet

section Contract

variable {Call : Type} [DecidableEq Call] {o : Options}

private theorem shut_takes (sockets : 0 < o.socks) {start u w : World Call} {i : Nat} {err : Err}
    {actions : List (Action Call)} (sound : start.Sound o)
    (executed : (listening Call o).exec start actions = some w)
    (taken : (listening Call o).Takes start actions u (.reader i .next))
    (handled : u.handles (.reader i .next) = some err)
    (stopped : (w.shared.reader i).stage.Stopped) : w.shared.conn.Shut o := by
  obtain ⟨front, back, rfl, reached⟩ := taken
  rw [System.exec_append, reached, Option.bind_some] at executed
  obtain ⟨next, stepped, remaining⟩ := Option.bind_eq_some_iff.mp executed
  have closing : (next.shared.reader i).stage = .closing .enter := by
    have taken : u.step o (.reader i .next) = some next := (System.restrict_step.mp stepped).2
    obtain ⟨j, same, rfl⟩ := World.handled_step taken handled
    cases same
    simp only [Shared.setReader, Function.update_self, Reader.goto]
  rcases shut_exec sockets ((sound.exec sockets reached).step sockets stepped)
    (.inl ⟨.enter, closing⟩) remaining with ⟨stage, here⟩ | shut
  · rw [here] at stopped
    exact stopped.elim
  · exact shut

/-- How a `Conn` stops, and what its calls report, in every run. -/
theorem conn_stop_reported (sockets : 0 < o.socks) {actions : List (Action Call)}
    {w : World Call} (executed : (listening Call o).exec (.start o) actions = some w) :
    StopReport o (.start o) actions w := by
  have sound := (World.Sound.start o).exec sockets executed
  refine ⟨?_, fun a => sound.gated.goesOn sound.closes,
    fun u i err => shut_takes sockets (.start o) executed, ?_, sound.gated.single,
    fun i present => sound.gated.served (sound.gated.started i present).1, ?_⟩
  · intro a err returned
    rw [← fatal_exec executed rfl]
    refine (sound.gated.found a err ?_).symm
    rw [returned]
    rfl
  · intro i stopped
    have knows := sound.ordered.reader i
    cases here : (w.shared.reader i).stage with
    | finished | gone =>
        rw [here] at knows
        exact knows
    | _ =>
        rw [here] at stopped
        exact stopped.elim
  · intro a reply returned drained more final later
    obtain ⟨still, sound⟩ : final.pc a = .returned reply ∧ final.Sound o := by
      refine System.exec_keeps (fun v : World Call => v.pc a = .returned reply ∧ v.Sound o)
        ?_ ⟨returned, sound⟩ later
      rintro v action next ⟨here, sound⟩ stepped
      exact ⟨World.returned_stays (System.restrict_step.mp stepped).2 here,
        sound.step sockets stepped⟩
    exact sound.quiet still drained

end Contract

def pairOptions : Options where
  readers := 2
  socks := 2
  batch := 2

def brokenSocket : Err := .new 32 "bad file descriptor"

def callSteps (call : Fin 2) (steps : Nat) : List (Action (Fin 2)) :=
  List.replicate steps (.call call .next)

def readerSteps (i steps : Nat) : List (Action (Fin 2)) :=
  List.replicate steps (.reader i .next)

/-- A datagram is being handled when the other socket breaks. The error is recorded,
the first reader fails in its turn and is the one to close, and a `Shutdown` waits. -/
def brokenRun : List (Action (Fin 2)) :=
  [[.call 0 (.call .serve)], callSteps 0 5, readerSteps 0 1, readerSteps 1 1,
    [.reader 0 (.receive [some 3])], readerSteps 0 1,
    [.reader 1 (.fails (.fatal brokenSocket)), .reader 0 .handled], readerSteps 0 1,
    [.reader 0 (.fails (.fatal (.new 33 "use of closed socket")))], readerSteps 1 1,
    readerSteps 0 9, [.call 1 (.call .shutdown)], callSteps 1 2, readerSteps 1 2,
    callSteps 0 4, [.call 1 .done]].flatten

theorem conn_stop_reported_broken :
    ∃ w, (listening (Fin 2) pairOptions).exec (.start pairOptions) brokenRun = some w ∧
      w.pc 0 = .returned (.served (some (readError brokenSocket))) ∧
      w.pc 1 = .returned .shutdownDone ∧
      StopReport pairOptions (.start pairOptions) brokenRun w := by
  have checked : ((listening (Fin 2) pairOptions).exec (.start pairOptions) brokenRun).any
      (fun w => decide (w.pc 0 = .returned (.served (some (readError brokenSocket))) ∧
        w.pc 1 = .returned .shutdownDone)) = true := by
    decide +kernel
  obtain ⟨w, executed, facts⟩ := System.exec_of_check _ checked
  obtain ⟨served, drained⟩ := of_decide_eq_true facts
  exact ⟨w, executed, served, drained, conn_stop_reported (by decide) executed⟩

end Netx.Udp
