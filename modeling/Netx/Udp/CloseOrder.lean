import Netx.Udp.ConnProperties

/-!
# The order in which a UDP connection closes

`Close` marks the `Conn` as closed before it wakes a reader or closes a socket, and
it is over for everybody only once every socket is closed.
-/

set_option autoImplicit false

namespace Netx.Udp

open Errors Sync

/-- Every socket is closed. -/
def Conn.Shut (o : Options) (c : Conn) : Prop :=
  ∀ k < o.socks, k ∉ c.sockets

/-- What no step of anybody takes back. -/
structure Conn.Later (c c' : Conn) : Prop where
  closed : c.closed = true → c'.closed = true
  sockets : c'.sockets ⊆ c.sockets
  done : c.done = true → c'.done = true
  serving : c.closed = true → c'.serving = c.serving
  fatal : c.closed = true ∨ c.fatal ≠ none → c'.fatal = c.fatal

theorem Conn.Later.refl (c : Conn) : c.Later c :=
  ⟨id, Finset.Subset.refl _, id, fun _ => rfl, fun _ => rfl⟩

/-- What whoever has come to a stage of `Close` has done. -/
def Closing.Knows (o : Options) (c : Conn) : Closing → Prop
  | .enter | .set => True
  | .signal => c.closed = true
  | .socket k => c.closed = true ∧ ∀ j < k, j ∉ c.sockets
  | .leave => c.closed = true ∧ c.Shut o

structure Conn.Ordered (o : Options) (c : Conn) : Prop where
  signalled : c.closing = true → c.closed = true
  socket : ∀ k < o.socks, k ∉ c.sockets → c.closed = true
  finished : c.closeOnce = .finished → c.closed = true ∧ c.Shut o

section Later

variable {o : Options} {c c' : Conn}

theorem Conn.Later.shut (later : c.Later c') (shut : c.Shut o) : c'.Shut o :=
  fun k known opened => shut k known (later.sockets opened)

variable {stage : Closing} {next : Option Closing}

theorem Closes.later (closes : Closes o c stage c' next) : c.Later c' := by
  obtain ⟨forward, fatal⟩ := closes.forward
  refine ⟨forward.closed, ?_, fun finished => forward.done.trans finished,
    fun _ => forward.serving, fun _ => fatal⟩
  cases closes with
  | socket k _ => exact Finset.erase_subset k _
  | _ => exact Finset.Subset.refl _

theorem Conn.fail_later (c : Conn) (err : Err) : c.Later (c.fail err) := by
  unfold Conn.fail
  split
  · rename_i recorded
    refine ⟨id, Finset.Subset.refl _, id, fun _ => rfl, ?_⟩
    rintro (closed | failed)
    · rw [recorded.2] at closed
      cases closed
    · exact absurd recorded.1 failed
  · exact .refl c

theorem Closing.Knows.later (knows : stage.Knows o c) (later : c.Later c') : stage.Knows o c' := by
  cases stage with
  | enter | set => trivial
  | signal => exact later.closed knows
  | socket k =>
      exact ⟨later.closed knows.1, fun j before opened =>
        knows.2 j before (later.sockets opened)⟩
  | leave => exact ⟨later.closed knows.1, later.shut knows.2⟩

theorem Closes.ordered (ordered : c.Ordered o) (knows : stage.Knows o c)
    (closes : Closes o c stage c' next) : c'.Ordered o := by
  have later := closes.later
  cases closes with
  | first => exact ⟨ordered.signalled, ordered.socket, fun finished => by cases finished⟩
  | late | sockets => exact ordered
  | set =>
      exact ⟨fun _ => rfl, fun _ _ _ => rfl, fun finished => ⟨rfl, (ordered.finished finished).2⟩⟩
  | signal => exact ⟨fun _ => knows, ordered.socket, ordered.finished⟩
  | socket k =>
      exact ⟨ordered.signalled, fun _ _ _ => knows.1,
        fun finished => ⟨knows.1, later.shut (ordered.finished finished).2⟩⟩
  | leave => exact ⟨ordered.signalled, ordered.socket, fun _ => knows⟩

theorem Closes.knows {next : Closing} (knows : stage.Knows o c)
    (closes : Closes o c stage c' (some next)) : next.Knows o c' := by
  cases closes with
  | first => trivial
  | set => exact rfl
  | signal => exact ⟨knows, fun j before => absurd before (Nat.not_lt_zero j)⟩
  | socket k =>
      refine ⟨knows.1, fun j before opened => ?_⟩
      obtain ⟨other, opened⟩ := Finset.mem_erase.mp opened
      exact knows.2 j (by omega) opened
  | sockets k all => exact ⟨knows.1, fun j known => knows.2 j (by omega)⟩

/-- Whoever comes back from `Close` finds the `Conn` closed and every socket too. -/
theorem Closes.returns (ordered : c.Ordered o) (knows : stage.Knows o c)
    (closes : Closes o c stage c' none) : c'.closed = true ∧ c'.Shut o := by
  cases closes with
  | late finished => exact ordered.finished finished
  | leave => exact knows

/-- Once `Close` has been entered and is not over, the step just taken goes on. -/
theorem Closes.running (closes : Closes o c stage c' next) (running : c'.closeOnce = .running) :
    ∃ later, next = some later ∧ later ≠ .enter := by
  cases closes with
  | late finished =>
      rw [finished] at running
      cases running
  | leave => cases running
  | _ => exact ⟨_, rfl, by simp⟩

/-- `Close` waits only for a running `Close`. -/
theorem Conn.close_enabled (stage : Closing) (free : stage = .enter → c.closeOnce ≠ .running) :
    ∃ c' next, c.close o stage = some (c', next) := by
  cases stage with
  | enter =>
      simp only [Conn.close]
      split
      · exact ⟨_, _, rfl⟩
      · rename_i running
        exact absurd running (free rfl)
      · exact ⟨_, _, rfl⟩
  | socket k =>
      simp only [Conn.close]
      split <;> exact ⟨_, _, rfl⟩
  | set | signal | leave => exact ⟨_, _, rfl⟩

end Later

/-- What a reader at a stage can count on. It backs off from a read, never from
its setup, and so returns to reading. -/
def Stage.Knows (o : Options) (c : Conn) : Stage → Prop
  | .closing stage => stage.Knows o c
  | .backoff leaves => leaves = false
  | .finished | .gone => c.closed = true
  | _ => True

/-- What a call at a program point can count on. -/
def Pc.Knows (o : Options) (c : Conn) : Pc → Prop
  | .close stage _ => stage.Knows o c
  | .readServing | .select => c.closed = true
  | .returned .notServing => c.closed = true ∧ c.serving = false
  | .returned .shutdownDone => c.done = true
  | _ => True

/-- `SyscallConn`, the setup of a batch reader, fails with `syscall.EINVAL` and
nothing else, and that is fatal: it is not a shortage and not a truncation. -/
def documented {Call : Type} (w : World Call) : Action Call → Bool
  | .reader i (.fails .transient) | .reader i (.fails .truncated) =>
      match (w.shared.reader i).stage with
      | .setup => false
      | _ => true
  | _ => true

structure World.Ordered {Call : Type} (o : Options) (w : World Call) : Prop where
  conn : w.shared.conn.Ordered o
  reader : ∀ i, (w.shared.reader i).stage.Knows o w.shared.conn
  call : ∀ a, (w.pc a).Knows o w.shared.conn

section Knowledge

variable {o : Options} {c c' : Conn}

theorem Stage.Knows.later {stage : Stage} (knows : stage.Knows o c) (later : c.Later c') :
    stage.Knows o c' := by
  cases stage with
  | closing stage => exact Closing.Knows.later knows later
  | backoff leaves => exact knows
  | finished | gone => exact later.closed knows
  | _ => trivial

theorem Pc.Knows.later {pc : Pc} (knows : pc.Knows o c) (later : c.Later c') :
    pc.Knows o c' := by
  cases pc with
  | close stage after => exact Closing.Knows.later knows later
  | readServing | select => exact later.closed knows
  | returned reply =>
      cases reply with
      | notServing => exact ⟨later.closed knows.1, (later.serving knows.1).trans knows.2⟩
      | shutdownDone => exact later.done knows
      | _ => trivial
  | _ => trivial

variable {i : Nat} {r r' : Reader} {act : ReaderAct}

theorem Reads.later (stepped : Reads o i c r act c' r') : c.Later c' := by
  cases stepped with
  | failed err here => exact c.fail_later err
  | closing stage next conn here closed => exact (Conn.close_closes closed).later
  | _ => exact ⟨id, Finset.Subset.refl _, id, fun _ => rfl, fun _ => rfl⟩

theorem Reads.ordered (ordered : c.Ordered o) (knows : r.stage.Knows o c)
    (stepped : Reads o i c r act c' r') : c'.Ordered o := by
  cases stepped with
  | failed err here =>
      unfold Conn.fail
      split <;> exact ⟨ordered.signalled, ordered.socket, ordered.finished⟩
  | closing stage next conn here closed =>
      rw [here] at knows
      exact (Conn.close_closes closed).ordered ordered knows
  | _ => exact ⟨ordered.signalled, ordered.socket, ordered.finished⟩

theorem Reads.knows (sockets : 0 < o.socks) (ordered : c.Ordered o)
    (setup : r.stage = .setup → act ≠ .fails .transient ∧ act ≠ .fails .truncated)
    (knows : r.stage.Knows o c) (stepped : Reads o i c r act c' r') :
    r'.stage.Knows o c' := by
  cases stepped with
  | closing stage next conn here closed =>
      rw [here] at knows
      cases next with
      | none => exact ((Conn.close_closes closed).returns ordered knows).1
      | some next => exact (Conn.close_closes closed).knows knows
  | finished here =>
      rw [here] at knows
      exact knows
  | netClosed here closed => exact ordered.socket _ (Nat.mod_lt i sockets) closed
  | fails leaves failure here other =>
      cases leaves with
      | false => cases failure <;> first | exact absurd rfl other | trivial
      | true =>
          cases failure with
          | netClosed => exact absurd rfl other
          | truncated => exact absurd rfl (setup here).2
          | transient => exact absurd rfl (setup here).1
          | fatal err => trivial
  | timer leaves here =>
      rw [here] at knows
      cases knows
      trivial
  | woken leaves here closing => exact ordered.signalled closing
  | _ => trivial

variable {Call : Type} [DecidableEq Call] {call : Call} {s s' : Shared Call} {pc pc' : Pc}
  {act : Act Call}

theorem Moves.later (moved : Moves o call s pc act s' pc') : s.conn.Later s'.conn := by
  cases moved with
  | gate opened idle =>
      refine ⟨id, Finset.Subset.refl _, id, fun closed => ?_, fun _ => rfl⟩
      rw [opened] at closed
      cases closed
  | closeDone err => exact ⟨id, Finset.Subset.refl _, fun _ => rfl, fun _ => rfl, fun _ => rfl⟩
  | closing stage next after conn closed | closed stage after conn closed =>
      exact (Conn.close_closes closed).later
  | _ => exact ⟨id, Finset.Subset.refl _, id, fun _ => rfl, fun _ => rfl⟩

theorem Moves.ordered (ordered : s.conn.Ordered o) (knows : pc.Knows o s.conn)
    (moved : Moves o call s pc act s' pc') : s'.conn.Ordered o := by
  cases moved with
  | closing stage next after conn closed | closed stage after conn closed =>
      exact (Conn.close_closes closed).ordered ordered knows
  | _ => exact ⟨ordered.signalled, ordered.socket, ordered.finished⟩

theorem Moves.knows (ordered : s.conn.Ordered o) (knows : pc.Knows o s.conn)
    (moved : Moves o call s pc act s' pc') : pc'.Knows o s'.conn := by
  cases moved with
  | closing stage next after conn closed => exact (Conn.close_closes closed).knows knows
  | closed stage after conn closed =>
      cases after with
      | close => trivial
      | shutdown => exact ((Conn.close_closes closed).returns ordered knows).1
  | readServing serving => exact knows
  | notServing idle => exact ⟨knows, idle⟩
  | done finished => exact finished
  | ctxEnds _ err running => exact knows
  | _ => trivial

theorem Moves.reader_knows (moved : Moves o call s pc act s' pc') {i : Nat}
    (knows : (s.reader i).stage.Knows o s.conn) : (s'.reader i).stage.Knows o s'.conn := by
  have later := knows.later moved.later
  cases moved with
  | spawn k more =>
      by_cases same : i = k
      · subst same
        simp only [Shared.spawn, Shared.setReader, Function.update_self]
        split <;> trivial
      · simp only [Shared.spawn, Shared.setReader, Shared.withConn, Function.update_of_ne same]
        exact later
  | _ => exact later

end Knowledge

section Runs

variable {Call : Type} {o : Options}

private theorem documented_setup {w : World Call} {i : Nat} {act : ReaderAct}
    (allowed : documented w (.reader i act) = true) (setup : (w.shared.reader i).stage = .setup) :
    act ≠ .fails .transient ∧ act ≠ .fails .truncated := by
  constructor <;> rintro rfl <;> simp only [documented, setup, Bool.false_eq_true] at allowed

theorem World.Ordered.start (o : Options) : (World.start o : World Call).Ordered o where
  conn := {
    signalled := fun signalled => by cases signalled
    socket := fun k known absent => absurd (Finset.mem_range.mpr known) absent
    finished := fun finished => by cases finished }
  reader _ := trivial
  call _ := trivial

variable [DecidableEq Call] {w next : World Call} {action : Action Call}

theorem World.later (stepped : w.step o action = some next) :
    w.shared.conn.Later next.shared.conn := by
  rcases World.step_cases stepped with ⟨call, act, shared, pc, rfl, moved, rfl⟩ |
    ⟨i, act, conn, reader, rfl, moved, rfl⟩
  · exact moved.later
  · exact moved.later

theorem World.Ordered.step (sockets : 0 < o.socks) (ordered : w.Ordered o)
    (allowed : documented w action = true) (stepped : w.step o action = some next) :
    next.Ordered o := by
  have later := World.later stepped
  rcases World.step_cases stepped with ⟨call, act, shared, pc, rfl, moved, rfl⟩ |
    ⟨i, act, conn, reader, rfl, moved, rfl⟩
  · refine ⟨moved.ordered ordered.conn (ordered.call call),
      fun i => moved.reader_knows (ordered.reader i), fun other => ?_⟩
    simp only [Function.update_apply]
    split_ifs with acting
    · subst acting
      exact moved.knows ordered.conn (ordered.call other)
    · exact (ordered.call other).later later
  · refine ⟨moved.ordered ordered.conn (ordered.reader i), fun j => ?_,
      fun a => (ordered.call a).later later⟩
    by_cases same : j = i
    · subst same
      simp only [Shared.setReader, Function.update_self]
      exact moved.knows sockets ordered.conn (documented_setup allowed) (ordered.reader j)
    · simp only [Shared.setReader, Shared.withConn, Function.update_of_ne same]
      exact (ordered.reader j).later later

end Runs

end Netx.Udp
