import Netx.Runtime.Calls
import Netx.Sync.Once
import Netx.Transition.System
import Mathlib.Data.Finset.Erase
import Mathlib.Data.Finset.Range

/-!
# The UDP connection

Any number of `Serve`, `Close` and `Shutdown` calls on one `Conn`, and the
readers of the `Serve` that passes the gate. A step is one critical section, one
atomic or channel operation, one socket closed, or one return from a read or
from the handler. The sockets, the handler and the contexts are the environment.
-/

set_option autoImplicit false

namespace Netx.Udp

open Errors Sync
open Netx.Runtime (Op Reply)

def ErrClosed : Err := .new 30 "udp: closed"

/-- What `Listen` settles on: the number of readers and sockets, and how many
datagrams one read may return. -/
structure Options where
  readers : Nat
  socks : Nat
  batch : Nat

/-- `sockets` are the open ones by number. A channel closed twice or a negative
wait group would panic and sets `crashed`. -/
structure Conn where
  serving : Bool := false
  closed : Bool := false
  fatal : Option Err := none
  done : Bool := false
  closing : Bool := false
  closeOnce : Once := .unused
  sockets : Finset Nat
  wg : Int := 0
  crashed : Bool := false

/-- The stages of `Close` inside its `sync.Once`. -/
inductive Closing where
  | enter
  | set
  | signal
  | socket (k : Nat)
  | leave
  deriving DecidableEq, Repr

/-- One step of `Close`, and the next one unless it is over. -/
def Conn.close (o : Options) (c : Conn) : Closing → Option (Conn × Option Closing)
  | .enter =>
      match c.closeOnce with
      | .unused => some ({ c with closeOnce := .running }, some .set)
      | .running => none
      | .finished => some (c, none)
  | .set => some ({ c with closed := true }, some .signal)
  | .signal =>
      some ({ c with closing := true, crashed := c.crashed || c.closing }, some (.socket 0))
  | .socket k =>
      if k < o.socks then some ({ c with sockets := c.sockets.erase k }, some (.socket (k + 1)))
      else some (c, some .leave)
  | .leave => some ({ c with closeOnce := .finished }, none)

/-- What a read or its setup failed with, as `readFailed` tells errors apart. -/
inductive Failure where
  | netClosed
  | truncated
  | transient
  | fatal (err : Err)

/-- The next step of a reader. `leaves` marks a failed setup, after which the
reader stops whatever `readFailed` says. A message is the length of its data, or
`none` if it was truncated. -/
inductive Stage where
  | absent
  | setup
  | reading
  | messages (left : List (Option Nat))
  | handling (left : List (Option Nat))
  | failed (err : Err)
  | closing (stage : Closing)
  | backoff (leaves : Bool)
  | finished
  | gone

/-- A counter is kept as all that was added to it, of which a `Load` sees the lowest 64 bits. -/
structure Reader where
  stage : Stage := .absent
  recvPackets : Nat := 0
  recvBytes : Nat := 0
  truncated : Nat := 0
  recvErrors : Nat := 0

def Reader.goto (r : Reader) (stage : Stage) : Reader := { r with stage }

/-- `readFailed` up to its first lock or wait. -/
def Reader.readFailed (r : Reader) (leaves : Bool) : Failure → Reader
  | .netClosed => r.goto .finished
  | .truncated =>
      { r with
        truncated := r.truncated + 1
        stage := if leaves then .finished else .reading }
  | .transient => { r with recvErrors := r.recvErrors + 1, stage := .backoff leaves }
  | .fatal err => { r with recvErrors := r.recvErrors + 1, stage := .failed err }

def readError (err : Err) : Err :=
  .wrapped 31 "udp: read: %w" err

/-- The critical section of `readFailed`. -/
def Conn.fail (c : Conn) (err : Err) : Conn :=
  if c.fatal = none ∧ c.closed = false then { c with fatal := some (readError err) } else c

def Conn.wgDone (c : Conn) : Conn :=
  { c with wg := c.wg - 1, crashed := c.crashed || decide (c.wg - 1 < 0) }

inductive ReaderAct where
  | next
  | receive (messages : List (Option Nat))
  | fails (failure : Failure)
  | handled
  | timer
  | woken

/-- The steps of reader `i`. A read fails with `net.ErrClosed` only on a closed
socket and returns at most a batch of messages. -/
def read (o : Options) (i : Nat) (c : Conn) (r : Reader) : ReaderAct → Option (Conn × Reader)
  | .next =>
      match r.stage with
      | .setup => some (c, r.goto .reading)
      | .messages [] => some (c, r.goto .reading)
      | .messages (none :: left) =>
          some (c, { r with truncated := r.truncated + 1, stage := .messages left })
      | .messages (some n :: left) =>
          some (c, { r with
            recvPackets := r.recvPackets + 1
            recvBytes := r.recvBytes + n
            stage := .handling left })
      | .failed err => some (c.fail err, r.goto (.closing .enter))
      | .closing stage =>
          (c.close o stage).map fun (c, stage) =>
            (c, r.goto (stage.elim .finished .closing))
      | .finished => some (c.wgDone, r.goto .gone)
      | _ => none
  | .receive messages =>
      match r.stage with
      | .reading =>
          if 0 < messages.length ∧ messages.length ≤ o.batch then
            some (c, r.goto (.messages messages))
          else none
      | _ => none
  | .fails failure =>
      match r.stage, failure with
      | .setup, .netClosed | .reading, .netClosed =>
          if i % o.socks ∈ c.sockets then none else some (c, r.goto .finished)
      | .setup, failure => some (c, r.readFailed true failure)
      | .reading, failure => some (c, r.readFailed false failure)
      | _, _ => none
  | .handled =>
      match r.stage with
      | .handling left => some (c, r.goto (.messages left))
      | _ => none
  | .timer =>
      match r.stage with
      | .backoff leaves => some (c, r.goto (if leaves then .finished else .reading))
      | _ => none
  | .woken =>
      match r.stage with
      | .backoff _ => if c.closing then some (c, r.goto .finished) else none
      | _ => none

/-- What a reader can do at each of its stages. -/
inductive Reads (o : Options) (i : Nat) (c : Conn) (r : Reader) :
    ReaderAct → Conn → Reader → Prop where
  | setup : r.stage = .setup → Reads o i c r .next c (r.goto .reading)
  | handledAll : r.stage = .messages [] → Reads o i c r .next c (r.goto .reading)
  | truncated (left : List (Option Nat)) : r.stage = .messages (none :: left) →
      Reads o i c r .next c { r with truncated := r.truncated + 1, stage := .messages left }
  | message (n : Nat) (left : List (Option Nat)) : r.stage = .messages (some n :: left) →
      Reads o i c r .next c { r with
        recvPackets := r.recvPackets + 1
        recvBytes := r.recvBytes + n
        stage := .handling left }
  | failed (err : Err) : r.stage = .failed err →
      Reads o i c r .next (c.fail err) (r.goto (.closing .enter))
  | closing (stage : Closing) (next : Option Closing) (conn : Conn) :
      r.stage = .closing stage → c.close o stage = some (conn, next) →
      Reads o i c r .next conn (r.goto (next.elim .finished .closing))
  | finished : r.stage = .finished → Reads o i c r .next c.wgDone (r.goto .gone)
  | receive (messages : List (Option Nat)) : r.stage = .reading → 0 < messages.length →
      messages.length ≤ o.batch →
      Reads o i c r (.receive messages) c (r.goto (.messages messages))
  | netClosed : r.stage = .setup ∨ r.stage = .reading → i % o.socks ∉ c.sockets →
      Reads o i c r (.fails .netClosed) c (r.goto .finished)
  | fails (leaves : Bool) (failure : Failure) :
      r.stage = (if leaves then .setup else .reading) → failure ≠ .netClosed →
      Reads o i c r (.fails failure) c (r.readFailed leaves failure)
  | handled (left : List (Option Nat)) : r.stage = .handling left →
      Reads o i c r .handled c (r.goto (.messages left))
  | timer (leaves : Bool) : r.stage = .backoff leaves →
      Reads o i c r .timer c (r.goto (if leaves then .finished else .reading))
  | woken (leaves : Bool) : r.stage = .backoff leaves → c.closing = true →
      Reads o i c r .woken c (r.goto .finished)

private theorem read_reads {o : Options} {i : Nat} {c c' : Conn} {r r' : Reader} {act : ReaderAct}
    (stepped : read o i c r act = some (c', r')) : Reads o i c r act c' r' := by
  cases act with
  | next =>
      simp only [read] at stepped
      split at stepped
      · cases stepped; exact .setup ‹_›
      · cases stepped; exact .handledAll ‹_›
      · cases stepped; exact .truncated _ ‹_›
      · cases stepped; exact .message _ _ ‹_›
      · cases stepped; exact .failed _ ‹_›
      · obtain ⟨⟨conn, next⟩, closed, same⟩ := Option.map_eq_some_iff.mp stepped
        cases same
        exact .closing _ next conn ‹_› closed
      · cases stepped; exact .finished ‹_›
      · cases stepped
  | receive messages =>
      simp only [read] at stepped
      split at stepped
      · obtain ⟨⟨positive, fits⟩, same⟩ := Option.ite_none_right_eq_some.mp stepped
        cases same
        exact .receive messages ‹_› positive fits
      · cases stepped
  | fails failure =>
      simp only [read] at stepped
      split at stepped
      · obtain ⟨closed, same⟩ := Option.ite_none_left_eq_some.mp stepped
        cases same
        exact .netClosed (.inl ‹_›) closed
      · obtain ⟨closed, same⟩ := Option.ite_none_left_eq_some.mp stepped
        cases same
        exact .netClosed (.inr ‹_›) closed
      · rename_i here other
        cases stepped
        exact .fails true _ here other
      · rename_i here other
        cases stepped
        exact .fails false _ here other
      · cases stepped
  | handled =>
      simp only [read] at stepped
      split at stepped
      · cases stepped; exact .handled _ ‹_›
      · cases stepped
  | timer =>
      simp only [read] at stepped
      split at stepped
      · cases stepped; exact .timer _ ‹_›
      · cases stepped
  | woken =>
      simp only [read] at stepped
      split at stepped
      · obtain ⟨closing, same⟩ := Option.ite_none_right_eq_some.mp stepped
        cases same
        exact .woken _ ‹_› closing
      · cases stepped

/-- What follows `Close`: its return, or the rest of a `Shutdown`. -/
inductive AfterClose where
  | close
  | shutdown
  deriving DecidableEq, Repr

inductive Pc where
  | idle
  | gate
  | afterFunc
  | spawn (k : Nat)
  | wait
  | readFatal
  | unregister (err : Option Err)
  | closeDone (err : Option Err)
  | close (stage : Closing) (after : AfterClose)
  | readServing
  | select
  | returned (reply : Reply)
  deriving DecidableEq

/-- Everything but the program points. `armed` are the `Serve` calls whose
`AfterFunc` is registered, `ctx` the errors of the contexts that are done. -/
structure Shared (Call : Type) where
  conn : Conn
  reader : Nat → Reader
  ctx : Call → Option Err
  armed : Finset Call

inductive Act (Call : Type) where
  | call (op : Op)
  | fire (serve : Call)
  | next
  | done
  | ctxDone
  | ctxEnds (err : Err)

def AfterClose.next : AfterClose → Pc
  | .close => .returned .closed
  | .shutdown => .readServing

section Calls

variable {Call : Type} [DecidableEq Call]

def Shared.withConn (s : Shared Call) (conn : Conn) : Shared Call :=
  { s with conn }

def Shared.setReader (s : Shared Call) (i : Nat) (r : Reader) : Shared Call :=
  { s with reader := Function.update s.reader i r }

/-- One turn of the loop of `Serve` that starts the readers. -/
def Shared.spawn (o : Options) (s : Shared Call) (k : Nat) : Shared Call :=
  (s.withConn { s.conn with wg := s.conn.wg + 1 }).setReader k
    { s.reader k with stage := if 1 < o.batch then .setup else .reading }

/-- The steps of a call that wait for nobody. -/
def next (o : Options) (call : Call) (s : Shared Call) : Pc → Option (Shared Call × Pc)
  | .gate =>
      if s.conn.closed then some (s, .returned (.refused ErrClosed))
      else if s.conn.serving then
        some (s, .returned (.refused (.errorf "udp: Serve called more than once")))
      else some (s.withConn { s.conn with serving := true }, .afterFunc)
  | .afterFunc => some ({ s with armed := insert call s.armed }, .spawn 0)
  | .spawn k => if k < o.readers then some (s.spawn o k, .spawn (k + 1)) else some (s, .wait)
  | .wait => if s.conn.wg = 0 then some (s, .readFatal) else none
  | .readFatal => some (s, .unregister s.conn.fatal)
  | .unregister err => some ({ s with armed := s.armed.erase call }, .closeDone err)
  | .closeDone err =>
      some (s.withConn { s.conn with
          done := true
          crashed := s.conn.crashed || s.conn.done }, .returned (.served err))
  | .close stage after =>
      (s.conn.close o stage).map fun (conn, stage) =>
        (s.withConn conn, stage.elim after.next (.close · after))
  | .readServing =>
      if s.conn.serving then some (s, .select) else some (s, .returned .notServing)
  | _ => none

def effect (o : Options) (call : Call) (s : Shared Call) (pc : Pc) :
    Act Call → Option (Shared Call × Pc)
  | .call .serve => match pc with | .idle => some (s, .gate) | _ => none
  | .call .close => match pc with | .idle => some (s, .close .enter .close) | _ => none
  | .call .shutdown => match pc with | .idle => some (s, .close .enter .shutdown) | _ => none
  | .fire serve =>
      match pc with
      | .idle =>
          if serve ∈ s.armed ∧ (s.ctx serve).isSome = true then
            some ({ s with armed := s.armed.erase serve }, .close .enter .close)
          else none
      | _ => none
  | .next => next o call s pc
  | .done =>
      match pc with
      | .select => if s.conn.done then some (s, .returned .shutdownDone) else none
      | _ => none
  | .ctxDone =>
      match pc, s.ctx call with
      | .select, some err => some (s, .returned (.shutdownCut err))
      | _, _ => none
  | .ctxEnds err =>
      match s.ctx call with
      | none => some ({ s with ctx := Function.update s.ctx call (some err) }, pc)
      | some _ => none

/-- What a call can do at each of its program points. -/
inductive Moves (o : Options) (call : Call) (s : Shared Call) :
    Pc → Act Call → Shared Call → Pc → Prop where
  | serve : Moves o call s .idle (.call .serve) s .gate
  | close : Moves o call s .idle (.call .close) s (.close .enter .close)
  | shutdown : Moves o call s .idle (.call .shutdown) s (.close .enter .shutdown)
  | fire (serve : Call) : serve ∈ s.armed → (s.ctx serve).isSome = true →
      Moves o call s .idle (.fire serve) { s with armed := s.armed.erase serve }
        (.close .enter .close)
  | gateClosed : s.conn.closed = true →
      Moves o call s .gate .next s (.returned (.refused ErrClosed))
  | gateServing : s.conn.serving = true → Moves o call s .gate .next s
      (.returned (.refused (.errorf "udp: Serve called more than once")))
  | gate : s.conn.closed = false → s.conn.serving = false → Moves o call s .gate .next
      (s.withConn { s.conn with serving := true }) .afterFunc
  | afterFunc : Moves o call s .afterFunc .next { s with armed := insert call s.armed } (.spawn 0)
  | spawn (k : Nat) : k < o.readers →
      Moves o call s (.spawn k) .next (s.spawn o k) (.spawn (k + 1))
  | spawned (k : Nat) : ¬k < o.readers → Moves o call s (.spawn k) .next s .wait
  | wait : s.conn.wg = 0 → Moves o call s .wait .next s .readFatal
  | readFatal : Moves o call s .readFatal .next s (.unregister s.conn.fatal)
  | unregister (err : Option Err) : Moves o call s (.unregister err) .next
      { s with armed := s.armed.erase call } (.closeDone err)
  | closeDone (err : Option Err) : Moves o call s (.closeDone err) .next
      (s.withConn { s.conn with done := true, crashed := s.conn.crashed || s.conn.done })
      (.returned (.served err))
  | closing (stage next : Closing) (after : AfterClose) (conn : Conn) :
      s.conn.close o stage = some (conn, some next) →
      Moves o call s (.close stage after) .next (s.withConn conn) (.close next after)
  | closed (stage : Closing) (after : AfterClose) (conn : Conn) :
      s.conn.close o stage = some (conn, none) →
      Moves o call s (.close stage after) .next (s.withConn conn) after.next
  | readServing : s.conn.serving = true → Moves o call s .readServing .next s .select
  | notServing : s.conn.serving = false →
      Moves o call s .readServing .next s (.returned .notServing)
  | done : s.conn.done = true → Moves o call s .select .done s (.returned .shutdownDone)
  | ctxDone (err : Err) : s.ctx call = some err →
      Moves o call s .select .ctxDone s (.returned (.shutdownCut err))
  | ctxEnds (pc : Pc) (err : Err) : s.ctx call = none → Moves o call s pc (.ctxEnds err)
      { s with ctx := Function.update s.ctx call (some err) } pc

theorem next_moves {o : Options} {call : Call} {s s' : Shared Call} {pc pc' : Pc}
    (found : next o call s pc = some (s', pc')) : Moves o call s pc .next s' pc' := by
  cases pc with
  | gate =>
      simp only [next] at found
      split at found
      · cases found
        exact .gateClosed ‹_›
      · split at found
        · cases found
          exact .gateServing ‹_›
        · rename_i open_ idle
          cases found
          exact .gate (by simpa using open_) (by simpa using idle)
  | spawn k =>
      simp only [next] at found
      split at found
      · cases found
        exact .spawn k ‹_›
      · cases found
        exact .spawned k ‹_›
  | wait =>
      obtain ⟨finished, same⟩ := Option.ite_none_right_eq_some.mp found
      cases same
      exact .wait finished
  | close stage after =>
      obtain ⟨⟨conn, next⟩, closed, same⟩ := Option.map_eq_some_iff.mp found
      cases same
      cases next with
      | none => exact .closed stage after conn closed
      | some next => exact .closing stage next after conn closed
  | readServing =>
      simp only [next] at found
      split at found
      · cases found
        exact .readServing ‹_›
      · rename_i idle
        cases found
        exact .notServing (by simpa using idle)
  | afterFunc => cases found; exact .afterFunc
  | readFatal => cases found; exact .readFatal
  | unregister err => cases found; exact .unregister err
  | closeDone err => cases found; exact .closeDone err
  | _ => cases found

theorem effect_moves {o : Options} {call : Call} {s s' : Shared Call} {pc pc' : Pc}
    {act : Act Call} (found : effect o call s pc act = some (s', pc')) :
    Moves o call s pc act s' pc' := by
  cases act with
  | call op =>
      cases op with
      | serve =>
          cases pc with
          | idle => cases found; exact .serve
          | _ => cases found
      | close =>
          cases pc with
          | idle => cases found; exact .close
          | _ => cases found
      | shutdown =>
          cases pc with
          | idle => cases found; exact .shutdown
          | _ => cases found
  | fire serve =>
      cases pc with
      | idle =>
          obtain ⟨⟨armed, ended⟩, same⟩ := Option.ite_none_right_eq_some.mp found
          cases same
          exact .fire serve armed ended
      | _ => cases found
  | next => exact next_moves found
  | done =>
      cases pc with
      | select =>
          obtain ⟨finished, same⟩ := Option.ite_none_right_eq_some.mp found
          cases same
          exact .done finished
      | _ => cases found
  | ctxDone =>
      simp only [effect] at found
      split at found
      · cases found
        exact .ctxDone _ ‹_›
      · cases found
  | ctxEnds err =>
      simp only [effect] at found
      split at found
      · cases found
        exact .ctxEnds pc err ‹_›
      · cases found

end Calls

structure World (Call : Type) where
  shared : Shared Call
  pc : Call → Pc

/-- A call acts, or a reader. -/
inductive Action (Call : Type) where
  | call (call : Call) (act : Act Call)
  | reader (i : Nat) (act : ReaderAct)

section System

variable {Call : Type} [DecidableEq Call]

def World.step (o : Options) (w : World Call) : Action Call → Option (World Call)
  | .call call act =>
      (effect o call w.shared (w.pc call) act).map fun (shared, pc) =>
        { shared, pc := Function.update w.pc call pc }
  | .reader i act =>
      (read o i w.shared.conn (w.shared.reader i) act).map fun (conn, reader) =>
        { w with shared := (w.shared.withConn conn).setReader i reader }

/-- `Listen` has just returned. -/
def World.start (o : Options) : World Call where
  shared := {
    conn := { sockets := Finset.range o.socks }
    reader := fun _ => {}
    ctx := fun _ => none
    armed := ∅ }
  pc := fun _ => .idle

theorem World.step_cases {o : Options} {w next : World Call} {action : Action Call}
    (stepped : w.step o action = some next) :
    (∃ call act shared pc, action = .call call act ∧
      Moves o call w.shared (w.pc call) act shared pc ∧
      next = { shared, pc := Function.update w.pc call pc }) ∨
    ∃ i act conn reader, action = .reader i act ∧
      Reads o i w.shared.conn (w.shared.reader i) act conn reader ∧
      next = { w with shared := (w.shared.withConn conn).setReader i reader } := by
  cases action with
  | call call act =>
      obtain ⟨⟨shared, pc⟩, found, same⟩ := Option.map_eq_some_iff.mp stepped
      exact .inl ⟨call, act, shared, pc, rfl, effect_moves found, same.symm⟩
  | reader i act =>
      obtain ⟨⟨conn, reader⟩, found, same⟩ := Option.map_eq_some_iff.mp stepped
      exact .inr ⟨i, act, conn, reader, rfl, read_reads found, same.symm⟩

def system (Call : Type) [DecidableEq Call] (o : Options) :
    Transition.System (World Call) (Action Call) where
  initial w := w = .start o
  step := World.step o

end System

end Netx.Udp
