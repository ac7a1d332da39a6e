import Netx.Transition.Tally
import Netx.Udp.CloseOrder
import Netx.Udp.Receive

/-!
# Sending from a UDP connection

`WriteTo`, `Reply` and `Stats` beside everything else that goes on at a `Conn`. A step is
one system call, one atomic operation on a counter, or a step of the connection. A counter is
kept as the number of all that was added to it; its `uint64` is that number modulo `2 ^ 64`.
-/

set_option autoImplicit false

namespace Netx.Udp.Sending

open Netip Transition

inductive Field where
  | recvPackets
  | recvBytes
  | truncated
  | recvErrors
  | sendPackets
  | sendBytes
  | sendErrors
  | kernelDrops
  deriving DecidableEq, Repr

/-- What `WriteToUDPAddrPort` fails with, as `errors.Is` tells it apart. -/
inductive Failure where
  | netClosed
  | other (code : Nat)
  deriving DecidableEq, Repr

inductive SendErr where
  | nilPacket
  | tooLarge
  | closed
  | failed (code : Nat)
  deriving DecidableEq, Repr

def Failure.reported : Failure → SendErr
  | .netClosed => .closed
  | .other code => .failed code

/-- `Reply` reads the reader and the source of its packet. -/
inductive Op where
  | writeTo (b : List UInt8) (dest : AddrPort)
  | reply (p : Option (Int × AddrPort)) (b : List UInt8)
  | stats

/-- The next step of a call: the system call, a counter, or the loads of `Stats` that are
left with the sums so far. -/
inductive Pc where
  | idle
  | write (sock : Nat) (b : List UInt8) (dest : AddrPort)
  | countPacket (sock n : Nat)
  | countBytes (sock n : Nat)
  | countError (sock : Nat) (err : Failure)
  | load (left : List (Field × Nat)) (sums : Field → UInt64)
  | wrote (err : Option SendErr)
  | snapshot (sums : Field → UInt64)

/-- The counters in the order in which `Stats` loads them. -/
def loads (o : Options) : List (Field × Nat) :=
  (List.range o.readers).flatMap (fun i =>
    [(.recvPackets, i), (.recvBytes, i), (.truncated, i), (.recvErrors, i)]) ++
  (List.range o.socks).flatMap (fun i =>
    [(.sendPackets, i), (.sendBytes, i), (.sendErrors, i), (.kernelDrops, i)])

def portSock (o : Options) (dest : AddrPort) : Nat :=
  dest.port.toNat % o.socks

def replySock (o : Options) (reader : Int) (dest : AddrPort) : Nat :=
  if reader < 0 ∨ reader ≥ o.readers then portSock o dest else reader.toNat % o.socks

def write (sock : Nat) (b : List UInt8) (dest : AddrPort) : Pc :=
  if b.length > MaxDatagram then .wrote (some .tooLarge) else .write sock b dest

def enter (o : Options) : Op → Pc
  | .writeTo b dest => write (portSock o dest) b dest
  | .reply none _ => .wrote (some .nilPacket)
  | .reply (some (reader, dest)) b => write (replySock o reader dest) b dest
  | .stats => .load (loads o) fun _ => 0

structure Sent (Caller : Type) where
  caller : Caller
  sock : Nat
  data : List UInt8
  dest : AddrPort

structure World (Call Caller : Type) where
  conn : Udp.World Call
  counter : Field → Nat → Nat
  wire : List (Sent Caller)
  pc : Caller → Pc

/-- A step of the connection, drops that a reader has observed, or a call that is made, goes
on, or has its system call fail. -/
inductive Action (Call Caller : Type) where
  | conn (action : Udp.Action Call)
  | drops (sock n : Nat)
  | call (c : Caller) (op : Op)
  | next (c : Caller)
  | fails (c : Caller) (err : Failure)

section Steps

variable {Call Caller : Type} [DecidableEq Call] [DecidableEq Caller]

def World.count (w : World Call Caller) : Field → Nat → Nat
  | .recvPackets, i => (w.conn.shared.reader i).recvPackets
  | .recvBytes, i => (w.conn.shared.reader i).recvBytes
  | .truncated, i => (w.conn.shared.reader i).truncated
  | .recvErrors, i => (w.conn.shared.reader i).recvErrors
  | field, i => w.counter field i

/-- `Load` of a counter. -/
def World.load (w : World Call Caller) (field : Field) (i : Nat) : UInt64 :=
  .ofNat (w.count field i)

def World.setPc (w : World Call Caller) (c : Caller) (pc : Pc) : World Call Caller :=
  { w with pc := Function.update w.pc c pc }

def World.add (w : World Call Caller) (field : Field) (sock n : Nat) : World Call Caller :=
  let counter := Function.update (w.counter field) sock (w.counter field sock + n)
  { w with counter := Function.update w.counter field counter }

def World.send (w : World Call Caller) (sent : Sent Caller) : World Call Caller :=
  { w with wire := sent :: w.wire }

abbrev World.Opened (w : World Call Caller) (sock : Nat) : Prop :=
  sock ∈ w.conn.shared.conn.sockets

def World.next (w : World Call Caller) (c : Caller) : Option (World Call Caller) :=
  match w.pc c with
  | .write sock b dest =>
      if w.Opened sock then
        some ((w.send ⟨c, sock, b, dest⟩).setPc c (.countPacket sock b.length))
      else none
  | .countPacket sock n => some ((w.add .sendPackets sock 1).setPc c (.countBytes sock n))
  | .countBytes sock n => some ((w.add .sendBytes sock n).setPc c (.wrote none))
  | .countError sock err =>
      some ((w.add .sendErrors sock 1).setPc c (.wrote (some err.reported)))
  | .load ((field, i) :: left) sums =>
      some (w.setPc c (.load left (Function.update sums field (sums field + w.load field i))))
  | .load [] sums => some (w.setPc c (.snapshot sums))
  | .idle | .wrote _ | .snapshot _ => none

/-- A write fails with `net.ErrClosed` only on a closed socket. -/
def World.step (o : Options) (w : World Call Caller) :
    Action Call Caller → Option (World Call Caller)
  | .conn action => (w.conn.step o action).map fun conn => { w with conn }
  | .drops sock n => some (w.add .kernelDrops sock n)
  | .call c op =>
      match w.pc c with
      | .idle => some (w.setPc c (enter o op))
      | _ => none
  | .next c => w.next c
  | .fails c err =>
      match w.pc c with
      | .write sock _ _ =>
          if err = .netClosed ∧ w.Opened sock then none
          else some (w.setPc c (.countError sock err))
      | _ => none

def World.start (o : Options) : World Call Caller where
  conn := .start o
  counter _ _ := 0
  wire := []
  pc _ := .idle

def system (Call Caller : Type) [DecidableEq Call] [DecidableEq Caller] (o : Options) :
    System (World Call Caller) (Action Call Caller) where
  initial w := w = .start o
  step := World.step o

inductive Moves (o : Options) (w : World Call Caller) : World Call Caller → Prop where
  | conn (action : Udp.Action Call) (conn : Udp.World Call) :
      w.conn.step o action = some conn → Moves o w { w with conn }
  | drops (sock n : Nat) : Moves o w (w.add .kernelDrops sock n)
  | call (c : Caller) (op : Op) : w.pc c = .idle → Moves o w (w.setPc c (enter o op))
  | sends (c : Caller) (sock : Nat) (b : List UInt8) (dest : AddrPort) :
      w.pc c = .write sock b dest → w.Opened sock →
      Moves o w ((w.send ⟨c, sock, b, dest⟩).setPc c (.countPacket sock b.length))
  | fails (c : Caller) (sock : Nat) (b : List UInt8) (dest : AddrPort) (err : Failure) :
      w.pc c = .write sock b dest → Moves o w (w.setPc c (.countError sock err))
  | packet (c : Caller) (sock n : Nat) : w.pc c = .countPacket sock n →
      Moves o w ((w.add .sendPackets sock 1).setPc c (.countBytes sock n))
  | bytes (c : Caller) (sock n : Nat) : w.pc c = .countBytes sock n →
      Moves o w ((w.add .sendBytes sock n).setPc c (.wrote none))
  | error (c : Caller) (sock : Nat) (err : Failure) : w.pc c = .countError sock err →
      Moves o w ((w.add .sendErrors sock 1).setPc c (.wrote (some err.reported)))
  | load (c : Caller) (field : Field) (i : Nat) (left : List (Field × Nat))
      (sums : Field → UInt64) : w.pc c = .load ((field, i) :: left) sums →
      Moves o w (w.setPc c (.load left
        (Function.update sums field (sums field + w.load field i))))
  | loaded (c : Caller) (sums : Field → UInt64) : w.pc c = .load [] sums →
      Moves o w (w.setPc c (.snapshot sums))

theorem World.step_moves {o : Options} {w next : World Call Caller}
    {action : Action Call Caller} (stepped : w.step o action = some next) : Moves o w next := by
  cases action with
  | conn action =>
      obtain ⟨conn, inside, rfl⟩ := Option.map_eq_some_iff.mp stepped
      exact .conn action conn inside
  | drops sock n =>
      cases stepped
      exact .drops sock n
  | call c op =>
      simp only [World.step] at stepped
      split at stepped <;> cases stepped
      exact .call c op ‹_›
  | fails c err =>
      simp only [World.step] at stepped
      split at stepped
      · split at stepped <;> cases stepped
        exact .fails c _ _ _ err ‹_›
      · cases stepped
  | next c =>
      simp only [World.step, World.next] at stepped
      split at stepped
      · split at stepped <;> cases stepped
        exact .sends c _ _ _ ‹_› ‹_›
      · cases stepped
        exact .packet c _ _ ‹_›
      · cases stepped
        exact .bytes c _ _ ‹_›
      · cases stepped
        exact .error c _ _ ‹_›
      · cases stepped
        exact .load c _ _ _ _ ‹_›
      · cases stepped
        exact .loaded c _ ‹_›
      all_goals cases stepped

end Steps

theorem World.add_counter {Call Caller : Type} (w : World Call Caller) (field other : Field)
    (sock n at_ : Nat) :
    (w.add field sock n).counter other at_ =
      w.counter other at_ + if other = field ∧ sock = at_ then n else 0 := by
  by_cases same : other = field
  · subst same
    by_cases here : sock = at_
    · subst here
      simp [World.add]
    · simp [World.add, here, Ne.symm here]
  · simp [World.add, same]

end Netx.Udp.Sending
