import Netx.Sys.BatchSlots
import Netx.Sys.DropCount
import Netx.Udp.Conn

/-!
# Receiving datagrams

The loop of one reader, one datagram at a time and in batches. The system calls
answer it with datagrams and errors; the handler observes the packets it is given.
-/

set_option autoImplicit false

namespace Netx.Udp

open Bytes Netip Sys

def MaxDatagram : Nat := 65000

def maxBatch : Nat := 1024

def DefaultBatch : Nat := 8

/-- The options of `Listen` that are numbers, and whether sockets share the port. -/
structure ListenOptions where
  readers : Int
  maxPacket : Int
  batch : Int
  reusePort : Bool

/-- What `Listen` settles on, with the size of a receive buffer. -/
structure Settings extends Options where
  max : Nat
  max_pos : 0 < max
  max_le : max ≤ MaxDatagram

/-- The number of sockets. -/
def ListenOptions.nsock (o : ListenOptions) : Int :=
  if o.reusePort then (if o.readers = 0 then 1 else o.readers) else 1

def ListenOptions.batchSize (batchSupported : Bool) (o : ListenOptions) : Int :=
  if ¬batchSupported then 1
  else if o.batch = 0 ∧ (if o.readers = 0 then 1 else o.readers) > o.nsock then 1
  else if o.batch = 0 then DefaultBatch
  else o.batch

/-- The checks and defaults of `Listen`. -/
def listen (handler batchSupported : Bool) (o : ListenOptions) : Except String Settings :=
  if ¬handler then .error "udp: nil handler"
  else if o.readers < 0 ∨ o.maxPacket < 0 ∨ o.batch < 0 then
    .error "udp: options must not be negative"
  else if large : o.maxPacket > MaxDatagram then
    .error s!"udp: MaxPacket {o.maxPacket} exceeds MaxDatagram {MaxDatagram}"
  else if o.batch > maxBatch then .error s!"udp: Batch {o.batch} exceeds {maxBatch}"
  else .ok {
    readers := if o.readers = 0 then 1 else o.readers.toNat
    socks := o.nsock.toNat
    batch := (o.batchSize batchSupported).toNat
    max := if o.maxPacket ≤ 0 then MaxDatagram else o.maxPacket.toNat
    max_pos := by
      split
      · decide
      · omega
    max_le := by
      split
      · exact le_rfl
      · omega }

theorem listen_socks {handler batchSupported : Bool} {o : ListenOptions} {settings : Settings}
    (listened : listen handler batchSupported o = .ok settings) : 0 < settings.socks := by
  unfold listen at listened
  split at listened
  · cases listened
  · split at listened
    · cases listened
    · split at listened
      · cases listened
      · split at listened
        · cases listened
        · cases listened
          show 0 < o.nsock.toNat
          unfold ListenOptions.nsock
          omega

structure DropCounter where
  last : UInt32
  total : UInt64
  deriving DecidableEq, Repr

/-- `observe` with nobody else at the counter, so that its compare-and-swap succeeds. -/
def DropCounter.observe (d : DropCounter) (raw : UInt32) : DropCounter :=
  let delta := (raw - d.last).toInt32
  if delta ≤ 0 then d
  else { last := raw, total := d.total + delta.toInt64.toUInt64 }

structure Packet where
  data : List UInt8
  source : AddrPort
  reader : Nat
  deriving DecidableEq

/-- The counters of a reader and of its socket, the delay after a transient error, and
the packets given to the handler. -/
structure Receiver where
  recvPackets : UInt64
  recvBytes : UInt64
  truncated : UInt64
  recvErrors : UInt64
  drops : DropCounter
  backoff : Int
  handled : List Packet
  stopped : Bool
  deriving DecidableEq

/-- `backoff.Next`, in nanoseconds. -/
def backoffNext (d : Int) : Int :=
  min (max (d * 2) 5000000) 1000000000

def msgTrunc : Int64 := 0x20

/-- The kernel's drop count in the control data, if there is any. -/
def Receiver.observeDrops (p : Platform) (r : Receiver) (oob : List UInt8) : Receiver :=
  if oob.length > 0 then
    match dropCount p.host oob with
    | some d => { r with drops := r.drops.observe d }
    | none => r
  else r

/-- `closing` says whether the connection is closed during the delay. After a fatal error
the reader closes the connection itself. -/
def Receiver.readFailed (classify : Nat → ReadErr) (r : Receiver) (err : SocketError)
    (closing : Bool) : Receiver :=
  if err.isErrClosed then { r with stopped := true }
  else
    match classifyRead classify err with
    | .truncated => { r with truncated := r.truncated + 1 }
    | .transient =>
        { r with
          recvErrors := r.recvErrors + 1
          backoff := backoffNext r.backoff
          stopped := closing }
    | .fatal => { r with recvErrors := r.recvErrors + 1, stopped := true }

/-- What happens at a socket, one datagram or error after the other. -/
inductive Event where
  | datagram (m : Datagram)
  | failed (errno : Nat) (closing : Bool)
  | closed

section Single

variable (p : Platform) (classify : Nat → ReadErr) (s : Settings) (reader : Nat)

/-- The buffers of a reader that takes one datagram at a time. -/
structure Buffers where
  data : Memory
  oob : Memory

/-- What `ReadMsgUDPAddrPort` returns. -/
structure ReadMsg where
  n : Nat
  oobn : Nat
  flags : Int64
  source : AddrPort

/-- `ReadMsgUDPAddrPort` receives a datagram. -/
def readMsgUDPAddrPort (b : Buffers) (m : Datagram) : Buffers × ReadMsg :=
  let data := m.payload.take s.max
  let control := m.control.take OOBSize
  ({ data := b.data.write 0 data, oob := b.oob.write 0 control },
    { n := data.length
      oobn := control.length
      flags := m.flags.toInt64
      source := p.readFrom m.source })

/-- What `read` does with a datagram. -/
def readOne (b : Buffers) (r : Receiver) (m : Datagram) : Buffers × Receiver :=
  let (b, msg) := readMsgUDPAddrPort p s b m
  let r := { r with backoff := 0 }
  let r := r.observeDrops p (b.oob.read 0 msg.oobn)
  if msg.flags &&& msgTrunc ≠ 0 then (b, { r with truncated := r.truncated + 1 })
  else
    (b, { r with
      recvPackets := r.recvPackets + 1
      recvBytes := r.recvBytes + UInt64.ofNat msg.n
      handled := r.handled ++
        [⟨b.data.read 0 msg.n, ⟨msg.source.addr.unmap, msg.source.port⟩, reader⟩] })

/-- The loop of `read` over what happens at the socket. -/
def readLoop (b : Buffers) (r : Receiver) : List Event → Receiver
  | [] => r
  | .datagram m :: rest =>
      let (b, r) := readOne p s reader b r m
      readLoop b r rest
  | .failed errno closing :: rest =>
      let r := r.readFailed classify
        (.opError "read" (.syscallError "recvmsg" (.errno errno))) closing
      if r.stopped then r else readLoop b r rest
  | .closed :: rest =>
      let r := r.readFailed classify (.opError "read" .errClosed) false
      if r.stopped then r else readLoop b r rest

end Single

/-- One `Read` of a batch, and whether the connection is closed in the delay after it. -/
structure BatchRead where
  ret : Return
  closing : Bool

/-- What happened at the socket. -/
def BatchRead.events (b : BatchRead) : List Event :=
  match b.ret.result with
  | .received messages => messages.map .datagram
  | .failed errno => [.failed errno b.closing]
  | .closed => [.closed]

/-- A call returns at least one datagram and at most as many as there are slots. -/
def BatchRead.Fits (batch : Nat) (b : BatchRead) : Prop :=
  match b.ret.result with
  | .received messages => 1 ≤ messages.length ∧ messages.length ≤ batch
  | _ => True

instance (batch : Nat) (b : BatchRead) : Decidable (b.Fits batch) := by
  unfold BatchRead.Fits
  split <;> infer_instance

section Batch

variable (p : Platform) (classify : Nat → ReadErr) (s : Settings) (reader : Nat)

/-- The body of the inner loop of `readBatch`. -/
def readMessage (br : BatchReader) (r : Receiver) (i : Nat) : BatchReader × Receiver :=
  let (msg, br) := br.message p i
  let r := r.observeDrops p msg.oob
  if msg.flags &&& msgTrunc ≠ 0 then (br, { r with truncated := r.truncated + 1 })
  else
    (br, { r with
      recvPackets := r.recvPackets + 1
      recvBytes := r.recvBytes + UInt64.ofNat msg.size
      handled := r.handled ++ [⟨br.bufs.read (i * s.max) msg.size, msg.source, reader⟩] })

/-- The inner loop of `readBatch`: the next message and how many are left. -/
def readMessages (br : BatchReader) (r : Receiver) (i : Nat) : Nat → BatchReader × Receiver
  | 0 => (br, r)
  | left + 1 =>
      let (br, r) := readMessage p s reader br r i
      readMessages br r (i + 1) left

def batchLoop (br : BatchReader) (r : Receiver) : List BatchRead → Receiver
  | [] => r
  | b :: rest =>
      match br.read p b.ret with
      | (br, .error err) =>
          let r := r.readFailed classify err b.closing
          if r.stopped then r else batchLoop br r rest
      | (br, .ok n) =>
          let (br, r) := readMessages p s reader br { r with backoff := 0 } 0 n.toNat
          batchLoop br r rest

/-- `setup` is the error of `SyscallConn`. -/
def readBatch (setup : Option SocketError) (r : Receiver) (reads : List BatchRead) : Receiver :=
  match setup with
  | some err => { r.readFailed classify err false with stopped := true }
  | none =>
      let br := newBatchReader (fun _ => 0) s.batch (fun i => ⟨i * s.max, s.max⟩) OOBSize
      batchLoop p classify s reader br r reads

/-- The loop of a reader, with a batch of one the loop over single datagrams. -/
def Settings.read (r : Receiver) (reads : List BatchRead) : Receiver :=
  if s.batch > 1 then readBatch p classify s reader none r reads
  else readLoop p classify s reader ⟨fun _ => 0, fun _ => 0⟩ r (reads.flatMap BatchRead.events)

end Batch

end Netx.Udp
