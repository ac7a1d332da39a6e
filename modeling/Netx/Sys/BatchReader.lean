import Netx.Bytes.Memory
import Netx.Bytes.Order
import Netx.Netip.Addr
import Netx.Sys.ReadErr
import Mathlib.Logic.Function.Basic

/-!
# Batched receiving

`BatchReader` lays out one slot for each buffer and has `recvmmsg` fill the first few.
The memory of the slots keeps what earlier calls left in it.
-/

set_option autoImplicit false

namespace Netx.Sys

open Bytes Netip

/-- The byte order of the machine and the names of its network interfaces. -/
structure Platform where
  host : Order
  interfaceByIndex : Nat → Option String

/-- The sender of a datagram as the kernel knows it. -/
inductive Source where
  | inet4 (addr : List.Vector UInt8 4) (port : UInt16)
  | inet6 (addr : List.Vector UInt8 16) (port : UInt16) (flowinfo scopeId : UInt32)

structure Datagram where
  payload : List UInt8
  flags : Int32
  control : List UInt8
  source : Source

def afInet : Nat := 2

def afInet6 : Nat := 10

/-- `sizeof(struct sockaddr_any)` -/
def sizeofSockaddrAny : Nat := 112

/-- The `sockaddr` that the kernel stores for a sender. -/
def Platform.sockaddr (p : Platform) : Source → List UInt8
  | .inet4 addr port =>
      p.host.encode 2 afInet ++ (Order.big.encode 2 port.toNat ++
        (addr.toList ++ List.replicate 8 0))
  | .inet6 addr port flowinfo scopeId =>
      p.host.encode 2 afInet6 ++ (Order.big.encode 2 port.toNat ++
        (p.host.encode 4 flowinfo.toNat ++ (addr.toList ++ p.host.encode 4 scopeId.toNat)))

/-- A `mmsghdr` with its `iovec`: where the buffer and the control data of the slot lie,
and what the kernel reports. -/
structure Mmsghdr where
  base : Nat
  size : Nat
  control : Option Nat
  namelen : Nat
  controllen : Nat
  flags : Int32
  len : UInt32

/-- A buffer of the caller, as a slice of one array. -/
structure Slice where
  start : Nat
  len : Nat

/-- `bufs` is the array behind the buffers of the caller. -/
structure BatchReader where
  slots : Nat
  msgs : Nat → Mmsghdr
  bufs : Memory
  names : Nat → Memory
  oob : Memory
  oobSize : Nat
  n : Int
  errno : Nat
  zones : UInt32 → Option String

def newBatchReader (array : Memory) (slots : Nat) (bufs : Nat → Slice) (oobSize : Nat) :
    BatchReader where
  slots
  msgs i := {
    base := (bufs i).start
    size := (bufs i).len
    control := if oobSize > 0 then some (i * oobSize) else none
    namelen := 0
    controllen := 0
    flags := 0
    len := 0 }
  bufs := array
  names _ _ := 0
  oob _ := 0
  oobSize
  n := 0
  errno := 0
  zones _ := none

/-- A system call that `recv` repeats at once or once the poller says so. -/
inductive Wait where
  | eintr
  | eagain

inductive Result where
  | received (messages : List Datagram)
  | failed (errno : Nat)
  | closed

/-- How one `Read` goes: the system calls in vain and then the last one, or `Close`. -/
structure Return where
  waits : List Wait
  result : Result

namespace BatchReader

/-- What `recv` does to the headers before a system call. -/
def reset (r : BatchReader) : BatchReader :=
  { r with msgs := fun i =>
      { r.msgs i with namelen := sizeofSockaddrAny, controllen := r.oobSize, flags := 0 } }

/-- The kernel puts a datagram into slot `i`. -/
def fill (p : Platform) (r : BatchReader) (i : Nat) (m : Datagram) : BatchReader :=
  let h := r.msgs i
  let data := m.payload.take h.size
  let name := p.sockaddr m.source
  let control := m.control.take h.controllen
  { r with
    bufs := r.bufs.write h.base data
    names := Function.update r.names i ((r.names i).write 0 (name.take h.namelen))
    oob := h.control.elim r.oob (r.oob.write · control)
    msgs := Function.update r.msgs i
      { h with
        len := UInt32.ofNat data.length
        namelen := name.length
        controllen := control.length
        flags := m.flags } }

/-- The kernel puts datagrams into the slots from `i` on. -/
def recvmmsg (p : Platform) (r : BatchReader) (i : Nat) : List Datagram → BatchReader
  | [] => r
  | m :: ms => recvmmsg p (r.fill p i m) (i + 1) ms

def wait (r : BatchReader) : Wait → BatchReader
  | .eintr => r
  | .eagain => r.reset

def read (p : Platform) (r : BatchReader) (ret : Return) :
    BatchReader × Except SocketError Int :=
  let r := ret.waits.foldl wait { r with n := 0, errno := 0 }.reset
  match ret.result with
  | .closed => (r, .error (.opError "raw-read" .errClosed))
  | .failed errno =>
      ({ r with n := -1, errno }, .error (.syscallError "recvmmsg" (.errno errno)))
  | .received messages =>
      let r := { r.recvmmsg p 0 messages with n := messages.length, errno := 0 }
      (r, .ok r.n)

def zone (p : Platform) (r : BatchReader) (id : UInt32) : String × BatchReader :=
  match r.zones id with
  | some z => (z, r)
  | none =>
      let z := (p.interfaceByIndex id.toNat).getD (toString id.toNat)
      (z, { r with zones := Function.update r.zones id (some z) })

/-- `port` reads the bytes of its argument as they lie in memory. -/
def port (p : Platform) (n : UInt16) : UInt16 :=
  let b := p.host.encode 2 n.toNat
  (b.getD 0 0).toUInt16 <<< 8 ||| (b.getD 1 0).toUInt16

def addr (p : Platform) (r : BatchReader) (sa : Memory) : AddrPort × BatchReader :=
  let family := p.host.decode (sa.read 0 2)
  let inPort := UInt16.ofNat (p.host.decode (sa.read 2 2))
  if family = afInet then (⟨.addrFrom4 (sa.block 4 4), port p inPort⟩, r)
  else if family = afInet6 then
    let a := (Addr.addrFrom16 (sa.block 8 16)).unmap
    let scopeId := UInt32.ofNat (p.host.decode (sa.read 24 4))
    if scopeId ≠ 0 ∧ a.is6 then
      let (z, r) := r.zone p scopeId
      (⟨a.withZone z, port p inPort⟩, r)
    else (⟨a, port p inPort⟩, r)
  else (⟨.zero, 0⟩, r)

/-- What `Message` returns. -/
structure Message where
  size : Nat
  oob : List UInt8
  flags : Int64
  source : AddrPort

def message (p : Platform) (r : BatchReader) (i : Nat) : Message × BatchReader :=
  let m := r.msgs i
  let oob := if r.oobSize > 0 then r.oob.read (i * r.oobSize) m.controllen else []
  let (source, r) := r.addr p (r.names i)
  (⟨m.len.toNat, oob, m.flags.toInt64, source⟩, r)

end BatchReader

end Netx.Sys
