import Netx.Udp.Receive

/-!
# Batches do not change what is received

One datagram has one effect on a receiver, whichever loop takes it.
-/

set_option autoImplicit false

namespace Netx.Udp

open Bytes Netip Sys

section Meaning

variable (p : Platform) (classify : Nat → ReadErr) (s : Settings) (reader : Nat)

/-- The effect of a datagram. -/
def Receiver.receive (r : Receiver) (m : Datagram) : Receiver :=
  let r := { r with
    backoff := 0
    drops := (dropCount p.host (m.control.take OOBSize)).elim r.drops r.drops.observe }
  if m.flags.toInt64 &&& msgTrunc ≠ 0 then { r with truncated := r.truncated + 1 }
  else
    { r with
      recvPackets := r.recvPackets + 1
      recvBytes := r.recvBytes + UInt64.ofNat (m.payload.take s.max).length
      handled := r.handled ++ [⟨m.payload.take s.max, p.sender m.source, reader⟩] }

/-- The effect of what happens at the socket, up to the event that stops the reader. -/
def Receiver.run (r : Receiver) : List Event → Receiver
  | [] => r
  | .datagram m :: rest => Receiver.run (r.receive p s reader m) rest
  | .failed errno closing :: rest =>
      let r := r.readFailed classify (.errno errno) closing
      if r.stopped then r else Receiver.run r rest
  | .closed :: _ => { r with stopped := true }

theorem Receiver.receive_backoff (r : Receiver) (m : Datagram) :
    (r.receive p s reader m).backoff = 0 := by
  unfold Receiver.receive
  split <;> rfl

theorem Receiver.observeDrops_eq (r : Receiver) (oob : List UInt8) :
    r.observeDrops p oob =
      { r with drops := (dropCount p.host oob).elim r.drops r.drops.observe } := by
  unfold Receiver.observeDrops
  split
  · cases dropCount p.host oob <;> rfl
  · rename_i empty
    obtain rfl : oob = [] := List.eq_nil_of_length_eq_zero (by omega)
    rfl

private theorem readOne_receives (b : Buffers) (r : Receiver) (m : Datagram) :
    (readOne p s reader b r m).2 = r.receive p s reader m := by
  have control := @Memory.read_write_self b.oob 0 (m.control.take OOBSize)
  have data := @Memory.read_write_self b.data 0 (m.payload.take s.max)
  simp only [readOne, readMsgUDPAddrPort, control, data, Receiver.observeDrops_eq]
  rw [Receiver.receive]
  split <;> rfl

/-- Only the errno inside an error matters. -/
theorem Receiver.readFailed_errno (r : Receiver) (closing : Bool) {err : SocketError}
    {errno : Nat} (inside : err.asErrno = some errno) (opened : err.isErrClosed = false) :
    r.readFailed classify err closing = r.readFailed classify (.errno errno) closing := by
  unfold Receiver.readFailed classifyRead
  rw [opened, inside]
  rfl

private theorem readLoop_runs (b : Buffers) (r : Receiver) (events : List Event) :
    readLoop p classify s reader b r events = r.run p classify s reader events := by
  induction events generalizing b r with
  | nil => rfl
  | cons event rest ih =>
      cases event with
      | datagram m =>
          rw [readLoop, Receiver.run, ← readOne_receives p s reader b]
          exact ih _ _
      | failed errno closing =>
          rw [readLoop, Receiver.run, r.readFailed_errno classify closing rfl rfl]
          simp only [ih]
      | closed => rfl

section Batches

variable {p s} {br : BatchReader} {r : Receiver}

private theorem readMessage_receives {i : Nat} {m : Datagram}
    (laid : br.Laid s.max OOBSize) (names : p.Names br.zones)
    (holds : br.Holds p s.max OOBSize i m) (fresh : r.backoff = 0) :
    ∃ zones, readMessage p s reader br r i =
      ({ br with zones }, r.receive p s reader m) ∧ p.Names zones := by
  have small : s.max < 2 ^ 32 := Nat.lt_of_le_of_lt s.max_le (by decide)
  obtain ⟨zones, shown, kept⟩ := holds.message laid (by decide) small names
  refine ⟨zones, ?_, kept⟩
  simp only [readMessage, shown, Receiver.observeDrops_eq, holds.data]
  rw [Receiver.receive]
  simp only [← fresh]
  split <;> rfl

/-- The inner loop of `readBatch` takes the datagrams of the slots in order. -/
theorem readMessages_receive {i : Nat} {ms : List Datagram} (laid : br.Laid s.max OOBSize)
    (names : p.Names br.zones)
    (holds : ∀ j m, ms[j]? = some m → br.Holds p s.max OOBSize (i + j) m)
    (fresh : r.backoff = 0) :
    ∃ zones, readMessages p s reader br r i ms.length =
      ({ br with zones }, ms.foldl (Receiver.receive p s reader) r) ∧ p.Names zones := by
  induction ms generalizing br r i with
  | nil => exact ⟨br.zones, rfl, names⟩
  | cons m ms ih =>
      obtain ⟨zones, first, kept⟩ :=
        readMessage_receives reader laid names (holds 0 m rfl) fresh
      have laid' : BatchReader.Laid s.max OOBSize { br with zones } :=
        ⟨laid.base, laid.size, laid.control, laid.oobSize⟩
      have holds' : ∀ j m', ms[j]? = some m' →
          BatchReader.Holds p s.max OOBSize { br with zones } (i + 1 + j) m' := by
        intro j m' listed
        have held := holds (j + 1) m' listed
        rw [Nat.add_comm j 1, ← Nat.add_assoc] at held
        exact ⟨held.len, held.data, held.controllen, held.control, held.flags, held.name⟩
      obtain ⟨zones', rest, kept'⟩ := ih laid' kept holds' (r.receive_backoff p s reader m)
      rw [Nat.add_zero] at first
      refine ⟨zones', ?_, kept'⟩
      rw [List.length_cons, readMessages, first]
      exact rest

private theorem run_datagrams (ms : List Datagram) (r : Receiver) (rest : List Event) :
    r.run p classify s reader (ms.map .datagram ++ rest) =
      Receiver.run p classify s reader (ms.foldl (Receiver.receive p s reader) r) rest := by
  induction ms generalizing r with
  | nil => rfl
  | cons m ms ih => exact ih _

private theorem batchLoop_runs {reads : List BatchRead} (laid : br.Laid s.max OOBSize)
    (names : p.Names br.zones) (fits : ∀ b ∈ reads, b.Fits s.batch) :
    batchLoop p classify s reader br r reads =
      r.run p classify s reader (reads.flatMap BatchRead.events) := by
  induction reads generalizing br r with
  | nil => rfl
  | cons b rest ih =>
      have fitsRest : ∀ b' ∈ rest, b'.Fits s.batch := fun b' member =>
        fits b' (List.mem_cons_of_mem _ member)
      have fitsHere := fits b List.mem_cons_self
      obtain ⟨⟨waits, result⟩, closing⟩ := b
      cases result with
      | closed =>
          obtain ⟨⟨br', closed, _⟩, _⟩ := laid.read_failed (p := p) waits
          rw [batchLoop, closed]
          rfl
      | failed errno =>
          obtain ⟨br', failed, laid', zones⟩ := (laid.read_failed (p := p) waits).2 errno
          rw [batchLoop, failed]
          simp only [List.flatMap_cons, BatchRead.events, List.singleton_append, Receiver.run]
          rw [r.readFailed_errno classify closing rfl rfl]
          split
          · rfl
          · exact ih laid' (zones ▸ names) fitsRest
      | received ms =>
          obtain ⟨br', received, laid', zones, holds⟩ := laid.read_received (p := p) waits ms
          have holds' : ∀ j m, ms[j]? = some m → br'.Holds p s.max OOBSize (0 + j) m := by
            intro j m listed
            rw [Nat.zero_add]
            exact holds j m listed
          obtain ⟨zones', taken, kept⟩ := readMessages_receive reader
            (r := { r with backoff := 0 }) laid' (zones ▸ names) holds' rfl
          have laid'' : BatchReader.Laid s.max OOBSize { br' with zones := zones' } :=
            ⟨laid'.base, laid'.size, laid'.control, laid'.oobSize⟩
          have first : ms.foldl (Receiver.receive p s reader) { r with backoff := 0 } =
              ms.foldl (Receiver.receive p s reader) r := by
            cases ms with
            | nil => exact absurd fitsHere.1 (Nat.not_succ_le_zero 0)
            | cons m ms => rfl
          rw [batchLoop, received]
          simp only [Int.toNat_natCast, taken, first, List.flatMap_cons, BatchRead.events]
          rw [run_datagrams]
          exact ih laid'' kept fitsRest

end Batches

/-- However the kernel splits what happens at a socket into batches, the handler gets the
same packets and the counters are the same as with one datagram at a time. -/
theorem batched_read_agrees (r : Receiver) (reads : List BatchRead)
    (fits : ∀ b ∈ reads, b.Fits s.batch) :
    s.read p classify reader r reads =
      readLoop p classify s reader ⟨fun _ => 0, fun _ => 0⟩ r
        (reads.flatMap BatchRead.events) := by
  rw [Settings.read, readLoop_runs]
  split
  · refine batchLoop_runs classify reader (.new _ _ (by decide)) (fun id z => nofun) fits
  · rfl

end Meaning

/-- Little-endian, with one interface. -/
def laptop : Platform where
  host := .little
  interfaceByIndex i := if i = 3 then some "eth0" else none

def smallSettings : Settings where
  readers := 1
  socks := 1
  batch := 4
  max := 5
  max_pos := by decide
  max_le := by decide

/-- An IPv4-mapped sender, a truncated datagram that reports 7 drops, a link-local sender
and then a full queue. -/
def burst : List BatchRead := [
  ⟨⟨[.eintr, .eagain], .received [
    ⟨[1, 2, 3], 0, [], .inet6 ⟨[0, 0, 0, 0, 0, 0, 0, 0, 0, 0, 0xff, 0xff, 10, 0, 0, 1], rfl⟩
      53 0 3⟩,
    ⟨[1, 2, 3, 4, 5, 6], 0x20, [20, 0, 0, 0, 0, 0, 0, 0, 1, 0, 0, 0, 40, 0, 0, 0, 7, 0, 0, 0],
      .inet4 ⟨[10, 0, 0, 2], rfl⟩ 53⟩,
    ⟨[9], 0, [], .inet6 ⟨[0xfe, 0x80, 0, 0, 0, 0, 0, 0, 0, 0, 0, 0, 0, 0, 0, 1], rfl⟩
      5353 0 3⟩]⟩, false⟩,
  ⟨⟨[], .failed 105⟩, false⟩]

def idleReceiver : Receiver := ⟨0, 0, 0, 0, ⟨0, 0⟩, 0, [], false⟩

theorem batched_read_agrees_burst :
    (∀ b ∈ burst, b.Fits smallSettings.batch) ∧
    smallSettings.read laptop classifyLinux 0 idleReceiver burst =
      ⟨2, 4, 1, 1, ⟨7, 7⟩, 5000000,
        [⟨[1, 2, 3], ⟨.v4 0x0a000001, 53⟩, 0⟩,
          ⟨[9], ⟨.v6 0xfe800000000000000000000000000001 "eth0", 5353⟩, 0⟩], false⟩ ∧
    smallSettings.read laptop classifyLinux 0 idleReceiver burst =
      readLoop laptop classifyLinux smallSettings 0 ⟨fun _ => 0, fun _ => 0⟩ idleReceiver
        (burst.flatMap BatchRead.events) := by
  have fits : ∀ b ∈ burst, b.Fits smallSettings.batch := by decide
  refine ⟨fits, ?_, batched_read_agrees laptop classifyLinux smallSettings 0 idleReceiver burst
    fits⟩
  decide +kernel

end Netx.Udp
