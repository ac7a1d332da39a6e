import Netx.Udp.Sending

/-!
# What is sent is counted once

A call that returns no error has sent its datagram once, and the counters lag behind the
sockets by the calls in between.
-/

set_option autoImplicit false

namespace Netx.Udp.Sending

open Netip Transition

/-- Datagrams on a socket that the call has sent and not counted yet. -/
def Pc.uncounted (sock : Nat) : Pc → Nat
  | .countPacket at_ _ => if at_ = sock then 1 else 0
  | _ => 0

def Pc.unadded (sock : Nat) : Pc → Nat
  | .countPacket at_ n | .countBytes at_ n => if at_ = sock then n else 0
  | _ => 0

def Pc.sent : Pc → Nat
  | .countPacket _ _ | .countBytes _ _ | .wrote none => 1
  | _ => 0

/-- A system call that is about to be made is one the sockets accept. -/
def Pc.Fits (o : Options) : Pc → Prop
  | .write sock b _ => sock < o.socks ∧ b.length ≤ MaxDatagram
  | _ => True

def Pc.Begins (o : Options) (pc : Pc) : Prop :=
  pc.Fits o ∧ pc.sent = 0 ∧ ∀ sock, pc.uncounted sock = 0 ∧ pc.unadded sock = 0

section Counting

variable {Caller : Type}

def packetsOn (sock : Nat) (wire : List (Sent Caller)) : Nat :=
  wire.countP fun sent => sent.sock = sock

def bytesOn (sock : Nat) (wire : List (Sent Caller)) : Nat :=
  (wire.map fun sent => if sent.sock = sock then sent.data.length else 0).sum

private theorem packetsOn_append (sock : Nat) (front back : List (Sent Caller)) :
    packetsOn sock (front ++ back) = packetsOn sock front + packetsOn sock back :=
  List.countP_append

private theorem bytesOn_append (sock : Nat) (front back : List (Sent Caller)) :
    bytesOn sock (front ++ back) = bytesOn sock front + bytesOn sock back := by
  simp only [bytesOn, List.map_append, List.sum_append]

end Counting

section Runs

variable {Call Caller : Type} [DecidableEq Caller] [Fintype Caller] {o : Options}
  {w next : World Call Caller}

structure World.Accounted (o : Options) (w : World Call Caller) : Prop where
  packets : ∀ sock, w.counter .sendPackets sock + tally Finset.univ w.pc (Pc.uncounted sock) =
    packetsOn sock w.wire
  bytes : ∀ sock, w.counter .sendBytes sock + tally Finset.univ w.pc (Pc.unadded sock) =
    bytesOn sock w.wire
  once : ∀ c, (w.wire.countP fun sent => sent.caller = c) = (w.pc c).sent
  fits : ∀ c, (w.pc c).Fits o
  small : ∀ sent ∈ w.wire, sent.sock < o.socks ∧ sent.data.length ≤ MaxDatagram

theorem World.Accounted.change (accounted : w.Accounted o) {c : Caller} {pc : Pc}
    {fresh : List (Sent Caller)} (pcs : next.pc = Function.update w.pc c pc)
    (wire : next.wire = fresh ++ w.wire)
    (packets : ∀ sock, next.counter .sendPackets sock + pc.uncounted sock =
      w.counter .sendPackets sock + (w.pc c).uncounted sock + packetsOn sock fresh)
    (bytes : ∀ sock, next.counter .sendBytes sock + pc.unadded sock =
      w.counter .sendBytes sock + (w.pc c).unadded sock + bytesOn sock fresh)
    (sent : pc.sent = (w.pc c).sent + fresh.length) (fits : pc.Fits o)
    (own : ∀ sent ∈ fresh, sent.caller = c ∧ sent.sock < o.socks ∧
      sent.data.length ≤ MaxDatagram) : next.Accounted o := by
  have exchange (weight : Pc → Nat) := tally_exchange weight pcs (Finset.mem_univ c)
  refine ⟨fun sock => ?_, fun sock => ?_, fun d => ?_, fun d => ?_, ?_⟩
  · have before := accounted.packets sock
    have moved := exchange (Pc.uncounted sock)
    have counted := packets sock
    rw [wire, packetsOn_append]
    omega
  · have before := accounted.bytes sock
    have moved := exchange (Pc.unadded sock)
    have counted := bytes sock
    rw [wire, bytesOn_append]
    omega
  · rw [wire, List.countP_append, accounted.once d, pcs]
    by_cases same : d = c
    · subst same
      rw [List.countP_eq_length.mpr fun sent member => decide_eq_true (own sent member).1,
        Function.update_self, sent, Nat.add_comm]
    · rw [List.countP_eq_zero.mpr fun sent member here => same ?_, Function.update_of_ne same,
        Nat.zero_add]
      rw [← of_decide_eq_true here, (own sent member).1]
  · rw [pcs]
    by_cases same : d = c
    · rw [same, Function.update_self]
      exact fits
    · rw [Function.update_of_ne same]
      exact accounted.fits d
  · rw [wire]
    exact List.forall_mem_append.mpr ⟨fun sent member => (own sent member).2, accounted.small⟩

private theorem enter_begins (sockets : 0 < o.socks) (op : Op) : (enter o op).Begins o := by
  have wrote {sock : Nat} (known : sock < o.socks) (b : List UInt8) (dest : AddrPort) :
      (write sock b dest).Begins o := by
    unfold write
    split
    · exact ⟨trivial, rfl, fun _ => ⟨rfl, rfl⟩⟩
    · exact ⟨⟨known, Nat.not_lt.mp ‹_›⟩, rfl, fun _ => ⟨rfl, rfl⟩⟩
  have port (dest : AddrPort) : portSock o dest < o.socks := Nat.mod_lt _ sockets
  cases op with
  | writeTo b dest => exact wrote (port dest) b dest
  | stats => exact ⟨trivial, rfl, fun _ => ⟨rfl, rfl⟩⟩
  | reply p b =>
      cases p with
      | none => exact ⟨trivial, rfl, fun _ => ⟨rfl, rfl⟩⟩
      | some packet =>
          refine wrote ?_ b packet.2
          unfold replySock
          split
          · exact port packet.2
          · exact Nat.mod_lt _ sockets

theorem World.Accounted.start (o : Options) : (World.start o : World Call Caller).Accounted o where
  packets _ := (Nat.zero_add _).trans (Finset.sum_eq_zero fun _ _ => rfl)
  bytes _ := (Nat.zero_add _).trans (Finset.sum_eq_zero fun _ _ => rfl)
  once _ := rfl
  fits _ := trivial
  small := List.forall_mem_nil _

variable [DecidableEq Call]

theorem World.Accounted.step (sockets : 0 < o.socks) (accounted : w.Accounted o)
    (moved : Moves o w next) : next.Accounted o := by
  have alone : w.wire = [] ++ w.wire := rfl
  cases moved with
  | conn action conn =>
      exact ⟨accounted.packets, accounted.bytes, accounted.once, accounted.fits, accounted.small⟩
  | drops sock n =>
      refine ⟨fun at_ => ?_, fun at_ => ?_, accounted.once, accounted.fits, accounted.small⟩
      · rw [World.add_counter]
        exact accounted.packets at_
      · rw [World.add_counter]
        exact accounted.bytes at_
  | call c op here =>
      obtain ⟨fits, quiet, nothing⟩ := enter_begins sockets op
      refine accounted.change rfl alone (fun sock => ?_) (fun sock => ?_) ?_ fits
        (List.forall_mem_nil _) <;> rw [here]
      · rw [(nothing sock).1]
        rfl
      · rw [(nothing sock).2]
        rfl
      · exact quiet
  | sends c sock b dest here =>
      have fits := accounted.fits c
      rw [here] at fits
      refine accounted.change rfl List.singleton_append.symm (fun at_ => ?_) (fun at_ => ?_) ?_
        trivial (List.forall_mem_singleton.mpr ⟨rfl, fits⟩) <;> rw [here]
      · simp [World.setPc, World.send, Pc.uncounted, packetsOn]
      · simp [World.setPc, World.send, Pc.unadded, bytesOn]
      · rfl
  | fails c sock b dest err here | loaded c sums here | load c field i left sums here =>
      refine accounted.change rfl alone (fun _ => ?_) (fun _ => ?_) ?_ trivial
        (List.forall_mem_nil _) <;> rw [here] <;> rfl
  | packet c sock n here | bytes c sock n here | error c sock err here =>
      refine accounted.change rfl alone (fun at_ => ?_) (fun at_ => ?_) ?_ trivial
        (List.forall_mem_nil _) <;> rw [here]
      · simp [World.setPc, World.add_counter, Pc.uncounted, packetsOn]
      · simp [World.setPc, World.add_counter, Pc.unadded, bytesOn]
      · rfl

omit [Fintype Caller] in
theorem Moves.opened (moved : Moves o w next) :
    w.conn.shared.conn.Later next.conn.shared.conn := by
  cases moved with
  | conn action conn stepped => exact World.later stepped
  | _ => exact .refl _

structure SendContract (o : Options) (w : World Call Caller) : Prop where
  /-- The counters are exact modulo `2 ^ 64`, but for the calls in between. -/
  packets : ∀ sock, w.load .sendPackets sock +
    .ofNat (tally Finset.univ w.pc (Pc.uncounted sock)) = .ofNat (packetsOn sock w.wire)
  bytes : ∀ sock, w.load .sendBytes sock +
    .ofNat (tally Finset.univ w.pc (Pc.unadded sock)) = .ofNat (bytesOn sock w.wire)
  once : ∀ c, (w.wire.countP fun sent => sent.caller = c) = (w.pc c).sent
  small : ∀ sent ∈ w.wire, sent.sock < o.socks ∧ sent.data.length ≤ MaxDatagram
  /-- Once the sockets are closed nothing is sent any more. -/
  quiet : w.conn.shared.conn.Shut o → ∀ actions later,
    (system Call Caller o).exec w actions = some later → later.wire = w.wire

theorem World.Accounted.quiet (sockets : 0 < o.socks) (accounted : w.Accounted o)
    (shut : w.conn.shared.conn.Shut o) {actions : List (Action Call Caller)}
    {later : World Call Caller} (executed : (system Call Caller o).exec w actions = some later) :
    later.wire = w.wire := by
  have kept := System.exec_keeps
    (fun u : World Call Caller => u.Accounted o ∧ u.conn.shared.conn.Shut o ∧ u.wire = w.wire) ?_
    ⟨accounted, shut, rfl⟩ executed
  · exact kept.2.2
  · rintro u action next ⟨holds, closed, same⟩ stepped
    have moved := World.step_moves stepped
    refine ⟨holds.step sockets moved, moved.opened.shut closed, ?_⟩
    cases moved with
    | sends c sock b dest here opened =>
        have fits := holds.fits c
        rw [here] at fits
        exact absurd opened (closed sock fits.1)
    | _ => exact same

theorem sends_accounted {handler batchSupported : Bool} {asked : ListenOptions}
    {settings : Settings} (listened : listen handler batchSupported asked = .ok settings)
    (reached : (system Call Caller settings.toOptions).Reachable w) :
    SendContract settings.toOptions w := by
  have sockets := listen_socks listened
  have accounted : w.Accounted settings.toOptions := by
    refine reached.invariant (World.Accounted settings.toOptions) ?_ ?_
    · rintro _ rfl
      exact .start settings.toOptions
    · intro before action next _ holds stepped
      exact holds.step sockets (World.step_moves stepped)
  refine ⟨fun sock => ?_, fun sock => ?_, accounted.once, accounted.small,
    fun shut _ _ executed => accounted.quiet sockets shut executed⟩
  · exact (UInt64.ofNat_add _ _).symm.trans (congrArg UInt64.ofNat (accounted.packets sock))
  · exact (UInt64.ofNat_add _ _).symm.trans (congrArg UInt64.ofNat (accounted.bytes sock))

end Runs

/-- Two readers with a socket each. A reply goes out through the socket of the reader, and
`Close` overtakes a write to another port. -/
def overtakenRun : List (Action Unit Bool) :=
  [.call true (.reply (some (1, ⟨.zero, 80⟩)) [1, 2]), .next true, .next true,
    .call false (.writeTo [3] ⟨.zero, 80⟩)] ++
  (.call () (.call .close) :: List.replicate 7 (.call () .next)).map .conn ++
  [.fails false .netClosed, .next false]

theorem sends_accounted_overtaken :
    ∃ settings, listen true true ⟨2, 0, 1, true⟩ = .ok settings ∧ ∃ w : World Unit Bool,
      (system Unit Bool settings.toOptions).exec (.start settings.toOptions) overtakenRun =
        some w ∧
      (w.wire.map (·.sock), w.load .sendPackets 1, w.load .sendBytes 1, w.load .sendErrors 0) =
        ([1], 1, 0, 1) ∧ SendContract settings.toOptions w := by
  have executed : (system Unit Bool ⟨2, 2, 1⟩).exec (.start ⟨2, 2, 1⟩) overtakenRun = some _ := rfl
  have listened : listen true true ⟨2, 0, 1, true⟩ = .ok ⟨⟨2, 2, 1⟩, 65000, by decide, by decide⟩ :=
    rfl
  exact ⟨_, listened, _, executed, rfl, sends_accounted listened (.exec (.initial rfl) executed)⟩

end Netx.Udp.Sending
