import Netx.Sys.BatchReader

/-!
# The slots of a batch

Each message of a batch is read back from its own slot, whatever the slots held
before, and its sender is decoded as package `net` decodes it.
-/

set_option autoImplicit false

namespace Netx.Sys

open Bytes Netip

namespace Platform

variable (p : Platform)

/-- `zoneCache.name` of package `net`. -/
def zoneName (id : UInt32) : String :=
  if id = 0 then "" else (p.interfaceByIndex id.toNat).getD (toString id.toNat)

/-- The address that `ReadMsgUDPAddrPort` reports for a sender. -/
def readFrom : Source → AddrPort
  | .inet4 addr port => ⟨.addrFrom4 addr, port⟩
  | .inet6 addr port _ scopeId => ⟨(Addr.addrFrom16 addr).withZone (p.zoneName scopeId), port⟩

/-- The sender as a handler sees it. -/
def sender (source : Source) : AddrPort :=
  ⟨(p.readFrom source).addr.unmap, (p.readFrom source).port⟩

private theorem length_sockaddr (source : Source) :
    (p.sockaddr source).length ≤ sizeofSockaddrAny := by
  cases source with
  | inet4 addr port => simp [sockaddr, sizeofSockaddrAny]
  | inet6 addr port flowinfo scopeId => simp [sockaddr, sizeofSockaddrAny]

end Platform

section Ports

private theorem big_encode_two (n : Nat) :
    Order.big.encode 2 n = [UInt8.ofNat (n / 256), UInt8.ofNat n] := rfl

/-- The bytes of a port in network order. -/
theorem join_bytes (n : UInt16) :
    (UInt8.ofNat (n.toNat / 256)).toUInt16 <<< 8 ||| (UInt8.ofNat n.toNat).toUInt16 = n := by
  have bound : n.toNat < 65536 := n.toNat_lt
  apply UInt16.toNat_inj.mp
  have low : (UInt8.ofNat n.toNat).toUInt16.toNat = n.toNat % 256 := by
    rw [UInt8.toNat_toUInt16, UInt8.toNat_ofNat']
  have high : ((UInt8.ofNat (n.toNat / 256)).toUInt16 <<< 8).toNat = 2 ^ 8 * (n.toNat / 256) := by
    rw [UInt16.toNat_shiftLeft, UInt8.toNat_toUInt16, UInt8.toNat_ofNat']
    simp only [Nat.shiftLeft_eq, UInt16.toNat_ofNat, Nat.reduceMod, Nat.reducePow]
    omega
  rw [UInt16.toNat_or, low, high, ← Nat.two_pow_add_eq_or_of_lt (by omega)]
  omega

variable (p : Platform)

private theorem port_big (n : UInt16) :
    BatchReader.port p (UInt16.ofNat (p.host.decode (Order.big.encode 2 n.toNat))) = n := by
  have small := p.host.decode_lt (Order.big.encode 2 n.toNat)
  rw [Order.length_encode] at small
  have back := p.host.encode_decode (Order.big.encode 2 n.toNat)
  rw [Order.length_encode] at back
  have loaded : (UInt16.ofNat (p.host.decode (Order.big.encode 2 n.toNat))).toNat =
      p.host.decode (Order.big.encode 2 n.toNat) := by
    rw [UInt16.toNat_ofNat']
    exact Nat.mod_eq_of_lt small
  rw [BatchReader.port, loaded, back, big_encode_two]
  exact join_bytes n

end Ports

section Senders

variable {p : Platform} {stale : Memory}

/-- A field of a record that was stored over stale memory. -/
theorem read_field (before field after : List UInt8) {offset len : Nat}
    (place : before.length = offset) (long : field.length = len) :
    (stale.write 0 (before ++ (field ++ after))).read offset len = field := by
  have inside : offset + len ≤ (before ++ (field ++ after)).length := by
    simp only [List.length_append]
    omega
  have read := @Memory.read_write_inside stale 0 len _ offset inside
  rwa [Nat.zero_add, List.drop_left' place, List.take_left' long] at read

/-- What a reader has cached of the interface names is right. -/
def Platform.Names (p : Platform) (zones : UInt32 → Option String) : Prop :=
  ∀ id z, zones id = some z → z = (p.interfaceByIndex id.toNat).getD (toString id.toNat)

variable {r : BatchReader}

theorem Platform.Names.zone (names : p.Names r.zones) {id : UInt32} (present : id ≠ 0) :
    ∃ zones, r.zone p id = (p.zoneName id, { r with zones }) ∧
      p.Names zones := by
  rw [Platform.zoneName, if_neg present, BatchReader.zone]
  cases cached : r.zones id with
  | some z => exact ⟨r.zones, by rw [names id z cached], names⟩
  | none =>
      refine ⟨_, rfl, fun id' z known => ?_⟩
      rw [Function.update_apply] at known
      split_ifs at known with same
      · subst same
        exact (Option.some.inj known).symm
      · exact names id' z known

theorem Platform.Names.inet4 (names : p.Names r.zones) (bytes : List.Vector UInt8 4)
    (port : UInt16) :
    ∃ zones, r.addr p (stale.write 0 (p.sockaddr (.inet4 bytes port))) =
      (p.sender (.inet4 bytes port), { r with zones }) ∧ p.Names zones := by
  have family : (stale.write 0 (p.sockaddr (.inet4 bytes port))).read 0 2 =
      p.host.encode 2 afInet :=
    read_field [] _ _ rfl (by simp)
  have inPort : (stale.write 0 (p.sockaddr (.inet4 bytes port))).read 2 2 =
      Order.big.encode 2 port.toNat :=
    read_field _ _ _ (by simp) (by simp)
  have block : (stale.write 0 (p.sockaddr (.inet4 bytes port))).block 4 4 = bytes := by
    apply Subtype.ext
    rw [Platform.sockaddr, ← List.append_assoc]
    exact read_field _ _ _ (by simp) (by simp)
  refine ⟨r.zones, ?_, names⟩
  rw [BatchReader.addr]
  simp only [family, inPort, block, port_big, Order.decode_encode (show afInet < 256 ^ 2 by decide),
    if_true]
  rfl

theorem Platform.Names.inet6 (names : p.Names r.zones) (bytes : List.Vector UInt8 16)
    (port : UInt16) (flowinfo scopeId : UInt32) :
    ∃ zones, r.addr p (stale.write 0 (p.sockaddr (.inet6 bytes port flowinfo scopeId))) =
      (p.sender (.inet6 bytes port flowinfo scopeId), { r with zones }) ∧ p.Names zones := by
  have family : (stale.write 0 (p.sockaddr (.inet6 bytes port flowinfo scopeId))).read 0 2 =
      p.host.encode 2 afInet6 :=
    read_field [] _ _ rfl (by simp)
  have inPort : (stale.write 0 (p.sockaddr (.inet6 bytes port flowinfo scopeId))).read 2 2 =
      Order.big.encode 2 port.toNat :=
    read_field _ _ _ (by simp) (by simp)
  have block : (stale.write 0 (p.sockaddr (.inet6 bytes port flowinfo scopeId))).block 8 16 =
      bytes := by
    apply Subtype.ext
    rw [Platform.sockaddr, ← List.append_assoc, ← List.append_assoc]
    exact read_field _ _ _ (by simp) (by simp)
  have scope : (stale.write 0 (p.sockaddr (.inet6 bytes port flowinfo scopeId))).read 24 4 =
      p.host.encode 4 scopeId.toNat := by
    have last := @read_field stale (p.host.encode 2 afInet6 ++ Order.big.encode 2 port.toNat ++
      p.host.encode 4 flowinfo.toNat ++ bytes.toList) (p.host.encode 4 scopeId.toNat) [] 24 4
      (by simp) (by simp)
    simpa [Platform.sockaddr] using last
  have back : UInt32.ofNat (p.host.decode (p.host.encode 4 scopeId.toNat)) = scopeId := by
    rw [Order.decode_encode (show scopeId.toNat < 256 ^ 4 from scopeId.toNat_lt)]
    exact UInt32.ofNat_toNat
  have shown : p.sender (.inet6 bytes port flowinfo scopeId) =
      ⟨(Addr.addrFrom16 bytes).unmap.withZone (p.zoneName scopeId), port⟩ := by
    rw [← Addr.unmap_withZone]
    rfl
  rw [BatchReader.addr]
  simp only [family, inPort, block, scope, back, port_big,
    Order.decode_encode (show afInet6 < 256 ^ 2 by decide), if_true, shown]
  rw [if_neg (by decide)]
  by_cases global : scopeId = 0
  · refine ⟨r.zones, ?_, names⟩
    rw [if_neg fun both => both.1 global, Platform.zoneName, if_pos global,
      ← Addr.unmap_withZone]
    rfl
  · by_cases mapped : (Addr.addrFrom16 bytes).unmap.is6
    · obtain ⟨zones, named, kept⟩ := names.zone global
      refine ⟨zones, ?_, kept⟩
      rw [if_pos ⟨global, mapped⟩, named]
    · refine ⟨r.zones, ?_, names⟩
      rw [if_neg fun both => mapped both.2,
        Addr.withZone_of_not_is6 (Bool.eq_false_iff.mpr mapped)]

theorem Platform.Names.addr (names : p.Names r.zones) (source : Source) :
    ∃ zones, r.addr p (stale.write 0 (p.sockaddr source)) =
      (p.sender source, { r with zones }) ∧ p.Names zones := by
  cases source with
  | inet4 bytes port => exact names.inet4 bytes port
  | inet6 bytes port flowinfo scopeId => exact names.inet6 bytes port flowinfo scopeId

end Senders

namespace BatchReader

/-- Every slot has its own `max` bytes of the buffers and `oobSize` bytes of the control
data. -/
structure Laid (max oobSize : Nat) (r : BatchReader) : Prop where
  base : ∀ i, (r.msgs i).base = i * max
  size : ∀ i, (r.msgs i).size = max
  control : ∀ i, (r.msgs i).control = some (i * oobSize)
  oobSize : r.oobSize = oobSize

/-- The slot is offered to the kernel in full. -/
structure Offered (oobSize : Nat) (r : BatchReader) (i : Nat) : Prop where
  namelen : (r.msgs i).namelen = sizeofSockaddrAny
  controllen : (r.msgs i).controllen = oobSize

/-- Slot `i` holds a datagram, cut to the room that the slot has. -/
structure Holds (p : Platform) (max oobSize : Nat) (r : BatchReader) (i : Nat) (m : Datagram) :
    Prop where
  len : (r.msgs i).len = UInt32.ofNat (m.payload.take max).length
  data : r.bufs.read (i * max) (m.payload.take max).length = m.payload.take max
  controllen : (r.msgs i).controllen = (m.control.take oobSize).length
  control : r.oob.read (i * oobSize) (m.control.take oobSize).length = m.control.take oobSize
  flags : (r.msgs i).flags = m.flags
  name : ∃ stale : Memory, r.names i = stale.write 0 (p.sockaddr m.source)

section Slots

variable {p : Platform} {max oobSize : Nat} {r : BatchReader}

theorem Laid.new (array : Memory) (slots : Nat) (positive : 0 < oobSize) :
    (newBatchReader array slots (fun i => ⟨i * max, max⟩) oobSize).Laid max oobSize where
  base _ := rfl
  size _ := rfl
  control _ := if_pos positive
  oobSize := rfl

theorem Laid.reset (laid : r.Laid max oobSize) : r.reset.Laid max oobSize where
  base := laid.base
  size := laid.size
  control := laid.control
  oobSize := laid.oobSize

theorem Laid.offered (laid : r.Laid max oobSize) (i : Nat) : r.reset.Offered oobSize i where
  namelen := rfl
  controllen := laid.oobSize

variable {i j : Nat}

theorem apart (other : i ≠ j) {size len len' : Nat} (fits : len ≤ size) (fits' : len' ≤ size) :
    i * size + len ≤ j * size ∨ j * size + len' ≤ i * size := by
  rcases Nat.lt_or_gt_of_ne other with less | more
  · have next : (i + 1) * size ≤ j * size := Nat.mul_le_mul_right size less
    rw [Nat.add_mul, Nat.one_mul] at next
    omega
  · have next : (j + 1) * size ≤ i * size := Nat.mul_le_mul_right size more
    rw [Nat.add_mul, Nat.one_mul] at next
    omega

theorem Laid.fill (laid : r.Laid max oobSize) (i : Nat) (m : Datagram) :
    (r.fill p i m).Laid max oobSize := by
  have keep : ∀ j, ((r.fill p i m).msgs j).base = (r.msgs j).base ∧
      ((r.fill p i m).msgs j).size = (r.msgs j).size ∧
      ((r.fill p i m).msgs j).control = (r.msgs j).control := by
    intro j
    by_cases same : j = i
    · subst same
      simp [BatchReader.fill]
    · simp [BatchReader.fill, Function.update_of_ne same]
  exact {
    base := fun j => (keep j).1.trans (laid.base j)
    size := fun j => (keep j).2.1.trans (laid.size j)
    control := fun j => (keep j).2.2.trans (laid.control j)
    oobSize := laid.oobSize }

theorem Offered.fill (offered : r.Offered oobSize j) (other : j ≠ i) (m : Datagram) :
    (r.fill p i m).Offered oobSize j where
  namelen := by
    simp only [BatchReader.fill, Function.update_of_ne other]
    exact offered.namelen
  controllen := by
    simp only [BatchReader.fill, Function.update_of_ne other]
    exact offered.controllen

theorem Laid.fill_holds (laid : r.Laid max oobSize) (offered : r.Offered oobSize i) (m : Datagram) :
    (r.fill p i m).Holds p max oobSize i m where
  len := by simp only [BatchReader.fill, Function.update_self, laid.size]
  data := by
    simp only [BatchReader.fill, laid.size, laid.base]
    exact Memory.read_write_self
  controllen := by simp only [BatchReader.fill, Function.update_self, offered.controllen]
  control := by
    simp only [BatchReader.fill, laid.control, offered.controllen, Option.elim_some]
    exact Memory.read_write_self
  flags := by simp only [BatchReader.fill, Function.update_self]
  name := by
    refine ⟨r.names i, ?_⟩
    simp only [BatchReader.fill, Function.update_self, offered.namelen]
    rw [List.take_of_length_le (p.length_sockaddr m.source)]

theorem Laid.fill_keeps (laid : r.Laid max oobSize) (offered : r.Offered oobSize i) (other : j ≠ i)
    {m m' : Datagram} (holds : r.Holds p max oobSize j m') :
    (r.fill p i m).Holds p max oobSize j m' where
  len := by
    simp only [BatchReader.fill, Function.update_of_ne other]
    exact holds.len
  data := by
    simp only [BatchReader.fill, laid.size, laid.base]
    rw [Memory.read_write_apart (apart other (List.length_take_le _ _) (List.length_take_le _ _))]
    exact holds.data
  controllen := by
    simp only [BatchReader.fill, Function.update_of_ne other]
    exact holds.controllen
  control := by
    simp only [BatchReader.fill, laid.control, offered.controllen, Option.elim_some]
    rw [Memory.read_write_apart (apart other (List.length_take_le _ _) (List.length_take_le _ _))]
    exact holds.control
  flags := by
    simp only [BatchReader.fill, Function.update_of_ne other]
    exact holds.flags
  name := by
    simp only [BatchReader.fill, Function.update_of_ne other]
    exact holds.name

/-- The kernel fills slots one after the other, and the later ones leave the earlier
alone. -/
theorem Laid.recvmmsg (laid : r.Laid max oobSize) (offered : ∀ j, i ≤ j → r.Offered oobSize j)
    (ms : List Datagram) :
    (r.recvmmsg p i ms).Laid max oobSize ∧ (r.recvmmsg p i ms).zones = r.zones ∧
      (∀ j m, ms[j]? = some m → (r.recvmmsg p i ms).Holds p max oobSize (i + j) m) ∧
      ∀ j m, j < i → r.Holds p max oobSize j m →
        (r.recvmmsg p i ms).Holds p max oobSize j m := by
  induction ms generalizing r i with
  | nil => exact ⟨laid, rfl, fun _ _ => nofun, fun _ _ _ holds => holds⟩
  | cons m ms ih =>
      have here := offered i le_rfl
      obtain ⟨laidAll, zones, later, earlier⟩ := ih (laid.fill i m) (i := i + 1)
        fun j above => (offered j (by omega)).fill (by omega) m
      refine ⟨laidAll, zones, ?_, ?_⟩
      · intro j m' listed
        cases j with
        | zero =>
            cases listed
            exact earlier i m (Nat.lt_succ_self i) (laid.fill_holds here m)
        | succ j =>
            have moved := later j m' listed
            rwa [Nat.add_right_comm] at moved
      · intro j m' below holds
        exact earlier j m' (by omega) (laid.fill_keeps here (by omega) holds)

theorem Laid.waits (laid : r.Laid max oobSize) (waits : List Wait) :
    let r' := waits.foldl wait r.reset
    r'.Laid max oobSize ∧ (∀ i, r'.Offered oobSize i) ∧ r'.zones = r.zones := by
  induction waits generalizing r with
  | nil => exact ⟨laid.reset, laid.offered, rfl⟩
  | cons first rest ih =>
      cases first with
      | eintr => exact ih laid
      | eagain => exact ih laid.reset

/-- After a `Read` that received datagrams, the slots hold them in order. -/
theorem Laid.read_received (laid : r.Laid max oobSize) (waits : List Wait)
    (ms : List Datagram) :
    ∃ r', r.read p ⟨waits, .received ms⟩ = (r', .ok ms.length) ∧ r'.Laid max oobSize ∧
      r'.zones = r.zones ∧ ∀ j m, ms[j]? = some m → r'.Holds p max oobSize j m := by
  have cleared : BatchReader.Laid max oobSize { r with n := 0, errno := 0 } :=
    ⟨laid.base, laid.size, laid.control, laid.oobSize⟩
  obtain ⟨waited, offered, zones⟩ := cleared.waits waits
  obtain ⟨laidAll, zonesAll, holds, _⟩ := waited.recvmmsg (p := p) (fun j _ => offered j) ms
  refine ⟨_, rfl, ⟨laidAll.base, laidAll.size, laidAll.control, laidAll.oobSize⟩,
    zonesAll.trans zones, fun j m listed => ?_⟩
  have held := holds j m listed
  rw [Nat.zero_add] at held
  exact ⟨held.len, held.data, held.controllen, held.control, held.flags, held.name⟩

/-- Other results leave the layout and the cached names alone. -/
theorem Laid.read_failed (laid : r.Laid max oobSize) (waits : List Wait) :
    (∃ r', r.read p ⟨waits, .closed⟩ = (r', .error (.opError "raw-read" .errClosed)) ∧
      r'.Laid max oobSize ∧ r'.zones = r.zones) ∧
    ∀ errno, ∃ r', r.read p ⟨waits, .failed errno⟩ =
        (r', .error (.syscallError "recvmmsg" (.errno errno))) ∧
      r'.Laid max oobSize ∧ r'.zones = r.zones := by
  have cleared : BatchReader.Laid max oobSize { r with n := 0, errno := 0 } :=
    ⟨laid.base, laid.size, laid.control, laid.oobSize⟩
  obtain ⟨waited, _, zones⟩ := cleared.waits waits
  refine ⟨⟨_, rfl, waited, zones⟩, fun errno => ⟨_, rfl, ?_, zones⟩⟩
  exact ⟨waited.base, waited.size, waited.control, waited.oobSize⟩

theorem Holds.message {m : Datagram} (holds : r.Holds p max oobSize i m) (laid : r.Laid max oobSize)
    (positive : 0 < oobSize) (small : max < 2 ^ 32) (names : p.Names r.zones) :
    ∃ zones, r.message p i = (⟨(m.payload.take max).length, m.control.take oobSize,
      m.flags.toInt64, p.sender m.source⟩, { r with zones }) ∧ p.Names zones := by
  obtain ⟨stale, name⟩ := holds.name
  obtain ⟨zones, decoded, kept⟩ := @Platform.Names.addr p stale r names m.source
  refine ⟨zones, ?_, kept⟩
  have size : (UInt32.ofNat (m.payload.take max).length).toNat =
      (m.payload.take max).length := by
    rw [UInt32.toNat_ofNat']
    have cut := List.length_take_le max m.payload
    exact Nat.mod_eq_of_lt (by omega)
  simp only [BatchReader.message, name, decoded, holds.len, size, holds.flags, holds.controllen,
    laid.oobSize, positive, if_true, holds.control]

end Slots

end BatchReader

end Netx.Sys
