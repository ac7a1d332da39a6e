import Netx.Sys.DropCountProperties

/-! Control data as the kernel writes it, a list of padded records, and what `DropCount`
returns for any control data. -/

set_option autoImplicit false

namespace Netx.Sys

open Bytes

/-- A control message with the bytes that align the next one. -/
structure Record where
  level : Int32
  type : Int32
  payload : List UInt8
  padding : List UInt8
  sized : hdr + payload.length < 2 ^ 63
  padded : ((hdr + payload.length + padding.length : Nat) : Int) =
    cmsgAlign ((hdr + payload.length : Nat) : Int)

namespace Record

variable (host : Order) (r : Record)

def len : Nat :=
  hdr + r.payload.length

def message : List UInt8 :=
  host.encode 8 r.len ++ (host.encode 4 r.level.toUInt32.toNat ++
    (host.encode 4 r.type.toUInt32.toNat ++ r.payload))

/-- The drop count the record holds. -/
def drops : Option UInt32 :=
  if r.level = 1 ∧ r.type = 40 ∧ 4 ≤ r.payload.length then
    some (UInt32.ofNat (host.decode (r.payload.take 4)))
  else none

end Record

/-- Records one after the other, with `kept` bytes of the padding of the last one. -/
def encodeRecords (host : Order) (kept : Nat) : List Record → List UInt8
  | [] => []
  | [last] => last.message host ++ last.padding.take kept
  | r :: next :: rest => r.message host ++ (r.padding ++ encodeRecords host kept (next :: rest))

variable {host : Order} {r : Record} {tail : List UInt8}

@[simp] theorem Record.length_message : (r.message host).length = r.len := by
  simp only [message, len, List.length_append, Order.length_encode, hdr]
  omega

private theorem bmod_of_lt {n : Nat} (small : n < 2 ^ 63) : (n : Int).bmod (2 ^ 64) = n := by
  apply Int.bmod_eq_of_le <;> omega

private theorem lengthAt_message : lengthAt host (r.message host ++ tail) 0 = r.len := by
  have placed : host.decode (((r.message host ++ tail).drop 0).take 8) = r.len := by
    rw [Record.message, List.append_assoc, ← List.nil_append (host.encode 8 r.len ++ _)]
    exact Order.decode_placed List.length_nil (Nat.lt_trans r.sized (by decide))
  unfold lengthAt
  rw [placed]
  exact bmod_of_lt r.sized

private theorem levelAt_message :
    levelAt host (r.message host ++ tail) 0 = r.level.toUInt32.toNat := by
  rw [Record.message, List.append_assoc, List.append_assoc]
  exact Order.decode_placed (Order.length_encode _ _) r.level.toUInt32.toNat_lt

private theorem typeAt_message :
    typeAt host (r.message host ++ tail) 0 = r.type.toUInt32.toNat := by
  rw [Record.message, List.append_assoc, List.append_assoc, List.append_assoc,
    ← List.append_assoc]
  exact Order.decode_placed (by simp) r.type.toUInt32.toNat_lt

private theorem countAt_message (payload : 4 ≤ r.payload.length) :
    countAt host (r.message host ++ tail) 0 =
      UInt32.ofNat (host.decode (r.payload.take 4)) := by
  have bytes : ((r.message host ++ tail).drop (0 + hdr)).take 4 = r.payload.take 4 := by
    rw [Record.message, ← List.append_assoc, ← List.append_assoc, List.append_assoc,
      List.drop_left' (by simp [hdr]), List.take_append_of_le_length payload]
  rw [countAt, bytes]

private theorem recordAt_message : RecordAt host (r.message host ++ tail) 0 := by
  have total : r.len = hdr + r.payload.length := rfl
  have length : (r.message host ++ tail).length = r.len + tail.length := by
    rw [List.length_append, Record.length_message]
  exact ⟨by omega, by rw [lengthAt_message]; omega, by rw [lengthAt_message]; omega⟩

private theorem bits_eq_iff {a b : Int32} : a.toUInt32.toNat = b.toUInt32.toNat ↔ a = b := by
  constructor
  · intro same
    cases a
    cases b
    simpa using UInt32.toNat_inj.mp same
  · rintro rfl
    rfl

private theorem countRecordAt_message :
    CountRecordAt host (r.message host ++ tail) 0 ↔
      r.level = 1 ∧ r.type = 40 ∧ 4 ≤ r.payload.length := by
  have total : r.len = hdr + r.payload.length := rfl
  have level : levelAt host (r.message host ++ tail) 0 = solSocket ↔ r.level = 1 := by
    rw [levelAt_message, ← bits_eq_iff]
    rfl
  have type : typeAt host (r.message host ++ tail) 0 = soRxqOvfl ↔ r.type = 40 := by
    rw [typeAt_message, ← bits_eq_iff]
    rfl
  rw [← level, ← type]
  constructor
  · intro count
    have payload := count.payload
    rw [lengthAt_message] at payload
    exact ⟨count.level, count.type, by omega⟩
  · rintro ⟨sameLevel, sameType, payload⟩
    exact ⟨recordAt_message, sameLevel, sameType, by rw [lengthAt_message]; omega⟩

/-- One record of the loop: its drop count, or what the rest holds if the padding is
there. -/
theorem walk_message (fuel : Nat) :
    walk host (fuel + 1) (r.message host ++ tail) =
      (r.drops host).or
        (if tail.length < r.padding.length then none
          else walk host fuel (tail.drop r.padding.length)) := by
  change walk host (fuel + 1) ((r.message host ++ tail).drop 0) = _
  by_cases count : CountRecordAt host (r.message host ++ tail) 0
  · have held := countRecordAt_message.mp count
    rw [walk_count count, countAt_message held.2.2, Record.drops, if_pos held,
      Option.some_or]
  · have none_held : r.drops host = none :=
      if_neg fun held => count (countRecordAt_message.mpr held)
    have aligned : cmsgAlign r.len = (r.len + r.padding.length : Nat) := r.padded.symm
    have total : (r.message host ++ tail).length = r.len + tail.length := by
      rw [List.length_append, Record.length_message]
    rw [none_held, Option.none_or, walk_other recordAt_message count, lengthAt_message,
      aligned, total]
    by_cases short : tail.length < r.padding.length
    · rw [if_pos (by omega), if_pos short]
    · rw [if_neg (by omega), if_neg short, Nat.zero_add, Int.toNat_natCast, List.drop_append,
        Record.length_message, List.drop_of_length_le (by simp), List.nil_append,
        Nat.add_sub_cancel_left]

private theorem findSome_cons (records : List Record) :
    (r :: records).findSome? (Record.drops host) =
      (r.drops host).or (records.findSome? (Record.drops host)) := by
  rw [List.findSome?_cons]
  cases r.drops host with
  | none => rfl
  | some count => rfl

private theorem walk_nil (fuel : Nat) : walk host fuel [] = none := by
  cases fuel with
  | zero => rfl
  | succ fuel => rfl

private theorem walk_encodeRecords (kept : Nat) (records : List Record) (fuel : Nat)
    (enough : (encodeRecords host kept records).length ≤ fuel) :
    walk host fuel (encodeRecords host kept records) =
      records.findSome? (Record.drops host) := by
  have size : hdr = 16 := rfl
  induction records generalizing fuel with
  | nil => exact walk_nil fuel
  | cons r rest ih =>
      have long : hdr ≤ r.len := Nat.le_add_right _ _
      cases rest with
      | nil =>
          rw [encodeRecords, List.length_append, Record.length_message] at enough
          obtain ⟨fuel, rfl⟩ := Nat.exists_eq_add_one.mpr (by omega : 0 < fuel)
          have ends : (r.padding.take kept).drop r.padding.length = [] :=
            List.drop_of_length_le (List.length_take_le' _ _)
          rw [encodeRecords, walk_message, ends, walk_nil, ite_self, findSome_cons,
            List.findSome?_nil]
      | cons next rest =>
          rw [encodeRecords, List.length_append, List.length_append,
            Record.length_message] at enough
          obtain ⟨fuel, rfl⟩ := Nat.exists_eq_add_one.mpr (by omega : 0 < fuel)
          rw [encodeRecords, findSome_cons (next :: rest), walk_message, if_neg (by simp),
            List.drop_left, ih fuel (by omega)]

private theorem dropCount_encodeRecords (kept : Nat) (records : List Record) :
    dropCount host (encodeRecords host kept records) =
      records.findSome? (Record.drops host) :=
  walk_encodeRecords kept records _ (Nat.le_refl _)

/-- `DropCount` ends without a read outside the control data, finds a count exactly when
the walk over well-formed records comes to one, and reads back what was encoded. -/
theorem dropCount_exact (host : Order) (oob : List UInt8) :
    walkMemory host (oob.length + 1) oob = .ok (dropCount host oob) ∧
      (∀ v, dropCount host oob = some v ↔ FindsFrom host oob 0 v) ∧
      ∀ kept records, dropCount host (encodeRecords host kept records) =
        records.findSome? (Record.drops host) :=
  ⟨walkMemory_dropCount, dropCount_eq_some_iff, dropCount_encodeRecords⟩

end Netx.Sys
