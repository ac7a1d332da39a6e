import Mathlib.Algebra.Ring.Nat
import Mathlib.Data.List.Basic

/-! Unsigned numbers as bytes, in either byte order. -/

set_option autoImplicit false

namespace Netx.Bytes

inductive Order where
  | little
  | big
  deriving DecidableEq, Repr

/-- The lowest `width` bytes of a number, lowest first. -/
def lowBytes : Nat → Nat → List UInt8
  | 0, _ => []
  | width + 1, n => UInt8.ofNat n :: lowBytes width (n / 256)

/-- The number whose bytes are given lowest first. -/
def ofLowBytes : List UInt8 → Nat
  | [] => 0
  | byte :: rest => byte.toNat + 256 * ofLowBytes rest

namespace Order

def encode (order : Order) (width n : Nat) : List UInt8 :=
  match order with
  | .little => lowBytes width n
  | .big => (lowBytes width n).reverse

def decode (order : Order) (bytes : List UInt8) : Nat :=
  match order with
  | .little => ofLowBytes bytes
  | .big => ofLowBytes bytes.reverse

end Order

@[simp] theorem length_lowBytes (width n : Nat) : (lowBytes width n).length = width := by
  induction width generalizing n with
  | zero => rfl
  | succ width ih => rw [lowBytes, List.length_cons, ih]

theorem ofLowBytes_lowBytes {width n : Nat} (fits : n < 256 ^ width) :
    ofLowBytes (lowBytes width n) = n := by
  induction width generalizing n with
  | zero =>
      obtain rfl : n = 0 := Nat.lt_one_iff.mp fits
      rfl
  | succ width ih =>
      have high : n / 256 < 256 ^ width := by
        rw [Nat.div_lt_iff_lt_mul (by decide), ← Nat.pow_succ]
        exact fits
      have low : (UInt8.ofNat n).toNat = n % 256 := UInt8.toNat_ofNat'
      rw [lowBytes, ofLowBytes, ih high, low]
      omega

theorem ofLowBytes_lt (bytes : List UInt8) : ofLowBytes bytes < 256 ^ bytes.length := by
  induction bytes with
  | nil => exact Nat.one_pos
  | cons byte rest ih =>
      have small : byte.toNat < 256 := byte.toNat_lt
      rw [ofLowBytes, List.length_cons, Nat.pow_succ]
      omega

theorem lowBytes_ofLowBytes (bytes : List UInt8) :
    lowBytes bytes.length (ofLowBytes bytes) = bytes := by
  induction bytes with
  | nil => rfl
  | cons byte rest ih =>
      have small : byte.toNat < 256 := byte.toNat_lt
      have high : (byte.toNat + 256 * ofLowBytes rest) / 256 = ofLowBytes rest := by omega
      have low : UInt8.ofNat (byte.toNat + 256 * ofLowBytes rest) = byte := by
        apply UInt8.toNat_inj.mp
        rw [UInt8.toNat_ofNat']
        omega
      rw [ofLowBytes, List.length_cons, lowBytes, high, low, ih]

namespace Order

variable {order : Order}

@[simp] theorem length_encode (width n : Nat) : (order.encode width n).length = width := by
  cases order with
  | little => exact length_lowBytes width n
  | big => rw [encode, List.length_reverse, length_lowBytes]

@[simp] theorem decode_encode {width n : Nat} (fits : n < 256 ^ width) :
    order.decode (order.encode width n) = n := by
  cases order with
  | little => exact ofLowBytes_lowBytes fits
  | big => rw [encode, decode, List.reverse_reverse, ofLowBytes_lowBytes fits]

/-- A number among other bytes is read back from its place. -/
theorem decode_placed {width n start : Nat} {before after : List UInt8}
    (place : before.length = start) (fits : n < 256 ^ width) :
    order.decode (((before ++ (order.encode width n ++ after)).drop start).take width) = n := by
  rw [List.drop_left' place, List.take_left' (length_encode width n), decode_encode fits]

theorem decode_lt (bytes : List UInt8) : order.decode bytes < 256 ^ bytes.length := by
  cases order with
  | little => exact ofLowBytes_lt bytes
  | big =>
      have bound := ofLowBytes_lt bytes.reverse
      rwa [List.length_reverse] at bound

theorem encode_decode (bytes : List UInt8) :
    order.encode bytes.length (order.decode bytes) = bytes := by
  cases order with
  | little => exact lowBytes_ofLowBytes bytes
  | big =>
      have back := lowBytes_ofLowBytes bytes.reverse
      rw [List.length_reverse] at back
      rw [encode, decode, back, List.reverse_reverse]

end Order

end Netx.Bytes
