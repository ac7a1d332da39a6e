import Mathlib.Data.BitVec
import Mathlib.Data.Vector.Basic

/-! Addresses of package `netip` with their zones. -/

set_option autoImplicit false

namespace Netx.Netip

/-- A `netip.Addr`; the zone is empty for an IPv6 address without one, and `zero` is the
invalid zero value. -/
inductive Addr where
  | zero
  | v4 (bits : BitVec 32)
  | v6 (bits : BitVec 128) (zone : String)
  deriving DecidableEq, Repr

/-- Big-endian bytes as one number of `width` bits. -/
def ofBytes (width : Nat) (bytes : List (BitVec 8)) : BitVec width :=
  bytes.foldl (fun bits byte => bits <<< 8 ||| byte.setWidth width) 0

def addrFromSlice (ip : List (BitVec 8)) : Option Addr :=
  match ip.length with
  | 4 => some (.v4 (ofBytes 32 ip))
  | 16 => some (.v6 (ofBytes 128 ip) "")
  | _ => none

namespace Addr

def addrFrom4 (bytes : List.Vector UInt8 4) : Addr :=
  .v4 (ofBytes 32 (bytes.toList.map UInt8.toBitVec))

def addrFrom16 (bytes : List.Vector UInt8 16) : Addr :=
  .v6 (ofBytes 128 (bytes.toList.map UInt8.toBitVec)) ""

def is6 : Addr → Bool
  | .v6 _ _ => true
  | _ => false

/-- `::ffff:a.b.c.d` -/
def is4In6 : Addr → Bool
  | .v6 bits _ => bits.extractLsb' 32 96 = 0xffff
  | _ => false

/-- An IPv4-mapped address becomes the IPv4 address, without its zone. -/
def unmap : Addr → Addr
  | .v6 bits zone =>
      if (v6 bits zone).is4In6 then .v4 (bits.extractLsb' 0 32) else .v6 bits zone
  | addr => addr

/-- `ip.Prefix(bits)` and the address of the result, `none` for an error. -/
def prefixAddr (length : Nat) : Addr → Option Addr
  | .zero => some .zero
  | .v4 bits =>
      if length ≤ 32 then some (.v4 (bits &&& BitVec.allOnes 32 <<< (32 - length))) else none
  | .v6 bits _ =>
      if length ≤ 128 then some (.v6 (bits &&& BitVec.allOnes 128 <<< (128 - length)) "")
      else none

/-- Only an IPv6 address has a zone. -/
def withZone (zone : String) : Addr → Addr
  | .v6 bits _ => .v6 bits zone
  | addr => addr

/-- Giving a zone before or after `Unmap` is the same. -/
theorem unmap_withZone (addr : Addr) (zone : String) :
    (addr.withZone zone).unmap = addr.unmap.withZone zone := by
  cases addr with
  | v6 bits old =>
      have same : (v6 bits zone).is4In6 = (v6 bits old).is4In6 := rfl
      simp only [withZone, unmap, same]
      split <;> rfl
  | _ => rfl

theorem withZone_of_not_is6 {addr : Addr} (other : addr.is6 = false) (zone : String) :
    addr.withZone zone = addr := by
  cases addr with
  | v6 => cases other
  | _ => rfl

end Addr

structure AddrPort where
  addr : Addr
  port : UInt16
  deriving DecidableEq

end Netx.Netip
