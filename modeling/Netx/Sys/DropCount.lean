import Netx.Bytes.Order
import Mathlib.Data.Int.Basic

/-! The drop count in the control data of a datagram, on 64-bit Linux. -/

set_option autoImplicit false

namespace Netx.Sys

open Bytes

/-- The size of a `Cmsghdr`: a length of 8 bytes, a level and a type of 4 bytes. -/
def hdr : Nat := 16

def solSocket : Nat := 1

def soRxqOvfl : Nat := 40

/-- The control buffer size. -/
def OOBSize : Nat := 64

def cmsgAlign (n : Int) : Int :=
  n + 7 - (n + 7) % 8

/-- The loop of `DropCount`. The length of a record is a `uint64` taken as an `int`;
a record takes at least a header off, so the bytes themselves are fuel enough. -/
def walk (host : Order) : Nat → List UInt8 → Option UInt32
  | 0, _ => none
  | fuel + 1, oob =>
      if oob.length < hdr then none
      else
        let l := (host.decode (oob.take 8) : Int).bmod (2 ^ 64)
        let level := host.decode ((oob.drop 8).take 4)
        let type := host.decode ((oob.drop 12).take 4)
        if l < hdr ∨ l > oob.length then none
        else if level = solSocket ∧ type = soRxqOvfl ∧ l ≥ hdr + 4 then
          some (UInt32.ofNat (host.decode ((oob.drop hdr).take 4)))
        else
          let next := cmsgAlign l
          if next > oob.length then none else walk host fuel (oob.drop next.toNat)

def dropCount (host : Order) (oob : List UInt8) : Option UInt32 :=
  walk host oob.length oob

end Netx.Sys
