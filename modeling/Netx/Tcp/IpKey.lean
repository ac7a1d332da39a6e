import Netx.Netip.Addr

/-! The key of a remote address for the per-address limit. -/

set_option autoImplicit false

namespace Netx.Tcp

open Netip

structure TCPAddr where
  ip : List (BitVec 8)
  port : Int
  zone : String
  deriving DecidableEq, Repr

/-- A remote address: a `*net.TCPAddr`, or one of another type. -/
inductive Remote where
  | tcp (addr : TCPAddr)
  | other
  deriving DecidableEq, Repr

def ipKey (remote : Remote) (v6bits : Nat) : Addr × Bool :=
  match remote with
  | .other => (.zero, false)
  | .tcp addr =>
      match addrFromSlice addr.ip with
      | none => (.zero, false)
      | some ip =>
          let ip := ip.unmap
          if ip.is6 && decide (v6bits < 128) then
            match ip.prefixAddr v6bits with
            | none => (.zero, false)
            | some ip => (ip, true)
          else (ip, true)

end Netx.Tcp
