import Mathlib.Data.List.Basic

/-! How the error of a read is told apart. -/

set_option autoImplicit false

namespace Netx.Sys

inductive ReadErr where
  | fatal
  | transient
  | truncated
  deriving DecidableEq, Repr

/-- The errors a read returns: an errno inside an `*os.SyscallError`, both possibly inside
a `*net.OpError`, or `net.ErrClosed`. -/
inductive SocketError where
  | errno (number : Nat)
  | errClosed
  | syscallError (syscall : String) (err : SocketError)
  | opError (op : String) (err : SocketError)
  deriving DecidableEq, Repr

namespace SocketError

/-- `errors.As` with a `syscall.Errno`. -/
def asErrno : SocketError → Option Nat
  | .errno number => some number
  | .errClosed => none
  | .syscallError _ err | .opError _ err => err.asErrno

/-- `errors.Is` with `net.ErrClosed`. -/
def isErrClosed : SocketError → Bool
  | .errno _ => false
  | .errClosed => true
  | .syscallError _ err | .opError _ err => err.isErrClosed

end SocketError

/-- `ClassifyRead`, with the switch over the errno that the platform has. -/
def classifyRead (classify : Nat → ReadErr) (err : SocketError) : ReadErr :=
  match err.asErrno with
  | none => .fatal
  | some number => classify number

/-- The switch on Linux: `EINTR`, `EAGAIN`, `ENOBUFS`, `ENOMEM`, `ECONNREFUSED`,
`EHOSTUNREACH` and `ENETUNREACH`. -/
def classifyLinux (number : Nat) : ReadErr :=
  if number ∈ [4, 11, 105, 12, 111, 113, 101] then .transient else .fatal

end Netx.Sys
