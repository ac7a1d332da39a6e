import Netx.Interaction.Program

/-!
# Socket options

`socket/options.go` and `socket/buffers.go` with the files of each platform. The hooks run
before a socket is bound or connected; what they ask of the kernel are requests, and the
kernel may answer each of them as it likes.
-/

set_option autoImplicit false

namespace Netx.Socket

open Interaction (Program)

structure FastOpenOptions where
  enabled : Bool
  backlog : Int
  deriving DecidableEq, Repr

structure KeepAlive where
  disable : Bool
  idle : Int
  interval : Int
  count : Int
  deriving DecidableEq, Repr

structure Options where
  fastOpen : FastOpenOptions
  reusePort : Bool
  recvBuffer : Int
  sendBuffer : Int
  keepAlive : KeepAlive
  deriving DecidableEq, Repr

def KeepAlive.zero : KeepAlive := ⟨false, 0, 0, 0⟩

def Options.zero : Options := ⟨⟨false, 0⟩, false, 0, 0, .zero⟩

def KeepAlive.isZero (k : KeepAlive) : Bool :=
  decide (k = .zero)

/-- The build constraints tell these apart; `bsd` is any other Unix. -/
inductive Platform where
  | linux
  | darwin
  | freebsd
  | bsd (goos : String)
  | windows
  | other (goos : String)
  deriving DecidableEq, Repr

def Platform.goos : Platform → String
  | .linux => "linux"
  | .darwin => "darwin"
  | .freebsd => "freebsd"
  | .bsd goos | .other goos => goos
  | .windows => "windows"

inductive Errno where
  | enoprotoopt
  | eopnotsupp
  | enotsup
  | other (code : Nat)
  deriving DecidableEq, Repr

/-- `raw` is an error of `RawConn.Control` itself. -/
inductive Err where
  | errno (e : Errno)
  | raw (code : Nat)
  | unsupported (option platform : String)
  | bufferSize (option : String) (requested actual : Int)
  deriving DecidableEq, Repr

inductive Name where
  | soRcvBuf
  | soSndBuf
  | soRcvBufForce
  | soSndBufForce
  | soReusePort
  | soReusePortLB
  | tcpFastOpen
  | tcpFastOpenDarwin
  deriving DecidableEq, Repr

/-- `RawConn.Control` up to the function it runs, `SetsockoptInt` and `GetsockoptInt`. -/
inductive Request where
  | control
  | set (name : Name) (value : Int)
  | get (name : Name)
  deriving DecidableEq, Repr

def Request.Answer : Request → Type
  | .control => Option Nat
  | .set _ _ => Option Errno
  | .get _ => Int × Option Errno

abbrev Syscalls (α : Type) : Type :=
  Program Request Request.Answer α

abbrev Event : Type :=
  Interaction.Event Request Request.Answer

def setsockopt (name : Name) (value : Int) : Syscalls (Option Errno) :=
  Program.request (Request.set name value)

def getsockopt (name : Name) : Syscalls (Int × Option Errno) :=
  Program.request (Request.get name)

def rawControl : Syscalls (Option Nat) :=
  Program.request Request.control

def andThen (first second : Syscalls (Option Err)) : Syscalls (Option Err) := do
  match ← first with
  | some e => return some e
  | none => second

structure BufferKind where
  name : String
  opt : Name
  force : Option Name
  deriving DecidableEq, Repr

/-- Whether `getsockopt` reports twice the usable size. -/
def Platform.kernelDoublesBuffers : Platform → Bool
  | .linux => true
  | _ => false

def Platform.recvBufferKind : Platform → BufferKind
  | .linux => ⟨"receive buffer", .soRcvBuf, some .soRcvBufForce⟩
  | _ => ⟨"receive buffer", .soRcvBuf, none⟩

def Platform.sendBufferKind : Platform → BufferKind
  | .linux => ⟨"send buffer", .soSndBuf, some .soSndBufForce⟩
  | _ => ⟨"send buffer", .soSndBuf, none⟩

def reading (doubled : Bool) (v : Int) : Int :=
  if doubled then v.tdiv 2 else v

def readBuffer (k : BufferKind) (doubled : Bool) : Syscalls (Int × Option Errno) := do
  let (v, err) ← getsockopt k.opt
  return (reading doubled v, err)

/-- The last test of `ensureBuffer`. -/
def checkBuffer (k : BufferKind) (requested actual : Int) : Option Err :=
  if actual < requested then some (.bufferSize k.name requested actual) else none

def ensureBuffer (k : BufferKind) (requested : Int) (doubled : Bool) :
    Syscalls (Option Err) := do
  match ← setsockopt k.opt requested with
  | some e => return some (.errno e)
  | none =>
      match ← readBuffer k doubled with
      | (_, some e) => return some (.errno e)
      | (actual, none) =>
          match k.force with
          | none => return checkBuffer k requested actual
          | some force =>
              if actual < requested then do
                let _ ← setsockopt force requested
                match ← readBuffer k doubled with
                | (_, some e) => return some (.errno e)
                | (actual, none) => return checkBuffer k requested actual
              else return checkBuffer k requested actual

def applyBuffer (k : BufferKind) (requested : Int) (doubled : Bool) : Syscalls (Option Err) :=
  if requested > 0 then ensureBuffer k requested doubled else return none

def applyBuffers (p : Platform) (opts : Options) : Syscalls (Option Err) :=
  match p with
  | .other goos =>
      if opts.recvBuffer > 0 ∨ opts.sendBuffer > 0 then
        return some (.unsupported "socket buffer sizes" goos)
      else return none
  | p =>
      andThen (applyBuffer p.recvBufferKind opts.recvBuffer p.kernelDoublesBuffers)
        (applyBuffer p.sendBufferKind opts.sendBuffer p.kernelDoublesBuffers)

def Errno.unavailable : Errno → Bool
  | .enoprotoopt | .eopnotsupp | .enotsup => true
  | .other _ => false

def fastOpenResult : Option Errno → Option Err
  | none => none
  | some e => if e.unavailable then none else some (.errno e)

def Platform.reusePort : Platform → Option Name
  | .linux | .darwin => some .soReusePort
  | .freebsd => some .soReusePortLB
  | _ => none

def Platform.fastOpen (p : Platform) (backlog : Int) : Option (Name × Int) :=
  match p with
  | .linux => some (.tcpFastOpen, if backlog ≤ 0 then 128 else backlog)
  | .darwin => some (.tcpFastOpenDarwin, 1)
  | _ => none

def applyReusePort (p : Platform) (opts : Options) : Syscalls (Option Err) :=
  if opts.reusePort then
    match p.reusePort with
    | none => return some (.unsupported "SO_REUSEPORT" p.goos)
    | some name => do
        let err ← setsockopt name 1
        return err.map .errno
  else return none

def applyFastOpen (p : Platform) (opts : Options) : Syscalls (Option Err) :=
  if opts.fastOpen.enabled then
    match p.fastOpen opts.fastOpen.backlog with
    | none => return none
    | some (name, value) => do
        let err ← setsockopt name value
        return fastOpenResult err
  else return none

def applyOptions (p : Platform) (opts : Options) : Syscalls (Option Err) :=
  andThen (applyReusePort p opts) (applyFastOpen p opts)

def isTCP (network : String) : Bool :=
  network == "tcp" || network == "tcp4" || network == "tcp6"

def isUDP (network : String) : Bool :=
  network == "udp" || network == "udp4" || network == "udp6"

def checkNetwork (network : String) (o : Options) : Option Err :=
  let place := "network " ++ network
  if !isTCP network && !isUDP network then
    if o ≠ .zero then some (.unsupported "socket options" place) else none
  else if isUDP network && o.fastOpen.enabled then some (.unsupported "TCP Fast Open" place)
  else if isUDP network && !o.keepAlive.isZero then some (.unsupported "TCP keep-alive" place)
  else none

/-- The tests of `control` that come before any system call. -/
def refusal (opts : Options) (outbound : Bool) (network : String) : Option Err :=
  match checkNetwork network opts with
  | some e => some e
  | none =>
      if outbound && opts.fastOpen.enabled then
        some (.unsupported "TCP Fast Open" "dialed connections")
      else none

/-- The hook of `ListenConfig`, and with `outbound` that of `Dialer`. -/
def control (p : Platform) (opts : Options) (outbound : Bool) (network : String) :
    Syscalls (Option Err) :=
  match refusal opts outbound network with
  | some e => return some e
  | none =>
      if opts = .zero then return none
      else do
        match ← rawControl with
        | some code => return some (.raw code)
        | none => andThen (applyBuffers p opts) (applyOptions p opts)

end Netx.Socket
