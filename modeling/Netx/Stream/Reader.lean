import Mathlib.Data.List.Basic
import Netx.Buf.Capacity

/-!
# Buffered stream reader

The reader of `stream/reader.go` over an arbitrary source and an arbitrary
pool. Both are behind one `Environment`, so that a source and a pool may
behave in any way, also as a function of what happened to the other.
-/

set_option autoImplicit false

namespace Netx.Stream

/-- Errors a reader returns. A source may return any of them as its own. -/
inductive Error where
  | tooLarge
  | noBuffer
  | released
  | negativeCount
  | noProgress
  | invalidCount
  | source (tag : Nat)
  deriving DecidableEq, Repr

/-- Outcome of one `Read` into a slice of `size` bytes: the slice afterwards,
which the source may have used as scratch space, and the returned pair. -/
structure ReadResult (size : Nat) where
  bytes : Vector UInt8 size
  n : Int
  err : Option Error

/-- A buffer borrowed from the pool; `B` has the length requested. -/
structure Borrowed (Handle : Type) where
  handle : Handle
  B : List UInt8

/-- A source and a pool. `get` is `none` when the pool refuses. -/
structure Environment (World Handle : Type) where
  read : World → (size : Nat) → ReadResult size × World
  get : World → Nat → Option (Borrowed Handle) × World
  release : World → Borrowed Handle → World
  get_length : ∀ {world after : World} {size : Nat} {borrowed : Borrowed Handle},
    get world size = (some borrowed, after) → borrowed.B.length = size

structure ReaderOptions where
  idleSize : Int
  max : Int

structure Reader (Handle : Type) where
  idle : List UInt8
  big : Option (Borrowed Handle)
  r : Nat
  w : Nat
  last : Nat
  err : Option Error
  max : Nat
  done : Bool

namespace Reader

variable {Handle : Type}

/-- `NewReader`, with `none` where the source panics. -/
def newReader (Handle : Type) (o : ReaderOptions) (hasPool : Bool) :
    Option (Reader Handle) :=
  let idleSize := if o.idleSize = 0 then 512 else o.idleSize
  let max := if o.max = 0 then (Buf.large : Int) else o.max
  if idleSize < 0 ∨ max < idleSize ∨ hasPool = false then none
  else some {
    idle := List.replicate idleSize.toNat 0
    big := none
    r := 0
    w := 0
    last := 0
    err := none
    max := max.toNat
    done := false
  }

/-- The slice the reader works in: the borrowed buffer, else the idle one.
The source keeps it in a field of its own, which aliases one of the two. -/
def data (reader : Reader Handle) : List UInt8 :=
  if reader.done then []
  else match reader.big with
    | some borrowed => borrowed.B
    | none => reader.idle

/-- Write through `data` into the buffer it aliases. -/
def setData (reader : Reader Handle) (bytes : List UInt8) : Reader Handle :=
  match reader.big with
  | some borrowed => { reader with big := some { borrowed with B := bytes } }
  | none => { reader with idle := bytes }

def buffered (reader : Reader Handle) : List UInt8 :=
  (reader.data.take reader.w).drop reader.r

def len (reader : Reader Handle) : Nat :=
  reader.w - reader.r

end Reader

/-- One call of the source, as logged: the slice length it was given, the
slice afterwards and what it returned. -/
structure SourceRead where
  size : Nat
  bytes : List UInt8
  n : Int
  err : Option Error

/-- The bytes a source read delivers. A count outside `0..size` delivers none. -/
def SourceRead.delivered (call : SourceRead) : List UInt8 :=
  if 0 ≤ call.n ∧ call.n ≤ call.size then call.bytes.take call.n.toNat else []

/-- A reader in its environment, with the log of its source reads. -/
structure Session (World Handle : Type) where
  reader : Reader Handle
  world : World
  reads : List SourceRead

namespace Session

variable {World Handle : Type}

def start (reader : Reader Handle) (world : World) : Session World Handle :=
  { reader, world, reads := [] }

def received (session : Session World Handle) : List UInt8 :=
  session.reads.flatMap SourceRead.delivered

def buffered (session : Session World Handle) : List UInt8 :=
  session.reader.buffered

variable (env : Environment World Handle)

/-- `src.Read(data[w:])`. -/
def readSource (session : Session World Handle) :
    (Int × Option Error) × Session World Handle :=
  let reader := session.reader
  let size := reader.data.length - reader.w
  let (result, world) := env.read session.world size
  ((result.n, result.err), {
    reader := reader.setData (reader.data.take reader.w ++ result.bytes.toList)
    world
    reads := session.reads ++ [⟨size, result.bytes.toList, result.n, result.err⟩]
  })

def maxEmptyReads : Nat := 100

/-- The retry loop of `readOnce` with `attempts` reads left; `none` when the
last of them returned neither data nor an error. -/
def readLoop : Nat → Session World Handle →
    Option (Int × Option Error) × Session World Handle
  | 0, session => (none, session)
  | attempts + 1, session =>
      let ((n, err), session) := session.readSource env
      if n ≠ 0 ∨ err ≠ none then (some (n, err), session)
      else readLoop attempts session

def readOnce (session : Session World Handle) :
    Option Error × Session World Handle :=
  match session.reader.err with
  | some err => (some err, session)
  | none =>
      match session.readLoop env maxEmptyReads with
      | (none, session) => (some .noProgress, session)
      | (some (n, err), session) =>
          let reader := session.reader
          if n < 0 ∨ n > ((reader.data.length - reader.w : Nat) : Int) then
            (some .invalidCount,
              { session with reader := { reader with err := some .invalidCount } })
          else
            let reader : Reader Handle :=
              { reader with w := reader.w + n.toNat, last := n.toNat }
            match err with
            | none => (none, { session with reader })
            | some err =>
                let reader : Reader Handle := { reader with err := some err }
                if n > 0 then (none, { session with reader })
                else (some err, { session with reader })

/-- Move the buffered bytes into a larger buffer of the pool. -/
def grow (need : Nat) (session : Session World Handle) :
    Option Error × Session World Handle :=
  let reader := session.reader
  let size := min (Buf.capacity (max need (reader.data.length + 1))) reader.max
  if size ≤ reader.data.length then (some .tooLarge, session)
  else match env.get session.world size with
    | (none, world) => (some .noBuffer, { session with world })
    | (some borrowed, world) =>
        let moved := reader.buffered.take borrowed.B.length
        let world := match reader.big with
          | some old => env.release world old
          | none => world
        (none, { session with
          world
          reader := { reader with
            big := some { borrowed with B := moved ++ borrowed.B.drop moved.length }
            r := 0
            w := moved.length } })

/-- Move the buffered bytes to the front of the buffer they are in. -/
def compact (reader : Reader Handle) : Reader Handle :=
  let moved := reader.buffered
  { reader.setData (moved ++ reader.data.drop moved.length) with
    r := 0
    w := moved.length }

def ensure (n : Nat) (session : Session World Handle) :
    Option Error × Session World Handle :=
  let reader := session.reader
  if n > reader.max then (some .tooLarge, session)
  else if reader.data.length < n then session.grow env n
  else if reader.w < reader.data.length ∧ reader.data.length - reader.r ≥ n then
    (none, session)
  else if reader.r > 0 then
    let session := { session with reader := compact reader }
    if session.reader.w < session.reader.data.length then (none, session)
    else session.grow env (session.reader.data.length + 1)
  else session.grow env (reader.data.length + 1)

/-- The loop of `Peek`. Every read that returns without an error adds a byte,
so `n` rounds are enough. -/
def peekLoop (n : Nat) : Nat → Session World Handle →
    (List UInt8 × Option Error) × Session World Handle
  | rounds, session =>
      if session.reader.len < n then
        match rounds with
        | 0 => ((session.buffered, none), session)
        | rounds + 1 =>
            match session.ensure env n with
            | (some err, session) => ((session.buffered, some err), session)
            | (none, session) =>
                match session.readOnce env with
                | (none, session) => peekLoop n rounds session
                | (some err, session) =>
                    if session.reader.len ≥ n then
                      ((session.buffered.take n, none), session)
                    else ((session.buffered, some err), session)
      else ((session.buffered.take n, none), session)

def peek (n : Int) (session : Session World Handle) :
    (List UInt8 × Option Error) × Session World Handle :=
  if session.reader.done then (([], some .released), session)
  else if n < 0 then (([], some .negativeCount), session)
  else if n > session.reader.max then ((session.buffered, some .tooLarge), session)
  else session.peekLoop env n.toNat n.toNat

def fill (session : Session World Handle) :
    Option Error × Session World Handle :=
  if session.reader.done then (some .released, session)
  else match session.ensure env (session.reader.len + 1) with
    | (some err, session) => (some err, session)
    | (none, session) => session.readOnce env

/-- Give the borrowed buffer back and return to the idle one. -/
def shrink (session : Session World Handle) : Session World Handle :=
  match session.reader.big with
  | some borrowed => { session with
      world := env.release session.world borrowed
      reader := { session.reader with big := none } }
  | none => session

def discard (n : Int) (session : Session World Handle) :
    Nat × Session World Handle :=
  if n ≤ 0 then (0, session)
  else
    let n := min n.toNat session.reader.len
    let reader : Reader Handle := { session.reader with r := session.reader.r + n }
    if reader.r = reader.w then
      let session := { session with reader := { reader with r := 0, w := 0 } }
      if reader.big.isSome ∧ reader.last ≤ reader.idle.length then
        (n, session.shrink env)
      else (n, session)
    else (n, { session with reader })

/-- `Read` into a slice of `size` bytes; the first component is what it copied. -/
def read (size : Nat) (session : Session World Handle) :
    (List UInt8 × Option Error) × Session World Handle :=
  let deliver (session : Session World Handle) :=
    let copied := session.buffered.take size
    ((copied, none), (session.discard env copied.length).2)
  if session.reader.done then (([], some .released), session)
  else if size = 0 then (([], none), session)
  else if session.reader.len = 0 then
    match session.readOnce env with
    | (some err, session) =>
        if session.reader.len = 0 then (([], some err), session) else deliver session
    | (none, session) => deliver session
  else deliver session

def release (session : Session World Handle) : Session World Handle :=
  if session.reader.done then session
  else
    let world := match session.reader.big with
      | some borrowed => env.release session.world borrowed
      | none => session.world
    { session with
      world
      reader := { session.reader with done := true, big := none, r := 0, w := 0 } }

end Session

inductive Call where
  | peek (n : Int)
  | fill
  | read (size : Nat)
  | discard (n : Int)
  | buffered
  | release
  deriving DecidableEq, Repr

inductive Reply where
  | bytes (data : List UInt8) (err : Option Error)
  | status (err : Option Error)
  | count (n : Nat)
  | unit
  deriving DecidableEq, Repr

namespace Session

variable {World Handle : Type} (env : Environment World Handle)

def call (session : Session World Handle) : Call → Reply × Session World Handle
  | .peek n => let ((data, err), next) := session.peek env n; (.bytes data err, next)
  | .fill => let (err, next) := session.fill env; (.status err, next)
  | .read size => let ((data, err), next) := session.read env size; (.bytes data err, next)
  | .discard n => let (count, next) := session.discard env n; (.count count, next)
  | .buffered => (.bytes session.buffered none, session)
  | .release => (.unit, session.release env)

/-- The bytes a call takes out of the stream: what `Read` copied, or as many
of the buffered bytes as `Discard` says it consumed. -/
def taken (before : Session World Handle) : Call → Reply → List UInt8
  | .read _, .bytes data _ => data
  | .discard _, .count n => before.buffered.take n
  | _, _ => []

/-- A sequence of calls, with all bytes they consumed in order. -/
def run : List Call → Session World Handle → List UInt8 × Session World Handle
  | [], session => ([], session)
  | request :: rest, session =>
      let (reply, next) := session.call env request
      let (consumed, final) := run rest next
      (session.taken request reply ++ consumed, final)

end Session

end Netx.Stream
