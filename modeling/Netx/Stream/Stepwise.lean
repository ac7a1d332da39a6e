import Netx.Interaction.Program
import Netx.Stream.Reader

/-!
# The reader, request by request

The calls of `stream/reader.go` as programs that ask the source for bytes and the pool for
buffers, so that many readers can be between two requests at once. Slice expressions are
evaluated as Go does: one out of range panics.
-/

set_option autoImplicit false

namespace Netx.Stream

open Interaction (Program Handler)

/-- What a reader asks for, and the reader that asks. Nothing answers a panic. -/
inductive Op (Handle : Type) where
  | read (reader : Reader Handle)
  | get (reader : Reader Handle) (size : Nat)
  | release (borrowed : Borrowed Handle)
  | panic

def Op.Answer {Handle : Type} : Op Handle → Type
  | .read reader => ReadResult (reader.data.length - reader.w)
  | .get _ _ => Option (Borrowed Handle)
  | .release _ => Unit
  | .panic => Empty

abbrev Stepwise (Handle α : Type) : Type :=
  Program (Op Handle) Op.Answer α

abbrev Event (Handle : Type) : Type :=
  Interaction.Event (Op Handle) Op.Answer

/-- `n` and `err` are what the source returned, or `none` when it kept returning neither.
The error goes to the caller, and the reader remembers it. -/
def Reader.count {Handle : Type} (reader : Reader Handle) :
    Option (Int × Option Error) → Option Error × Reader Handle
  | none => (some .noProgress, reader)
  | some (n, err) =>
      if n < 0 ∨ n > ((reader.data.length - reader.w : Nat) : Int) then
        (some .invalidCount, { reader with err := some .invalidCount })
      else
        let reader : Reader Handle := { reader with w := reader.w + n.toNat, last := n.toNat }
        match err with
        | none => (none, reader)
        | some err => (if n > 0 then none else some err, { reader with err := some err })

/-- The reader with `moved` copied to the front of its buffer. -/
def Reader.front {Handle : Type} (reader : Reader Handle) (moved : List UInt8) :
    Reader Handle :=
  { reader.setData (moved ++ reader.data.drop moved.length) with r := 0, w := moved.length }

namespace Stepwise

variable {Handle : Type}

def request (op : Op Handle) : Stepwise Handle op.Answer :=
  Program.request op

/-- `bytes[low:high]`. -/
def slice (bytes : List UInt8) (low high : Nat) : Stepwise Handle (List UInt8) :=
  if low ≤ high ∧ high ≤ bytes.length then pure ((bytes.take high).drop low)
  else .ask .panic Empty.elim

def buffered (reader : Reader Handle) : Stepwise Handle (List UInt8) :=
  slice reader.data reader.r reader.w

/-- `src.Read(data[w:])`. -/
def readSource (reader : Reader Handle) :
    Stepwise Handle ((Int × Option Error) × Reader Handle) := do
  let _ ← slice reader.data reader.w reader.data.length
  let result : ReadResult (reader.data.length - reader.w) ← request (.read reader)
  return ((result.n, result.err),
    reader.setData (reader.data.take reader.w ++ result.bytes.toList))

def readLoop : Nat → Reader Handle →
    Stepwise Handle (Option (Int × Option Error) × Reader Handle)
  | 0, reader => return (none, reader)
  | attempts + 1, reader => do
      let (answer, reader) ← readSource reader
      if answer.1 ≠ 0 ∨ answer.2 ≠ none then return (some answer, reader)
      else readLoop attempts reader

def readOnce (reader : Reader Handle) : Stepwise Handle (Option Error × Reader Handle) :=
  match reader.err with
  | some err => return (some err, reader)
  | none => do
      let (answer, reader) ← readLoop Session.maxEmptyReads reader
      return reader.count answer

/-- `Release` of the buffer in `big`, if there is one. -/
def releaseBig : Option (Borrowed Handle) → Stepwise Handle Unit
  | some borrowed => request (.release borrowed)
  | none => return ()

def grow (need : Nat) (reader : Reader Handle) :
    Stepwise Handle (Option Error × Reader Handle) :=
  let size := min (Buf.capacity (max need (reader.data.length + 1))) reader.max
  if size ≤ reader.data.length then return (some .tooLarge, reader)
  else do
    let answer : Option (Borrowed Handle) ← request (.get reader size)
    match answer with
    | none => return (some .noBuffer, reader)
    | some borrowed =>
        let moved ← buffered reader
        let moved := moved.take borrowed.B.length
        releaseBig reader.big
        return (none, { reader with
          big := some { borrowed with B := moved ++ borrowed.B.drop moved.length }
          r := 0
          w := moved.length })

def ensure (n : Nat) (reader : Reader Handle) :
    Stepwise Handle (Option Error × Reader Handle) :=
  if n > reader.max then return (some .tooLarge, reader)
  else if reader.data.length < n then grow n reader
  else if reader.w < reader.data.length ∧ reader.data.length - reader.r ≥ n then
    return (none, reader)
  else if reader.r > 0 then do
    let moved ← buffered reader
    let reader := reader.front moved
    if reader.w < reader.data.length then return (none, reader)
    else grow (reader.data.length + 1) reader
  else grow (reader.data.length + 1) reader

/-- As in `Session.peekLoop`, `n` rounds are enough. -/
def peekLoop (n : Nat) : Nat → Reader Handle →
    Stepwise Handle ((List UInt8 × Option Error) × Reader Handle)
  | rounds, reader =>
      if reader.len < n then
        match rounds with
        | 0 => do return ((← buffered reader, none), reader)
        | rounds + 1 => do
            let (refused, reader) ← ensure n reader
            match refused with
            | some err => return ((← buffered reader, some err), reader)
            | none =>
                let (failed, reader) ← readOnce reader
                match failed with
                | none => peekLoop n rounds reader
                | some err =>
                    if reader.len ≥ n then
                      return ((← slice reader.data reader.r (reader.r + n), none), reader)
                    else return ((← buffered reader, some err), reader)
      else do return ((← slice reader.data reader.r (reader.r + n), none), reader)

def peek (n : Int) (reader : Reader Handle) :
    Stepwise Handle ((List UInt8 × Option Error) × Reader Handle) :=
  if reader.done then return (([], some .released), reader)
  else if n < 0 then return (([], some .negativeCount), reader)
  else if n > reader.max then do return ((← buffered reader, some .tooLarge), reader)
  else peekLoop n.toNat n.toNat reader

def fill (reader : Reader Handle) : Stepwise Handle (Option Error × Reader Handle) :=
  if reader.done then return (some .released, reader)
  else do
    let (refused, reader) ← ensure (reader.len + 1) reader
    match refused with
    | some err => return (some err, reader)
    | none => readOnce reader

def shrink (reader : Reader Handle) : Stepwise Handle (Reader Handle) := do
  releaseBig reader.big
  return { reader with big := none }

def discard (n : Int) (reader : Reader Handle) : Stepwise Handle (Nat × Reader Handle) :=
  if n ≤ 0 then return (0, reader)
  else
    let n := min n.toNat reader.len
    let reader : Reader Handle := { reader with r := reader.r + n }
    if reader.r = reader.w then
      let reader : Reader Handle := { reader with r := 0, w := 0 }
      if reader.big.isSome ∧ reader.last ≤ reader.idle.length then do
        return (n, ← shrink reader)
      else return (n, reader)
    else return (n, reader)

/-- The end of `Read`: what is buffered is copied and discarded. -/
def deliver (size : Nat) (reader : Reader Handle) :
    Stepwise Handle ((List UInt8 × Option Error) × Reader Handle) := do
  let bytes ← buffered reader
  let copied := bytes.take size
  let (_, reader) ← discard copied.length reader
  return ((copied, none), reader)

def read (size : Nat) (reader : Reader Handle) :
    Stepwise Handle ((List UInt8 × Option Error) × Reader Handle) :=
  if reader.done then return (([], some .released), reader)
  else if size = 0 then return (([], none), reader)
  else if reader.len = 0 then do
    let (failed, reader) ← readOnce reader
    match failed with
    | some err =>
        if reader.len = 0 then return (([], some err), reader) else deliver size reader
    | none => deliver size reader
  else deliver size reader

def release (reader : Reader Handle) : Stepwise Handle (Reader Handle) :=
  if reader.done then return reader
  else do
    releaseBig reader.big
    return { reader with done := true, big := none, r := 0, w := 0 }

def call (reader : Reader Handle) : Call → Stepwise Handle (Reply × Reader Handle)
  | .peek n => do
      let (reply, reader) ← peek n reader
      return (.bytes reply.1 reply.2, reader)
  | .fill => do
      let (failed, reader) ← fill reader
      return (.status failed, reader)
  | .read size => do
      let (reply, reader) ← read size reader
      return (.bytes reply.1 reply.2, reader)
  | .discard n => do
      let (count, reader) ← discard n reader
      return (.count count, reader)
  | .buffered => do return (.bytes (← buffered reader) none, reader)
  | .release => do return (.unit, ← release reader)

end Stepwise

end Netx.Stream
