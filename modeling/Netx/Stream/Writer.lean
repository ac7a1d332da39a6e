import Netx.Slices.Reused
import Netx.Stream.Reader

/-!
# Collecting writer

The writer of `stream/writer.go` over any destination. Its send vector is a
slice whose array is reused; a vectored write is handed an alias of that slice
and may consume it in place.
-/

set_option autoImplicit false

namespace Netx.Stream

open Slices (Reused)

/-- The destination after a write, and what the write returned. -/
structure Wrote (D E : Type) where
  dst : D
  n : Nat
  err : Option E

/-- The bytes of a slice in a send vector; a nil slice has none. -/
def cellBytes (cell : Option (List UInt8)) : List UInt8 :=
  cell.getD []

/-- What a write of `bytes` to an `io.Writer` may do. -/
structure Wrote.Honours {D E : Type} (received : D → List UInt8) (before : D)
    (bytes : List UInt8) (wrote : Wrote D E) : Prop where
  bounded : wrote.n ≤ bytes.length
  delivered : received wrote.dst = received before ++ bytes.take wrote.n
  complete : wrote.err = none → wrote.n = bytes.length

/-- A slice of the array of a send vector. -/
structure View where
  start : Nat
  len : Nat
  deriving DecidableEq, Repr

/-- What a vectored write leaves of the vector it was given: the cells of the
array and the slice itself. -/
structure Remains (size : Nat) where
  cells : Vector (Option (List UInt8)) size
  view : Option View

/-- A write of several slices with one call, `WriteBuffers` or `writev`. It may
leave anything in the vector it was given. -/
structure Vectored (D E : Type) (received : D → List UInt8) where
  send : D → (size : Nat) → Vector (Option (List UInt8)) size → Wrote D E × Remains size
  honours : ∀ d size vec,
    (send d size vec).1.Honours received d (vec.toList.flatMap cellBytes)

/-- `writeBuffers` is there when the destination implements `BuffersWriter`,
`writev` when it is one of the connections `net.Buffers` knows. -/
structure Destination (D E : Type) where
  received : D → List UInt8
  write : D → List UInt8 → Wrote D E
  honours : ∀ d p, (write d p).Honours received d p
  writeBuffers : Option (Vectored D E received)
  writev : Option (Vectored D E received)

/-- `net.Buffers.consume`: the cells afterwards and how many left the slice. -/
def consume : Nat → List (Option (List UInt8)) → List (Option (List UInt8)) × Nat
  | _, [] => ([], 0)
  | n, cell :: rest =>
      let ln0 := (cellBytes cell).length
      if ln0 > n then (some ((cellBytes cell).drop n) :: rest, 0)
      else
        let (rest, dropped) := consume (n - ln0) rest
        (none :: rest, dropped + 1)

private theorem length_consume (n : Nat) (cells : List (Option (List UInt8))) :
    (consume n cells).1.length = cells.length := by
  induction cells generalizing n with
  | nil => rfl
  | cons cell rest ih =>
      simp only [consume]
      split
      · rfl
      · exact congrArg Nat.succ (ih _)

namespace Destination

variable {D E : Type} (dest : Destination D E)

/-- One `Write` per slice, up to the first error. -/
def writeEach (d : D) : List (Option (List UInt8)) → Wrote D E
  | [] => ⟨d, 0, none⟩
  | cell :: rest =>
      let wrote := dest.write d (cellBytes cell)
      match wrote.err with
      | some err => ⟨wrote.dst, wrote.n, some err⟩
      | none =>
          let later := writeEach wrote.dst rest
          ⟨later.dst, wrote.n + later.n, later.err⟩

/-- `net.Buffers.WriteTo`. -/
def writeTo (d : D) (size : Nat) (vec : Vector (Option (List UInt8)) size) :
    Wrote D E × Remains size :=
  match dest.writev with
  | some writev => writev.send d size vec
  | none =>
      let wrote := dest.writeEach d vec.toList
      let consumed := consume wrote.n vec.toList
      (wrote, {
        cells := ⟨consumed.1.toArray, by simp [consumed, length_consume]⟩
        view := some ⟨consumed.2, size - consumed.2⟩ })

/-- The write of several slices, as `Flush` chooses it. -/
def writeVector (d : D) (size : Nat) (vec : Vector (Option (List UInt8)) size) :
    Wrote D E × Remains size :=
  match dest.writeBuffers with
  | some bw => bw.send d size vec
  | none => dest.writeTo d size vec

end Destination

structure Writer (Handle : Type) where
  held : Reused (Borrowed Handle)
  vec : Reused (List UInt8)
  tmp : Option View
  size : Nat

/-- A writer at work, with the log of the buffers it has released. -/
structure Outgoing (D Handle : Type) where
  writer : Writer Handle
  dst : D
  released : List (Borrowed Handle)

inductive WriterCall (Handle : Type) where
  | add (b : Borrowed Handle)
  | addShared (p : List UInt8)
  | flush
  | discard

namespace Writer

variable {Handle : Type}

def newWriter : Writer Handle :=
  { held := .empty, vec := .empty, tmp := none, size := 0 }

/-- How many cells `append` leaves free in an array that it makes for a slice
of a given length is up to the runtime. -/
def add (room : Nat → Nat) (writer : Writer Handle) (b : Borrowed Handle) : Writer Handle :=
  { writer with
    held := writer.held.append (room writer.held.len) b
    vec := writer.vec.append (room writer.vec.len) b.B
    size := writer.size + b.B.length }

def addShared (room : Nat → Nat) (writer : Writer Handle) (p : List UInt8) : Writer Handle :=
  if p.length = 0 then writer
  else { writer with
    vec := writer.vec.append (room writer.vec.len) p
    size := writer.size + p.length }

def pending (writer : Writer Handle) : Nat × Nat :=
  (writer.vec.len, writer.size)

end Writer

namespace Outgoing

variable {D E Handle : Type}

def start (d : D) : Outgoing D Handle :=
  { writer := .newWriter, dst := d, released := [] }

/-- Release every held buffer and forget all slices. -/
def discard (out : Outgoing D Handle) : Outgoing D Handle :=
  { out with
    released := out.released ++ out.writer.held.items.toList.filterMap id
    writer := {
      held := out.writer.held.clear.truncate
      vec := out.writer.vec.clear.truncate
      tmp := none
      size := 0 } }

variable (dest : Destination D E)

def flush (out : Outgoing D Handle) : (Nat × Option E) × Outgoing D Handle :=
  let vec := out.writer.vec
  match vec.items.toList with
  | [] => ((0, none), out)
  | [cell] =>
      let wrote := dest.write out.dst (cellBytes cell)
      ((wrote.n, wrote.err), discard { out with dst := wrote.dst })
  | _ =>
      let (wrote, remains) := dest.writeVector out.dst vec.len vec.items
      let writer := { out.writer with vec := vec.assign remains.cells, tmp := remains.view }
      ((wrote.n, wrote.err), discard { out with dst := wrote.dst, writer })

variable (room : Nat → Nat)

def call (out : Outgoing D Handle) : WriterCall Handle → Outgoing D Handle
  | .add b => { out with writer := out.writer.add room b }
  | .addShared p => { out with writer := out.writer.addShared room p }
  | .flush => (out.flush dest).2
  | .discard => out.discard

def run (out : Outgoing D Handle) (calls : List (WriterCall Handle)) : Outgoing D Handle :=
  calls.foldl (call dest room) out

end Outgoing

end Netx.Stream
