import Mathlib.Algebra.Ring.Nat
import Netx.Stream.Writer

/-!
# What the collecting writer sends and releases

An outbox is what a caller knows of a writer: the slices queued since the last
`Flush` or `Discard` and the buffers whose queuing has ended. The writer shows
its outbox after every sequence of calls, whichever way it writes.
-/

set_option autoImplicit false

namespace Netx.Stream

inductive Queued (Handle : Type) where
  | owned (b : Borrowed Handle)
  | shared (p : List UInt8)

namespace Queued

variable {Handle : Type}

def bytes : Queued Handle → List UInt8
  | .owned b => b.B
  | .shared p => p

def buffer : Queued Handle → Option (Borrowed Handle)
  | .owned b => some b
  | .shared _ => none

end Queued

structure Outbox (Handle : Type) where
  queued : List (Queued Handle)
  ended : List (Borrowed Handle)

namespace Outbox

variable {Handle : Type}

def empty : Outbox Handle := ⟨[], []⟩

def buffers (box : Outbox Handle) : List (Borrowed Handle) :=
  box.queued.filterMap Queued.buffer

def payload (box : Outbox Handle) : List UInt8 :=
  box.queued.flatMap Queued.bytes

def total (box : Outbox Handle) : Nat :=
  (box.queued.map fun q => q.bytes.length).sum

def push (box : Outbox Handle) (q : Queued Handle) : Outbox Handle :=
  { box with queued := box.queued ++ [q] }

/-- `Flush` or `Discard`. -/
def finish (box : Outbox Handle) : Outbox Handle :=
  ⟨[], box.ended ++ box.buffers⟩

def after (box : Outbox Handle) : WriterCall Handle → Outbox Handle
  | .add b => box.push (.owned b)
  | .addShared p => if p = [] then box else box.push (.shared p)
  | .flush | .discard => box.finish

@[simp] theorem ended_push (box : Outbox Handle) (q : Queued Handle) :
    (box.push q).ended = box.ended := rfl

private theorem buffers_push (box : Outbox Handle) (q : Queued Handle) :
    (box.push q).buffers = box.buffers ++ q.buffer.toList := by
  cases q <;> simp [buffers, push, Queued.buffer]

private theorem total_push (box : Outbox Handle) (q : Queued Handle) :
    (box.push q).total = box.total + q.bytes.length := by
  simp [total, push]

private theorem finish_of_empty {box : Outbox Handle} (nothing : box.queued = []) :
    box.finish = box := by
  cases box with
  | mk queued ended =>
      subst nothing
      exact congrArg _ (List.append_nil ended)

end Outbox

/-- The buffers passed to `Add`, in order. -/
def addedBy {Handle : Type} (calls : List (WriterCall Handle)) : List (Borrowed Handle) :=
  calls.filterMap fun
    | .add b => some b
    | _ => none

theorem Outbox.after_buffers {Handle : Type} (box : Outbox Handle)
    (calls : List (WriterCall Handle)) :
    (calls.foldl after box).ended ++ (calls.foldl after box).buffers =
      (box.ended ++ box.buffers) ++ addedBy calls := by
  induction calls generalizing box with
  | nil => simp [addedBy]
  | cons call rest ih =>
      rw [List.foldl_cons, ih]
      cases call with
      | add b => simp [after, buffers_push, addedBy, Queued.buffer]
      | addShared p =>
          by_cases nothing : p = []
          · simp [after, nothing, addedBy]
          · simp [after, nothing, buffers_push, addedBy, Queued.buffer]
      | flush | discard => simp [after, finish, buffers, addedBy]

section Writes

variable {D E : Type} {dest : Destination D E}

theorem Destination.writeEach_honours (d : D) (cells : List (Option (List UInt8))) :
    (dest.writeEach d cells).Honours dest.received d (cells.flatMap cellBytes) := by
  induction cells generalizing d with
  | nil => exact ⟨Nat.le_refl 0, (List.append_nil _).symm, fun _ => rfl⟩
  | cons cell rest ih =>
      have first := dest.honours d (cellBytes cell)
      simp only [writeEach, List.flatMap_cons]
      cases failed : (dest.write d (cellBytes cell)).err with
      | some err =>
          refine ⟨?_, ?_, nofun⟩
          · rw [List.length_append]
            exact Nat.le_trans first.bounded (Nat.le_add_right _ _)
          · rw [List.take_append_of_le_length first.bounded]
            exact first.delivered
      | none =>
          have whole := first.complete failed
          have later := ih (dest.write d (cellBytes cell)).dst
          refine ⟨?_, ?_, fun done => ?_⟩
          · rw [List.length_append, whole]
            exact Nat.add_le_add_left later.bounded _
          · rw [whole, List.take_length_add_append, ← List.append_assoc]
            refine later.delivered.trans ?_
            rw [first.delivered, whole, List.take_length]
          · rw [List.length_append, whole, later.complete done]

theorem Destination.writeVector_honours (d : D) (size : Nat)
    (vec : Vector (Option (List UInt8)) size) :
    (dest.writeVector d size vec).1.Honours dest.received d
      (vec.toList.flatMap cellBytes) := by
  unfold writeVector
  split
  · rename_i bw _
    exact bw.honours d size vec
  · unfold writeTo
    split
    · rename_i writev _
      exact writev.honours d size vec
    · exact dest.writeEach_honours d vec.toList

end Writes

/-- The writer keeps nothing alive. -/
structure Writer.Forgot {Handle : Type} (writer : Writer Handle) : Prop where
  held : writer.held.Vacant
  vec : writer.vec.Vacant
  tmp : writer.tmp = none

namespace Outgoing

section Calls

variable {D E Handle : Type} {dest : Destination D E} {out : Outgoing D Handle}
  {box : Outbox Handle}

structure Shows (out : Outgoing D Handle) (box : Outbox Handle) : Prop where
  held : out.writer.held.Holds box.buffers
  vec : out.writer.vec.Holds (box.queued.map Queued.bytes)
  tmp : out.writer.tmp = none
  size : out.writer.size = box.total
  released : out.released = box.ended

theorem shows_start (d : D) : (start d : Outgoing D Handle).Shows .empty :=
  ⟨Slices.Reused.holds_empty, Slices.Reused.holds_empty, rfl, rfl, rfl⟩

theorem Shows.pending (shown : out.Shows box) :
    out.writer.pending = (box.queued.length, box.total) := by
  rw [Writer.pending, shown.vec.len_eq, shown.size, List.length_map]

theorem Shows.forgot (shown : out.Shows box) (nothing : box.queued = []) :
    out.writer.Forgot := by
  have held := shown.held
  have vec := shown.vec
  rw [Outbox.buffers, nothing] at held
  rw [nothing] at vec
  exact ⟨held.vacant, vec.vacant, shown.tmp⟩

theorem Shows.add (shown : out.Shows box) (room : Nat → Nat) (b : Borrowed Handle) :
    Shows { out with writer := out.writer.add room b } (box.push (.owned b)) where
  held := by
    rw [Outbox.buffers_push]
    exact shown.held.append _ b
  vec := by
    rw [Outbox.push, List.map_append]
    exact shown.vec.append _ b.B
  tmp := shown.tmp
  size := by
    rw [Outbox.total_push, ← shown.size]
    rfl
  released := shown.released

theorem Shows.addShared (shown : out.Shows box) (room : Nat → Nat) (p : List UInt8) :
    Shows { out with writer := out.writer.addShared room p } (box.after (.addShared p)) := by
  simp only [Writer.addShared, Outbox.after, List.length_eq_zero_iff]
  by_cases nothing : p = []
  · simpa only [nothing, if_true] using shown
  · rw [if_neg nothing, if_neg nothing]
    constructor
    · rw [Outbox.buffers_push]
      simpa only [Queued.buffer, Option.toList_none, List.append_nil] using shown.held
    · rw [Outbox.push, List.map_append]
      exact shown.vec.append _ p
    · exact shown.tmp
    · rw [Outbox.total_push, ← shown.size]
      rfl
    · exact shown.released

/-- Whatever a write has done to the elements of the vector and to its alias. -/
theorem shows_discard (held : out.writer.held.Holds box.buffers)
    (beyond : ∀ cell ∈ out.writer.vec.cells.drop out.writer.vec.len, cell = none)
    (released : out.released = box.ended) : out.discard.Shows box.finish where
  held := Slices.Reused.holds_truncate_clear held.rest
  vec := Slices.Reused.holds_truncate_clear beyond
  tmp := rfl
  size := rfl
  released := congrArg₂ (· ++ ·) released held.filterMap_items

theorem Shows.discard (shown : out.Shows box) : out.discard.Shows box.finish :=
  shows_discard shown.held shown.vec.rest shown.released

theorem Shows.payload (shown : out.Shows box) :
    out.writer.vec.items.toList.flatMap cellBytes = box.payload := by
  rw [shown.vec.items, List.flatMap_map, List.flatMap_map]
  rfl

variable (dest)

theorem Shows.flush (shown : out.Shows box) :
    (Wrote.mk (out.flush dest).2.dst (out.flush dest).1.1 (out.flush dest).1.2).Honours
        dest.received out.dst box.payload ∧
      (out.flush dest).2.Shows box.finish := by
  rw [← shown.payload]
  cases items : out.writer.vec.items.toList with
  | nil =>
      have nothing : box.queued = [] := by
        simpa [items] using shown.vec.items.symm
      simp only [Outgoing.flush, items]
      refine ⟨⟨Nat.le_refl 0, (List.append_nil _).symm, fun _ => rfl⟩, ?_⟩
      rwa [Outbox.finish_of_empty nothing]
  | cons cell rest =>
      cases rest with
      | nil =>
          have wrote := dest.honours out.dst (cellBytes cell)
          simp only [Outgoing.flush, items, List.flatMap_singleton]
          exact ⟨wrote, shows_discard shown.held shown.vec.rest shown.released⟩
      | cons second rest =>
          have wrote := dest.writeVector_honours out.dst _ out.writer.vec.items
          rw [items] at wrote
          simp only [Outgoing.flush, items]
          refine ⟨wrote, shows_discard shown.held ?_ shown.released⟩
          rw [Slices.Reused.drop_assign]
          exact shown.vec.rest

theorem Shows.call (shown : out.Shows box) (room : Nat → Nat) (call : WriterCall Handle) :
    (out.call dest room call).Shows (box.after call) := by
  cases call with
  | add b => exact shown.add room b
  | addShared p => exact shown.addShared room p
  | flush => exact (shown.flush dest).2
  | discard => exact shown.discard

theorem Shows.run (shown : out.Shows box) (room : Nat → Nat)
    (calls : List (WriterCall Handle)) :
    (out.run dest room calls).Shows (calls.foldl Outbox.after box) := by
  induction calls generalizing out box with
  | nil => exact shown
  | cons call rest ih => exact ih (shown.call dest room call)

end Calls

end Outgoing

/-- What is owed to a caller who knows the outbox: what `Pending` says, what was
released, and what `Flush` and `Discard` would now do. -/
structure WriterContract {D E Handle : Type} (dest : Destination D E)
    (out : Outgoing D Handle) (box : Outbox Handle) : Prop where
  pending : out.writer.pending = (box.queued.length, box.total)
  released : out.released = box.ended
  sends : ∃ sent, sent <+: box.payload ∧
    dest.received (out.flush dest).2.dst = dest.received out.dst ++ sent ∧
    (out.flush dest).1.1 = sent.length ∧
    ((out.flush dest).1.2 = none → sent = box.payload)
  flushed : (out.flush dest).2.released = out.released ++ box.buffers ∧
    (out.flush dest).2.writer.Forgot
  discarded : out.discard.released = out.released ++ box.buffers ∧
    out.discard.writer.Forgot
  quiet : ∀ room call, call ≠ .flush → (out.call dest room call).dst = out.dst

theorem Wrote.Honours.sent {D E : Type} {received : D → List UInt8} {before : D}
    {bytes : List UInt8} {wrote : Wrote D E} (honours : wrote.Honours received before bytes) :
    ∃ sent, sent <+: bytes ∧ received wrote.dst = received before ++ sent ∧
      wrote.n = sent.length ∧ (wrote.err = none → sent = bytes) := by
  refine ⟨bytes.take wrote.n, List.take_prefix _ _, honours.delivered, ?_, fun done => ?_⟩
  · rw [List.length_take_of_le honours.bounded]
  · rw [honours.complete done, List.take_length]

theorem Outgoing.Shows.contract {D E Handle : Type} {dest : Destination D E}
    {out : Outgoing D Handle} {box : Outbox Handle} (shown : out.Shows box) :
    WriterContract dest out box where
  pending := shown.pending
  released := shown.released
  sends := (shown.flush dest).1.sent
  flushed := by
    have after := (shown.flush dest).2
    exact ⟨shown.released ▸ after.released, after.forgot rfl⟩
  discarded := ⟨shown.released ▸ shown.discard.released, shown.discard.forgot rfl⟩
  quiet room call other := by
    cases call with
    | flush => exact absurd rfl other
    | _ => rfl

/-- After every sequence of calls the writer owes what the calls add up to, and
every buffer passed to `Add` was released or is queued, once for each `Add`. -/
theorem writer_sends_in_order {D E Handle : Type} (dest : Destination D E)
    (room : Nat → Nat) (d : D) (calls : List (WriterCall Handle)) :
    let out := (Outgoing.start d).run dest room calls
    let box := calls.foldl Outbox.after .empty
    WriterContract dest out box ∧ out.released ++ box.buffers = addedBy calls := by
  have shown := (Outgoing.shows_start d).run dest room calls
  refine ⟨shown.contract, ?_⟩
  rw [shown.released]
  exact Outbox.empty.after_buffers calls

/-- A destination that takes `limit` bytes in all and keeps them write by write. -/
def Destination.capped (limit : Nat) : Destination (List (List UInt8)) Unit where
  received := List.flatten
  write d p :=
    let n := min p.length (limit - d.flatten.length)
    ⟨d ++ [p.take n], n, if n < p.length then some () else none⟩
  honours d p := by
    refine ⟨Nat.min_le_left _ _, ?_, fun done => ?_⟩
    · rw [List.flatten_append, List.flatten_singleton]
    simp only [ite_eq_right_iff, reduceCtorEq, imp_false, Nat.not_lt] at done
    exact Nat.le_antisymm (Nat.min_le_left _ _) done
  writeBuffers := none
  writev := none

/-- A write of all slices at once, which clears the vector it was given. -/
def Vectored.capped (limit : Nat) : Vectored (List (List UInt8)) Unit List.flatten where
  send d size vec :=
    ((Destination.capped limit).write d (vec.toList.flatMap cellBytes),
      ⟨.replicate size none, none⟩)
  honours d _ _ := (Destination.capped limit).honours d _

/-- One `Write` per slice, `writev`, and a `BuffersWriter`, which is preferred to `writev`. -/
def threeWays : List (Destination (List (List UInt8)) Unit) :=
  [.capped 3, { Destination.capped 3 with writev := some (.capped 4) },
    { Destination.capped 3 with writeBuffers := some (.capped 5), writev := some (.capped 4) }]

theorem writer_sends_in_order_three_ways :
    let calls : List (WriterCall Nat) := [.add ⟨7, [1, 2]⟩, .addShared [3, 4], .add ⟨8, [5]⟩]
    let out dest := (Outgoing.start []).run dest id calls
    threeWays.map (fun dest => ((out dest).flush dest).1) =
        [(3, some ()), (4, some ()), (5, none)] ∧
      threeWays.map (fun dest => ((out dest).flush dest).2.dst) =
        [[[1, 2], [3]], [[1, 2, 3, 4]], [[1, 2, 3, 4, 5]]] ∧
      ∀ dest ∈ threeWays,
        WriterContract dest (out dest) (calls.foldl Outbox.after .empty) ∧
          (out dest).released ++ (calls.foldl Outbox.after .empty).buffers = addedBy calls :=
  ⟨by decide, by decide, fun dest _ => writer_sends_in_order dest id [] _⟩

end Netx.Stream
