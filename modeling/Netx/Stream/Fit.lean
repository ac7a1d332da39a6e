import Mathlib.Algebra.BigOperators.Group.Multiset.Basic
import Netx.Stream.ReaderProperties
import Netx.Stream.StepwiseRuns

/-!
# What a reader knows about its source and its pool

The cursors, the size of the buffer, the buffer it has borrowed and the error it remembers
fit the history of what it asked for and what it was answered.
-/

set_option autoImplicit false

namespace Netx.Stream

variable {Handle : Type}

def SourceRead.Invalid (call : SourceRead) : Prop :=
  call.n < 0 ∨ call.n > call.size

instance (call : SourceRead) : Decidable call.Invalid :=
  inferInstanceAs (Decidable (_ ∨ _))

/-- Neither data nor an error. -/
def SourceRead.Empty (call : SourceRead) : Prop :=
  call.n = 0 ∧ call.err = none

instance (call : SourceRead) : Decidable call.Empty :=
  inferInstanceAs (Decidable (_ ∧ _))

/-- The error that a source read ends the stream with. -/
def SourceRead.verdict (call : SourceRead) : Option Error :=
  if call.Invalid then some .invalidCount else call.err

/-- The bytes that the last source read returned which was neither empty nor invalid. -/
def lastCount (calls : List SourceRead) : Nat :=
  calls.foldl (fun last call => if call.Empty ∨ call.Invalid then last else call.n.toNat) 0

private theorem lastCount_append (calls : List SourceRead) (call : SourceRead) :
    lastCount (calls ++ [call]) =
      if call.Empty ∨ call.Invalid then lastCount calls else call.n.toNat := by
  simp [lastCount]

theorem SourceRead.Empty.verdict {call : SourceRead} (empty : call.Empty) :
    call.verdict = none := by
  have valid : ¬call.Invalid := by
    rw [Invalid, empty.1]
    omega
  rw [SourceRead.verdict, if_neg valid, empty.2]

def sourceRead : Event Handle → Option SourceRead
  | ⟨.read reader, result⟩ =>
      let result : ReadResult (reader.data.length - reader.w) := result
      some ⟨reader.data.length - reader.w, result.bytes.toList, result.n, result.err⟩
  | _ => none

/-- The source reads of a history. -/
def reads (history : List (Event Handle)) : List SourceRead :=
  history.filterMap sourceRead

@[simp] theorem reads_nil : reads ([] : List (Event Handle)) = [] := rfl

@[simp] theorem reads_append (front back : List (Event Handle)) :
    reads (front ++ back) = reads front ++ reads back :=
  List.filterMap_append

/-- The buffer and the length it was asked for. -/
def Borrowed.claim (borrowed : Borrowed Handle) : Handle × Nat :=
  (borrowed.handle, borrowed.B.length)

/-- The buffers that were granted and not given back. Nothing else can be given back. -/
inductive Holds : List (Event Handle) → Multiset (Handle × Nat) → Prop where
  | start : Holds [] 0
  | read {history : List (Event Handle)} {owned : Multiset (Handle × Nat)}
      (reader : Reader Handle) (result : ReadResult (reader.data.length - reader.w)) :
      Holds history owned → Holds (history ++ [⟨.read reader, result⟩]) owned
  | refused {history : List (Event Handle)} {owned : Multiset (Handle × Nat)}
      (reader : Reader Handle) (size : Nat) :
      Holds history owned → Holds (history ++ [⟨.get reader size, none⟩]) owned
  | granted {history : List (Event Handle)} {owned : Multiset (Handle × Nat)}
      (reader : Reader Handle) (size : Nat) (borrowed : Borrowed Handle) :
      Holds history owned →
      Holds (history ++ [⟨.get reader size, some borrowed⟩]) (borrowed.claim ::ₘ owned)
  | released {history : List (Event Handle)} {owned : Multiset (Handle × Nat)}
      (borrowed : Borrowed Handle) :
      Holds history (borrowed.claim ::ₘ owned) →
      Holds (history ++ [⟨.release borrowed, ()⟩]) owned

variable {history : List (Event Handle)} {owned : Multiset (Handle × Nat)}

theorem Holds.reads {made : List (Event Handle)} (holds : Holds history owned)
    (read : ∀ event ∈ made, (sourceRead event).isSome) : Holds (history ++ made) owned := by
  induction made generalizing history with
  | nil => rwa [List.append_nil]
  | cons event made ih =>
      obtain ⟨first, later⟩ := List.forall_mem_cons.mp read
      rw [List.append_cons]
      refine ih ?_ later
      obtain ⟨op, answer⟩ := event
      cases op with
      | read reader => exact holds.read reader answer
      | _ => cases first

/-- What one request does to the buffers that are held. -/
def Event.Moves (before owned : Multiset (Handle × Nat)) : Event Handle → Prop
  | ⟨.get _ _, answer⟩ =>
      let answer : Option (Borrowed Handle) := answer
      owned = answer.elim before fun borrowed => borrowed.claim ::ₘ before
  | ⟨.release borrowed, _⟩ => before = borrowed.claim ::ₘ owned
  | _ => owned = before

theorem Holds.moves {event : Event Handle} (holds : Holds (history ++ [event]) owned) :
    ∃ before, Holds history before ∧ Event.Moves before owned event := by
  generalize whole : history ++ [event] = later at holds
  cases holds with
  | start => simp at whole
  | read reader result holds =>
      obtain ⟨rfl, same⟩ := List.append_inj' whole rfl
      cases same
      exact ⟨_, holds, rfl⟩
  | refused reader size holds =>
      obtain ⟨rfl, same⟩ := List.append_inj' whole rfl
      cases same
      exact ⟨_, holds, rfl⟩
  | granted reader size borrowed holds =>
      obtain ⟨rfl, same⟩ := List.append_inj' whole rfl
      cases same
      exact ⟨_, holds, rfl⟩
  | released borrowed holds =>
      obtain ⟨rfl, same⟩ := List.append_inj' whole rfl
      cases same
      exact ⟨_, holds, rfl⟩

theorem Holds.unique {other : Multiset (Handle × Nat)} (holds : Holds history owned)
    (others : Holds history other) : owned = other := by
  induction holds generalizing other with
  | start =>
      generalize empty : ([] : List (Event Handle)) = history at others
      cases others with
      | start => rfl
      | _ => simp at empty
  | read reader result holds ih =>
      obtain ⟨before, previous, moved⟩ := others.moves
      exact (ih previous).trans moved.symm
  | refused reader size holds ih =>
      obtain ⟨before, previous, moved⟩ := others.moves
      exact (ih previous).trans moved.symm
  | granted reader size borrowed holds ih =>
      obtain ⟨before, previous, moved⟩ := others.moves
      rw [ih previous]
      exact moved.symm
  | released borrowed holds ih =>
      obtain ⟨before, previous, moved⟩ := others.moves
      exact (Multiset.cons_inj_right _).mp ((ih previous).trans moved)

namespace Reader

def claims (reader : Reader Handle) : Multiset (Handle × Nat) :=
  reader.big.elim 0 fun borrowed => {borrowed.claim}

/-- The idle buffer is not empty, and a larger one was asked of the pool. -/
structure Sized (reader : Reader Handle) : Prop where
  idle : 0 < reader.idle.length
  within : reader.idle.length ≤ reader.max
  grown : ∀ claim ∈ reader.claims, reader.idle.length < claim.2 ∧
    ∃ n, claim.2 = min (Buf.capacity n) reader.max
  released : reader.done = true → reader.claims = 0

structure Shaped (reader : Reader Handle) : Prop extends reader.Sized where
  ordered : reader.r ≤ reader.w
  bounded : reader.w ≤ reader.data.length
  emptied : reader.r = reader.w → reader.w = 0

/-- What the reader remembers of its source. After an error there are no more reads. -/
structure Logged (calls : List SourceRead) (reader : Reader Handle) : Prop where
  err : reader.err = calls.findSome? SourceRead.verdict
  final : ∀ front call back, calls = front ++ call :: back → call.verdict ≠ none → back = []
  room : ∀ call ∈ calls, 0 < call.size
  last : reader.last = lastCount calls

structure Fit (history : List (Event Handle)) (reader : Reader Handle) : Prop where
  shaped : reader.Shaped
  holds : Holds history reader.claims
  logged : reader.Logged (reads history)

variable {reader : Reader Handle}

theorem newReader_fit {o : ReaderOptions} {hasPool : Bool}
    (accepted : newReader Handle o hasPool = some reader) : reader.Fit [] := by
  simp only [newReader, Option.ite_none_left_eq_some, Option.some.injEq, not_or] at accepted
  obtain ⟨⟨nonneg, within, _⟩, rfl⟩ := accepted
  have idle : 0 < (if o.idleSize = 0 then 512 else o.idleSize) := by
    split at nonneg <;> split <;> omega
  refine ⟨⟨⟨?_, ?_, ?_, fun _ => rfl⟩, Nat.le_refl _, Nat.zero_le _, fun _ => rfl⟩, .start,
    ⟨rfl, by simp, by simp, rfl⟩⟩
  · rw [List.length_replicate]
    omega
  · rw [List.length_replicate]
    exact Int.toNat_le_toNat (not_lt.mp within)
  · exact fun claim member => absurd member (Multiset.notMem_zero claim)

section Claims

variable {reader : Reader Handle}

theorem claims_of_none (idle : reader.big = none) : reader.claims = 0 := by
  rw [claims, idle]
  rfl

theorem claims_of_some {borrowed : Borrowed Handle} (big : reader.big = some borrowed) :
    reader.claims = {borrowed.claim} := by
  rw [claims, big]
  rfl

private theorem data_of_none (active : reader.done = false) (idle : reader.big = none) :
    reader.data = reader.idle := by
  simp [data, active, idle]

theorem data_of_some {borrowed : Borrowed Handle} (active : reader.done = false)
    (big : reader.big = some borrowed) : reader.data = borrowed.B := by
  simp [data, active, big]

theorem setData_setData (first second : List UInt8) :
    (reader.setData first).setData second = reader.setData second := by
  unfold setData
  cases big : reader.big <;> simp

theorem setData_data (active : reader.done = false) : reader.setData reader.data = reader := by
  obtain ⟨idle, big, r, w, last, err, max, done⟩ := reader
  obtain rfl : done = false := active
  cases big <;> rfl

@[simp] theorem setData_last (bytes : List UInt8) :
    (reader.setData bytes).last = reader.last := by
  unfold setData; split <;> rfl

/-- What is written into a buffer does not change its size or who owns it. -/
theorem setData_kept {bytes : List UInt8} (active : reader.done = false)
    (size : bytes.length = reader.data.length) :
    (reader.setData bytes).idle.length = reader.idle.length ∧
      (reader.setData bytes).claims = reader.claims := by
  cases big : reader.big with
  | none =>
      rw [data_of_none active big] at size
      simp [setData, claims, big, size]
  | some borrowed =>
      rw [data_of_some active big] at size
      simp [setData, claims, big, Borrowed.claim, size]

end Claims

theorem Sized.of_same {next : Reader Handle} (sized : reader.Sized)
    (idle : next.idle.length = reader.idle.length) (claims : next.claims = reader.claims)
    (max : next.max = reader.max) (done : next.done = reader.done) : next.Sized := by
  refine ⟨?_, ?_, ?_, ?_⟩
  · rw [idle]
    exact sized.idle
  · rw [idle, max]
    exact sized.within
  · rw [idle, claims, max]
    exact sized.grown
  · rw [claims, done]
    exact sized.released

/-- The borrowed buffer has gone back. -/
theorem Sized.on_idle {next : Reader Handle} (sized : reader.Sized)
    (idle : next.idle.length = reader.idle.length) (max : next.max = reader.max)
    (big : next.big = none) : next.Sized := by
  have claims := claims_of_none big
  refine ⟨?_, ?_, ?_, fun _ => claims⟩
  · rw [idle]
    exact sized.idle
  · rw [idle, max]
    exact sized.within
  · rw [claims]
    exact fun claim member => absurd member (Multiset.notMem_zero claim)

namespace Shaped

variable {reader : Reader Handle}

theorem valid (shaped : reader.Shaped) (active : reader.done = false) : reader.Valid :=
  ⟨active, shaped.ordered, shaped.bounded⟩

theorem length_buffered (shaped : reader.Shaped) : reader.buffered.length = reader.len := by
  simp [buffered, len, Nat.min_eq_left shaped.bounded]

theorem grown_of_some (shaped : reader.Shaped) {borrowed : Borrowed Handle}
    (big : reader.big = some borrowed) : reader.idle.length < borrowed.B.length ∧
      ∃ n, borrowed.B.length = min (Buf.capacity n) reader.max :=
  shaped.grown borrowed.claim (by rw [claims_of_some big]; exact Multiset.mem_singleton_self _)

theorem length_le (shaped : reader.Shaped) : reader.data.length ≤ reader.max := by
  cases released : reader.done with
  | true => simp [data, released]
  | false =>
      cases big : reader.big with
      | none =>
          rw [data_of_none released big]
          exact shaped.within
      | some borrowed =>
          obtain ⟨_, n, size⟩ := shaped.grown_of_some big
          rw [data_of_some released big]
          omega

theorem idle_le (shaped : reader.Shaped) (active : reader.done = false) :
    reader.idle.length ≤ reader.data.length := by
  cases big : reader.big with
  | none => rw [data_of_none active big]
  | some borrowed =>
      rw [data_of_some active big]
      exact Nat.le_of_lt (shaped.grown_of_some big).1

/-- An empty buffer has free space at its end. -/
theorem room (shaped : reader.Shaped) (active : reader.done = false)
    (empty : reader.len = 0) : reader.w < reader.data.length := by
  have idle := shaped.idle
  have least := shaped.idle_le active
  have ordered := shaped.ordered
  have zero := shaped.emptied (by simp only [len] at empty; omega)
  omega

/-- The source has written into the buffer. -/
theorem setData {bytes : List UInt8} (shaped : reader.Shaped) (active : reader.done = false)
    (size : bytes.length = reader.data.length) : (reader.setData bytes).Shaped := by
  obtain ⟨idle, claims⟩ := setData_kept active size
  refine ⟨shaped.of_same idle claims (by simp) (by simp), ?_, ?_, ?_⟩
  · simpa using shaped.ordered
  · rw [setData_w, data_setData _ _ active, size]
    exact shaped.bounded
  · simpa using shaped.emptied

end Shaped

section Logs

variable {calls : List SourceRead} {reader next : Reader Handle}

/-- One more source read, and what the reader makes of it. -/
theorem Logged.read (logged : reader.Logged calls) (clean : reader.err = none)
    {call : SourceRead} (room : 0 < call.size) (err : next.err = call.verdict)
    (last : next.last = if call.Empty ∨ call.Invalid then reader.last else call.n.toNat) :
    next.Logged (calls ++ [call]) := by
  have none : calls.findSome? SourceRead.verdict = none := logged.err.symm.trans clean
  refine ⟨?_, ?_, ?_, ?_⟩
  · rw [err, List.findSome?_append, none]
    simp
  · intro front failing back split failed
    rcases List.eq_nil_or_concat back with rfl | ⟨middle, final, rfl⟩
    · rfl
    · have early : calls = front ++ failing :: middle := by
        rw [List.concat_eq_append, ← List.cons_append, ← List.append_assoc] at split
        exact (List.append_inj' split rfl).1
      refine absurd (List.findSome?_eq_none_iff.mp none failing ?_) failed
      rw [early]
      simp
  · intro other member
    rcases List.mem_append.mp member with old | new
    · exact logged.room other old
    · rw [List.mem_singleton.mp new]
      exact room
  · rw [last, lastCount_append, logged.last]

end Logs

end Reader

end Netx.Stream
