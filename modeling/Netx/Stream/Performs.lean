import Netx.Stream.Fit

/-!
# What a call of a reader does

One case for each way through a call: the reader afterwards and the requests it has made.
Every way keeps the reader fit.
-/

set_option autoImplicit false

namespace Netx.Stream

variable {Handle : Type}

/-- Source reads into the free space of a reader, and its buffer afterwards. -/
structure Polled (reader : Reader Handle) (made : List (Event Handle)) (bytes : List UInt8) :
    Prop where
  size : bytes.length = reader.data.length
  read : ∀ event ∈ made, (sourceRead event).isSome
  asked : ∀ call ∈ reads made, call.size = reader.data.length - reader.w

/-- All of `attempts` source reads returned nothing. -/
structure Stalled (attempts : Nat) (reader : Reader Handle) (made : List (Event Handle))
    (bytes : List UInt8) : Prop extends Polled reader made bytes where
  long : (reads made).length = attempts
  empty : ∀ call ∈ reads made, call.Empty

/-- After fewer than `attempts` empty reads, `call` returned something. -/
structure Answered (attempts : Nat) (reader : Reader Handle) (made : List (Event Handle))
    (bytes : List UInt8) (call : SourceRead) : Prop extends Polled reader made bytes where
  split : ∃ empties, reads made = empties ++ [call] ∧ empties.length < attempts ∧
    ∀ empty ∈ empties, empty.Empty
  some : ¬call.Empty

inductive ReadsOnce (history : List (Event Handle)) (reader : Reader Handle) :
    Option Error → Reader Handle → List (Event Handle) → Prop where
  | sticky {err : Error} (sticky : reader.err = some err) :
      ReadsOnce history reader (some err) reader history
  | stalled {made : List (Event Handle)} {bytes : List UInt8} (clean : reader.err = none)
      (stalled : Stalled 100 reader made bytes) :
      ReadsOnce history reader (some .noProgress) (reader.setData bytes) (history ++ made)
  | invalid {made : List (Event Handle)} {bytes : List UInt8} {call : SourceRead}
      (clean : reader.err = none) (answered : Answered 100 reader made bytes call)
      (invalid : call.Invalid) :
      ReadsOnce history reader (some .invalidCount)
        { reader.setData bytes with err := some .invalidCount } (history ++ made)
  | counted {made : List (Event Handle)} {bytes : List UInt8} {call : SourceRead} {n : Nat}
      (clean : reader.err = none) (answered : Answered 100 reader made bytes call)
      (count : call.n = n) (fits : n ≤ call.size) :
      ReadsOnce history reader (if n = 0 then call.err else none)
        { reader.setData bytes with w := reader.w + n, last := n, err := call.err }
        (history ++ made)

/-- The reader after its bytes have moved to a buffer of the pool. -/
def Reader.grown (reader : Reader Handle) (borrowed : Borrowed Handle) : Reader Handle :=
  { reader with
    big := some { borrowed with
      B := reader.buffered ++ borrowed.B.drop reader.buffered.length }
    r := 0
    w := reader.buffered.length }

/-- The buffer in `big` goes back. -/
def Reader.returns (reader : Reader Handle) : List (Event Handle) :=
  reader.big.elim [] fun borrowed => [⟨.release borrowed, ()⟩]

/-- What `ensure(n)` does when fewer than `n` bytes are buffered. -/
inductive Ensured (n : Nat) (history : List (Event Handle)) (reader : Reader Handle) :
    Option Error → Reader Handle → List (Event Handle) → Prop where
  | tooLarge (above : reader.max < n) :
      Ensured n history reader (some .tooLarge) reader history
  | noBuffer (above : reader.data.length < n) (within : n ≤ reader.max) :
      Ensured n history reader (some .noBuffer) reader
        (history ++ [⟨.get reader (min (Buf.capacity n) reader.max), none⟩])
  | fits (enough : n ≤ reader.data.length) (room : reader.w < reader.data.length) :
      Ensured n history reader none reader history
  | compacted (enough : n ≤ reader.data.length) (behind : 0 < reader.r) :
      Ensured n history reader none (reader.front reader.buffered) history
  | grown {borrowed : Borrowed Handle} (above : reader.data.length < n)
      (within : n ≤ reader.max)
      (size : borrowed.B.length = min (Buf.capacity n) reader.max) :
      Ensured n history reader none (reader.grown borrowed)
        (history ++ ⟨.get reader (min (Buf.capacity n) reader.max), some borrowed⟩ ::
          reader.returns)

/-- The loop of `Peek`. -/
inductive Peeks (n : Nat) : List (Event Handle) → Reader Handle →
    List UInt8 × Option Error → Reader Handle → List (Event Handle) → Prop where
  | enough {history : List (Event Handle)} {reader : Reader Handle}
      (enough : n ≤ reader.len) :
      Peeks n history reader (reader.buffered.take n, none) reader history
  | refused {history later : List (Event Handle)} {reader next : Reader Handle} {err : Error}
      (short : reader.len < n) (refused : Ensured n history reader (some err) next later) :
      Peeks n history reader (next.buffered, some err) next later
  | failed {history middle later : List (Event Handle)} {reader roomy next : Reader Handle}
      {err : Error} (short : reader.len < n)
      (ensured : Ensured n history reader none roomy middle)
      (failed : ReadsOnce middle roomy (some err) next later) :
      Peeks n history reader (next.buffered, some err) next later
  | again {history middle second later : List (Event Handle)}
      {reader roomy filled next : Reader Handle} {reply : List UInt8 × Option Error}
      (short : reader.len < n) (ensured : Ensured n history reader none roomy middle)
      (read : ReadsOnce middle roomy none filled second)
      (rest : Peeks n second filled reply next later) :
      Peeks n history reader reply next later

/-- `k` buffered bytes are consumed. -/
inductive Discards (k : Nat) (history : List (Event Handle)) (reader : Reader Handle) :
    Reader Handle → List (Event Handle) → Prop where
  | some (left : reader.r + k ≠ reader.w) :
      Discards k history reader { reader with r := reader.r + k } history
  | all (empty : reader.r + k = reader.w)
      (keeps : reader.big = none ∨ reader.idle.length < reader.last) :
      Discards k history reader { reader with r := 0, w := 0 } history
  | shrinks {borrowed : Borrowed Handle} (empty : reader.r + k = reader.w)
      (big : reader.big = some borrowed) (light : reader.last ≤ reader.idle.length) :
      Discards k history reader { reader with big := none, r := 0, w := 0 }
        (history ++ [⟨.release borrowed, ()⟩])

inductive Performs (history : List (Event Handle)) (reader : Reader Handle) :
    Call → Reply → Reader Handle → List (Event Handle) → Prop where
  | peekReleased (n : Int) (released : reader.done = true) :
      Performs history reader (.peek n) (.bytes [] (some .released)) reader history
  | peekNegative {n : Int} (active : reader.done = false) (negative : n < 0) :
      Performs history reader (.peek n) (.bytes [] (some .negativeCount)) reader history
  | peekTooLarge {n : Int} (active : reader.done = false) (above : reader.max < n) :
      Performs history reader (.peek n) (.bytes reader.buffered (some .tooLarge)) reader history
  | peek {n : Int} {reply : List UInt8 × Option Error} {next : Reader Handle}
      {later : List (Event Handle)} (active : reader.done = false) (nonneg : 0 ≤ n)
      (within : n ≤ reader.max) (peeks : Peeks n.toNat history reader reply next later) :
      Performs history reader (.peek n) (.bytes reply.1 reply.2) next later
  | fillReleased (released : reader.done = true) :
      Performs history reader .fill (.status (some .released)) reader history
  | fillRefused {err : Error} {next : Reader Handle} {later : List (Event Handle)}
      (active : reader.done = false)
      (refused : Ensured (reader.len + 1) history reader (some err) next later) :
      Performs history reader .fill (.status (some err)) next later
  | fill {failed : Option Error} {roomy next : Reader Handle}
      {middle later : List (Event Handle)} (active : reader.done = false)
      (ensured : Ensured (reader.len + 1) history reader none roomy middle)
      (read : ReadsOnce middle roomy failed next later) :
      Performs history reader .fill (.status failed) next later
  | readReleased (size : Nat) (released : reader.done = true) :
      Performs history reader (.read size) (.bytes [] (some .released)) reader history
  | readNothing (active : reader.done = false) :
      Performs history reader (.read 0) (.bytes [] none) reader history
  | readFailed {size : Nat} {err : Error} {next : Reader Handle} {later : List (Event Handle)}
      (active : reader.done = false) (asked : 0 < size) (empty : reader.len = 0)
      (failed : ReadsOnce history reader (some err) next later) :
      Performs history reader (.read size) (.bytes [] (some err)) next later
  | readSource {size : Nat} {filled next : Reader Handle} {middle later : List (Event Handle)}
      (active : reader.done = false) (asked : 0 < size) (empty : reader.len = 0)
      (read : ReadsOnce history reader none filled middle)
      (delivers : Discards (min size filled.len) middle filled next later) :
      Performs history reader (.read size) (.bytes (filled.buffered.take size) none) next later
  | readBuffered {size : Nat} {next : Reader Handle} {later : List (Event Handle)}
      (active : reader.done = false) (asked : 0 < size) (some : 0 < reader.len)
      (delivers : Discards (min size reader.len) history reader next later) :
      Performs history reader (.read size) (.bytes (reader.buffered.take size) none) next later
  | discardNothing {n : Int} (none : n ≤ 0) :
      Performs history reader (.discard n) (.count 0) reader history
  | discard {n : Int} {next : Reader Handle} {later : List (Event Handle)} (some : 0 < n)
      (discards : Discards (min n.toNat reader.len) history reader next later) :
      Performs history reader (.discard n) (.count (min n.toNat reader.len)) next later
  | buffered : Performs history reader .buffered (.bytes reader.buffered none) reader history
  | releaseAgain (released : reader.done = true) :
      Performs history reader .release .unit reader history
  | release (active : reader.done = false) :
      Performs history reader .release .unit
        { reader with done := true, big := none, r := 0, w := 0 } (history ++ reader.returns)

/-- What reading and making room leave alone. -/
structure Frame (reader next : Reader Handle) : Prop where
  done : next.done = reader.done
  max : next.max = reader.max
  idle : next.idle.length = reader.idle.length

theorem Frame.refl (reader : Reader Handle) : Frame reader reader :=
  ⟨rfl, rfl, rfl⟩

theorem Frame.trans {first second third : Reader Handle} (front : Frame first second)
    (back : Frame second third) : Frame first third :=
  ⟨back.done.trans front.done, back.max.trans front.max, back.idle.trans front.idle⟩

section Reading

variable {history later made : List (Event Handle)} {reader next : Reader Handle}
  {bytes : List UInt8} {call : SourceRead} {failed : Option Error}

theorem Reader.Logged.quiet {calls empties : List SourceRead} (logged : reader.Logged calls)
    (clean : reader.err = none) (room : ∀ call ∈ empties, 0 < call.size)
    (empty : ∀ call ∈ empties, call.Empty) : reader.Logged (calls ++ empties) := by
  induction empties generalizing calls with
  | nil => rwa [List.append_nil]
  | cons call empties ih =>
      obtain ⟨firstRoom, laterRoom⟩ := List.forall_mem_cons.mp room
      obtain ⟨firstEmpty, laterEmpty⟩ := List.forall_mem_cons.mp empty
      rw [List.append_cons]
      refine ih (logged.read clean firstRoom ?_ ?_) laterRoom laterEmpty
      · rw [clean, firstEmpty.verdict]
      · rw [if_pos (.inl firstEmpty)]

theorem Polled.frame (polled : Polled reader made bytes) (active : reader.done = false) :
    Frame reader (reader.setData bytes) :=
  ⟨by simp, by simp, (Reader.setData_kept active polled.size).1⟩

theorem Polled.length (polled : Polled reader made bytes) (active : reader.done = false) :
    (reader.setData bytes).data.length = reader.data.length := by
  rw [Reader.data_setData _ _ active, polled.size]

theorem Polled.room (polled : Polled reader made bytes)
    (room : reader.w < reader.data.length) : ∀ call ∈ reads made, 0 < call.size := by
  intro call member
  rw [polled.asked call member]
  omega

/-- Empty reads change nothing that the reader knows. -/
theorem Polled.fit (polled : Polled reader made bytes) (fit : reader.Fit history)
    (active : reader.done = false) (clean : reader.err = none)
    (room : reader.w < reader.data.length) (empty : ∀ call ∈ reads made, call.Empty) :
    (reader.setData bytes).Fit (history ++ made) := by
  refine ⟨fit.shaped.setData active polled.size, ?_, ?_⟩
  · rw [(Reader.setData_kept active polled.size).2]
    exact fit.holds.reads polled.read
  · obtain ⟨err, final, sizes, last⟩ := fit.logged.quiet clean (polled.room room) empty
    rw [reads_append]
    exact ⟨by rw [Reader.setData_err]; exact err, final, sizes,
      by rw [Reader.setData_last]; exact last⟩

/-- The log after a read that returned something. -/
theorem Answered.logged {attempts : Nat} (answered : Answered attempts reader made bytes call)
    (logged : reader.Logged (reads history)) (clean : reader.err = none)
    (room : reader.w < reader.data.length) (err : next.err = call.verdict)
    (last : next.last = if call.Invalid then reader.last else call.n.toNat) :
    next.Logged (reads (history ++ made)) := by
  obtain ⟨empties, split, _, empty⟩ := answered.split
  have sizes := answered.room room
  rw [split, List.forall_mem_append, List.forall_mem_singleton] at sizes
  rw [reads_append, split, ← List.append_assoc]
  refine (logged.quiet clean sizes.1 empty).read clean sizes.2 err ?_
  simp only [last, answered.some, false_or]

theorem ReadsOnce.frame (once : ReadsOnce history reader failed next later)
    (active : reader.done = false) : Frame reader next ∧ next.r = reader.r ∧
      next.data.length = reader.data.length ∧ next.claims = reader.claims := by
  cases once with
  | sticky sticky => exact ⟨.refl _, rfl, rfl, rfl⟩
  | stalled clean stalled =>
      exact ⟨stalled.frame active, by simp, stalled.length active,
        (Reader.setData_kept active stalled.size).2⟩
  | invalid clean answered invalid =>
      obtain ⟨done, max, idle⟩ := answered.frame active
      exact ⟨⟨done, max, idle⟩, by simp, answered.length active,
        (Reader.setData_kept active answered.size).2⟩
  | counted clean answered count fits =>
      obtain ⟨done, max, idle⟩ := answered.frame active
      exact ⟨⟨done, max, idle⟩, by simp, answered.length active,
        (Reader.setData_kept active answered.size).2⟩

theorem ReadsOnce.reads_only (once : ReadsOnce history reader failed next later) :
    ∃ made, later = history ++ made ∧ ∀ event ∈ made, (sourceRead event).isSome := by
  cases once with
  | sticky sticky => exact ⟨[], (List.append_nil _).symm, by simp⟩
  | stalled clean stalled => exact ⟨_, rfl, stalled.read⟩
  | invalid clean answered invalid => exact ⟨_, rfl, answered.read⟩
  | counted clean answered count fits => exact ⟨_, rfl, answered.read⟩

theorem ReadsOnce.fit (once : ReadsOnce history reader failed next later)
    (fit : reader.Fit history) (active : reader.done = false)
    (room : reader.w < reader.data.length) : next.Fit later := by
  have holds : Holds later next.claims := by
    obtain ⟨made, rfl, read⟩ := once.reads_only
    rw [(once.frame active).2.2.2]
    exact fit.holds.reads read
  cases once with
  | sticky sticky => exact fit
  | stalled clean stalled => exact stalled.fit fit active clean room stalled.empty
  | @invalid made bytes call clean answered invalid =>
      obtain ⟨sized, ordered, bounded, emptied⟩ := fit.shaped.setData active answered.size
      refine ⟨⟨sized.of_same rfl rfl rfl rfl, ordered, bounded, emptied⟩, holds, ?_⟩
      refine answered.logged fit.logged clean room ?_ ?_
      · exact (if_pos invalid).symm
      · rw [if_pos invalid]
        exact Reader.setData_last bytes
  | @counted made bytes call n clean answered count fits =>
      have valid : ¬call.Invalid := by
        rw [SourceRead.Invalid, count]
        omega
      have size := answered.asked call (by obtain ⟨_, split, _⟩ := answered.split; simp [split])
      obtain ⟨sized, ordered, bounded, emptied⟩ := fit.shaped.setData active answered.size
      rw [Reader.setData_r, Reader.setData_w] at ordered emptied
      refine ⟨⟨sized.of_same rfl rfl rfl rfl, ?_, ?_, ?_⟩, holds, ?_⟩
      · show (reader.setData bytes).r ≤ reader.w + n
        rw [Reader.setData_r]
        omega
      · show reader.w + n ≤ (reader.setData bytes).data.length
        rw [answered.length active]
        omega
      · show (reader.setData bytes).r = reader.w + n → reader.w + n = 0
        rw [Reader.setData_r]
        omega
      · refine answered.logged fit.logged clean room ?_ ?_
        · exact (if_neg valid).symm
        · rw [if_neg valid, count]
          rfl

/-- A read without an error adds bytes, any other adds none. -/
theorem ReadsOnce.len (once : ReadsOnce history reader failed next later)
    (fit : reader.Fit history) :
    (failed = none → reader.len < next.len) ∧ (failed ≠ none → next.len = reader.len) := by
  have ordered := fit.shaped.ordered
  cases once with
  | sticky sticky => simp
  | stalled clean stalled => simp [Reader.len]
  | invalid clean answered invalid => simp [Reader.len]
  | @counted made bytes call n clean answered count fits =>
      simp only [Reader.len, Reader.setData_r]
      by_cases zero : n = 0
      · subst zero
        have err : call.err ≠ none := fun silent => answered.some ⟨count, silent⟩
        simp [err]
      · simp only [if_neg zero, ne_eq, not_true, false_implies, and_true, forall_const]
        omega

end Reading

section Making

variable {n : Nat} {history later : List (Event Handle)} {reader next : Reader Handle}
  {borrowed : Borrowed Handle} {failed : Option Error}

@[simp] theorem reads_returns (reader : Reader Handle) : reads reader.returns = [] := by
  unfold Reader.returns
  cases reader.big <;> rfl

/-- A refusal comes before anything is read or changed. -/
theorem Ensured.refused {err : Error} (refused : Ensured n history reader (some err) next later) :
    next = reader ∧
      (err = .tooLarge ∧ reader.max < n ∧ later = history ∨
        err = .noBuffer ∧ reader.data.length < n ∧ n ≤ reader.max ∧
          later = history ++ [⟨.get reader (min (Buf.capacity n) reader.max), none⟩]) := by
  cases refused with
  | tooLarge above => exact ⟨rfl, .inl ⟨rfl, above, rfl⟩⟩
  | noBuffer above within => exact ⟨rfl, .inr ⟨rfl, above, within, rfl⟩⟩

theorem Ensured.reads (ensured : Ensured n history reader failed next later) :
    reads later = reads history := by
  cases ensured with
  | tooLarge above => rfl
  | fits enough room => rfl
  | compacted enough behind => rfl
  | noBuffer above within =>
      rw [reads_append]
      exact List.append_nil _
  | @grown borrowed above within size =>
      have granted : reads (⟨.get reader (min (Buf.capacity n) reader.max), some borrowed⟩ ::
          reader.returns : List (Event Handle)) = reads reader.returns := rfl
      rw [reads_append, granted, reads_returns, List.append_nil]

theorem Reader.Shaped.front_length (shaped : reader.Shaped) :
    (reader.buffered ++ reader.data.drop reader.buffered.length).length =
      reader.data.length := by
  have bounded := shaped.bounded
  rw [List.length_append, List.length_drop, shaped.length_buffered, Reader.len]
  omega

theorem Reader.Shaped.length_le_of_larger (shaped : reader.Shaped)
    (above : reader.data.length < n) (within : n ≤ reader.max)
    (size : borrowed.B.length = min (Buf.capacity n) reader.max) :
    n ≤ borrowed.B.length ∧ reader.buffered.length < borrowed.B.length := by
  have fits := Buf.le_capacity n
  have bounded := shaped.bounded
  rw [shaped.length_buffered, Reader.len]
  omega

theorem Reader.grown_claims (fits : reader.buffered.length ≤ borrowed.B.length) :
    (reader.grown borrowed).claims = {borrowed.claim} := by
  simp [Reader.grown, Reader.claims, Borrowed.claim, Nat.add_sub_of_le fits]

theorem Reader.grown_length (active : reader.done = false)
    (fits : reader.buffered.length ≤ borrowed.B.length) :
    (reader.grown borrowed).data.length = borrowed.B.length := by
  simp [Reader.grown, Reader.data, active, Nat.add_sub_of_le fits]

theorem Reader.grown_buffered (active : reader.done = false) :
    (reader.grown borrowed).buffered = reader.buffered := by
  simp [Reader.grown, Reader.buffered, Reader.data, active]

/-- The buffers change hands: the new one comes before the old one goes. -/
theorem Holds.grows {size : Nat} (holds : Holds history reader.claims) :
    Holds (history ++ ⟨.get reader size, some borrowed⟩ :: reader.returns) {borrowed.claim} := by
  have granted := holds.granted reader size borrowed
  rw [List.append_cons]
  cases big : reader.big with
  | none =>
      rw [Reader.claims_of_none big] at granted
      simpa [Reader.returns, big] using granted
  | some old =>
      rw [Reader.claims_of_some big, ← Multiset.cons_zero old.claim, Multiset.cons_swap] at granted
      simpa [Reader.returns, big] using granted.released old

theorem Holds.returns (holds : Holds history reader.claims) :
    Holds (history ++ reader.returns) 0 := by
  cases big : reader.big with
  | none =>
      rw [Reader.claims_of_none big] at holds
      simpa [Reader.returns, big] using holds
  | some old =>
      rw [Reader.claims_of_some big, ← Multiset.cons_zero old.claim] at holds
      simpa [Reader.returns, big] using holds.released old

/-- There is room for `n` bytes, and for one at the end of the buffer. -/
structure Roomy (n : Nat) (reader next : Reader Handle) : Prop extends Frame reader next where
  enough : n ≤ next.data.length
  room : next.w < next.data.length
  buffered : next.buffered = reader.buffered
  err : next.err = reader.err
  last : next.last = reader.last

theorem Ensured.roomy (ensured : Ensured n history reader none next later)
    (fit : reader.Fit history) (active : reader.done = false) : Roomy n reader next := by
  have shaped := fit.shaped
  have bounded := shaped.bounded
  have ordered := shaped.ordered
  cases ensured with
  | fits enough room => exact ⟨.refl _, enough, room, rfl, rfl, rfl⟩
  | compacted enough behind =>
      have valid := shaped.valid active
      have size := shaped.front_length
      have length : (reader.front reader.buffered).data.length = reader.data.length :=
        (congrArg List.length (Session.data_compact valid)).trans size
      refine ⟨⟨by simp [Reader.front], by simp [Reader.front],
        (Reader.setData_kept active size).1⟩, ?_, ?_, (Session.compact_spec valid).2,
        by simp [Reader.front], by simp [Reader.front]⟩
      · rw [length]
        exact enough
      · rw [length]
        show reader.buffered.length < reader.data.length
        rw [shaped.length_buffered, Reader.len]
        omega
  | @grown borrowed above within size =>
      obtain ⟨enough, fits⟩ := shaped.length_le_of_larger above within size
      have length := reader.grown_length active (Nat.le_of_lt fits)
      refine ⟨⟨rfl, rfl, rfl⟩, ?_, ?_, reader.grown_buffered active, rfl, rfl⟩
      · rw [length]
        exact enough
      · rw [length]
        exact fits

theorem Ensured.fit (ensured : Ensured n history reader none next later)
    (fit : reader.Fit history) (active : reader.done = false) : next.Fit later := by
  have logged : next.Logged (Stream.reads later) := by
    have roomy := ensured.roomy fit active
    obtain ⟨err, final, sizes, last⟩ := fit.logged
    rw [ensured.reads]
    exact ⟨roomy.err.trans err, final, sizes, roomy.last.trans last⟩
  have shaped := fit.shaped
  cases ensured with
  | fits enough room => exact fit
  | compacted enough behind =>
      obtain ⟨_, _, bounded⟩ := (Session.compact_spec (shaped.valid active)).1
      obtain ⟨idle, claims⟩ := Reader.setData_kept active shaped.front_length
      have same : (reader.front reader.buffered).claims = reader.claims := claims
      refine ⟨⟨shaped.of_same idle same (by simp [Reader.front]) (by simp [Reader.front]),
        Nat.zero_le _, bounded, fun front => front.symm⟩, ?_, logged⟩
      rw [same]
      exact fit.holds
  | @grown borrowed above within size =>
      obtain ⟨enough, fits⟩ := shaped.length_le_of_larger above within size
      have claims := reader.grown_claims (Nat.le_of_lt fits)
      refine ⟨⟨⟨shaped.idle, shaped.within, ?_, ?_⟩, Nat.zero_le _, ?_, fun front => front.symm⟩,
        ?_, logged⟩
      · have least := shaped.idle_le active
        rw [claims]
        intro claim member
        rw [Multiset.mem_singleton.mp member]
        refine ⟨?_, n, size⟩
        show reader.idle.length < borrowed.B.length
        omega
      · intro released
        rw [show (reader.grown borrowed).done = reader.done from rfl, active] at released
        cases released
      · rw [reader.grown_length active (Nat.le_of_lt fits)]
        exact Nat.le_of_lt fits
      · rw [claims]
        exact fit.holds.grows

theorem Ensured.refused_fit {err : Error}
    (refused : Ensured n history reader (some err) next later) (fit : reader.Fit history) :
    next.Fit later := by
  have same := refused.reads
  cases refused with
  | tooLarge above => exact fit
  | noBuffer above within =>
      refine ⟨fit.shaped, fit.holds.refused reader _, ?_⟩
      rw [same]
      exact fit.logged

end Making

section Calls

variable {history later : List (Event Handle)} {reader next : Reader Handle}

theorem Roomy.len {n : Nat} (roomy : Roomy n reader next) (shaped : reader.Shaped)
    (nextShaped : next.Shaped) : next.len = reader.len := by
  rw [← nextShaped.length_buffered, ← shaped.length_buffered, roomy.buffered]

theorem Peeks.fit {n : Nat} {reply : List UInt8 × Option Error}
    (peeks : Peeks n history reader reply next later) (fit : reader.Fit history)
    (active : reader.done = false) : next.Fit later ∧ Frame reader next := by
  induction peeks with
  | enough enough => exact ⟨fit, .refl _⟩
  | @refused history later reader next err short refused =>
      obtain ⟨rfl, _⟩ := refused.refused
      exact ⟨refused.refused_fit fit, .refl _⟩
  | failed short ensured failed =>
      have roomy := ensured.roomy fit active
      have still := roomy.done.trans active
      exact ⟨failed.fit (ensured.fit fit active) still roomy.room,
        roomy.toFrame.trans (failed.frame still).1⟩
  | again short ensured read rest ih =>
      have roomy := ensured.roomy fit active
      have still := roomy.done.trans active
      have frame := roomy.toFrame.trans (read.frame still).1
      obtain ⟨nextFit, remaining⟩ :=
        ih (read.fit (ensured.fit fit active) still roomy.room) (frame.done.trans active)
      exact ⟨nextFit, frame.trans remaining⟩

theorem Discards.fit {k : Nat} (discards : Discards k history reader next later)
    (least : k ≤ reader.len) (fit : reader.Fit history) :
    next.Fit later ∧ Frame reader next := by
  obtain ⟨⟨sized, ordered, bounded, emptied⟩, holds, logged⟩ := fit
  obtain ⟨err, final, sizes, last⟩ := logged
  cases discards with
  | some left =>
      refine ⟨⟨⟨sized.of_same rfl rfl rfl rfl, ?_, bounded, ?_⟩, holds,
        ⟨err, final, sizes, last⟩⟩, ⟨rfl, rfl, rfl⟩⟩
      · show reader.r + k ≤ reader.w
        simp only [Reader.len] at least
        omega
      · exact fun empty => absurd empty left
  | all empty keeps =>
      exact ⟨⟨⟨sized.of_same rfl rfl rfl rfl, Nat.le_refl _, Nat.zero_le _, fun _ => rfl⟩, holds,
        ⟨err, final, sizes, last⟩⟩, ⟨rfl, rfl, rfl⟩⟩
  | @shrinks borrowed empty big light =>
      rw [Reader.claims_of_some big, ← Multiset.cons_zero borrowed.claim] at holds
      refine ⟨⟨⟨sized.on_idle rfl rfl rfl, Nat.le_refl _, Nat.zero_le _, fun _ => rfl⟩,
        holds.released borrowed, ?_⟩, ⟨rfl, rfl, rfl⟩⟩
      rw [reads_append, show reads [(⟨.release borrowed, ()⟩ : Event Handle)] = [] from rfl,
        List.append_nil]
      exact ⟨err, final, sizes, last⟩

/-- Every call keeps the reader fit and leaves its limits alone. -/
theorem Performs.fit {request : Call} {reply : Reply}
    (performs : Performs history reader request reply next later) (fit : reader.Fit history) :
    next.Fit later ∧ next.max = reader.max ∧ next.idle.length = reader.idle.length := by
  cases performs with
  | peekReleased n released => exact ⟨fit, rfl, rfl⟩
  | peekNegative active negative => exact ⟨fit, rfl, rfl⟩
  | peekTooLarge active above => exact ⟨fit, rfl, rfl⟩
  | peek active nonneg within peeks =>
      obtain ⟨nextFit, frame⟩ := peeks.fit fit active
      exact ⟨nextFit, frame.max, frame.idle⟩
  | fillReleased released => exact ⟨fit, rfl, rfl⟩
  | fillRefused active refused =>
      obtain ⟨rfl, _⟩ := refused.refused
      exact ⟨refused.refused_fit fit, rfl, rfl⟩
  | fill active ensured read =>
      have roomy := ensured.roomy fit active
      have still := roomy.done.trans active
      have frame := roomy.toFrame.trans (read.frame still).1
      exact ⟨read.fit (ensured.fit fit active) still roomy.room, frame.max, frame.idle⟩
  | readReleased size released => exact ⟨fit, rfl, rfl⟩
  | readNothing active => exact ⟨fit, rfl, rfl⟩
  | readFailed active asked empty failed =>
      have frame := (failed.frame active).1
      exact ⟨failed.fit fit active (fit.shaped.room active empty), frame.max, frame.idle⟩
  | readSource active asked empty read delivers =>
      have filled := read.fit fit active (fit.shaped.room active empty)
      obtain ⟨nextFit, frame⟩ := delivers.fit (Nat.min_le_right _ _) filled
      have whole := (read.frame active).1.trans frame
      exact ⟨nextFit, whole.max, whole.idle⟩
  | readBuffered active asked some delivers =>
      obtain ⟨nextFit, frame⟩ := delivers.fit (Nat.min_le_right _ _) fit
      exact ⟨nextFit, frame.max, frame.idle⟩
  | discardNothing none => exact ⟨fit, rfl, rfl⟩
  | discard some discards =>
      obtain ⟨nextFit, frame⟩ := discards.fit (Nat.min_le_right _ _) fit
      exact ⟨nextFit, frame.max, frame.idle⟩
  | buffered => exact ⟨fit, rfl, rfl⟩
  | releaseAgain released => exact ⟨fit, rfl, rfl⟩
  | release active =>
      obtain ⟨⟨sized, _, _, _⟩, holds, logged⟩ := fit
      refine ⟨⟨⟨sized.on_idle rfl rfl rfl, Nat.le_refl _, Nat.zero_le _, fun _ => rfl⟩,
        holds.returns, ?_⟩, rfl, rfl⟩
      rw [reads_append, reads_returns, List.append_nil]
      obtain ⟨err, final, sizes, last⟩ := logged
      exact ⟨err, final, sizes, last⟩

end Calls

end Netx.Stream
