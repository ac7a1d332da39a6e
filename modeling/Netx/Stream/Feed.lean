import Netx.Stream.ReaderProperties

/-!
# Sources that deliver a byte sequence and then an error

A `Feed` says that the source in an environment delivers fixed bytes, in chunks of
whatever size, and then an error, and that the pool does not refuse. A reader over it
holds what has arrived, and the rest is still to come.
-/

set_option autoImplicit false

namespace Netx.Stream

/-- How far a source has come: the bytes still to come and how many reads in a row
were empty, or past its error. -/
inductive Phase where
  | flowing (rest : List UInt8) (empties : Nat)
  | ended

/-- The answers to a read when `rest` is still to come: nothing, but less than a
hundred times in a row, a chunk, or the error with all that was left. -/
inductive Answers (e : Error) (rest : List UInt8) (empties : Nat) {size : Nat}
    (result : ReadResult size) : Phase → Prop where
  | empty : result.n = 0 → result.err = none → empties + 1 < 100 →
      Answers e rest empties result (.flowing rest (empties + 1))
  | chunk (n : Nat) (later : List UInt8) : result.n = n → result.err = none → 0 < n →
      n ≤ size → rest = result.bytes.toList.take n ++ later →
      Answers e rest empties result (.flowing later 0)
  | last (n : Nat) : result.n = n → result.err = some e → n ≤ size →
      rest = result.bytes.toList.take n → Answers e rest empties result .ended

/-- The source delivers bytes and then `e`, and the pool never refuses. -/
structure Feed {World Handle : Type} (env : Environment World Handle) (e : Error) where
  phase : World → Phase → Prop
  read : ∀ {world : World} {rest : List UInt8} {empties : Nat} (size : Nat), 0 < size →
    phase world (.flowing rest empties) →
    ∃ next, Answers e rest empties (env.read world size).1 next ∧
      phase (env.read world size).2 next
  get : ∀ {world : World} {now : Phase} (size : Nat), phase world now →
    ∃ borrowed after, env.get world size = (some borrowed, after) ∧ phase after now
  release : ∀ {world : World} {now : Phase} (borrowed : Borrowed Handle), phase world now →
    phase (env.release world borrowed) now

namespace Session

variable {World Handle : Type} {env : Environment World Handle} {e : Error}

/-- `stream` is what is buffered and what is still to come, and `e` follows it. -/
inductive Awaits (feed : Feed env e) (stream : List UInt8)
    (session : Session World Handle) : Prop where
  | flowing (rest : List UInt8) : session.reader.err = none →
      feed.phase session.world (.flowing rest 0) → stream = session.buffered ++ rest →
      Awaits feed stream session
  | ended : session.reader.err = some e → feed.phase session.world .ended →
      stream = session.buffered → Awaits feed stream session

/-- One read left `n` new bytes and perhaps the error of the source. -/
inductive Arrived (feed : Feed env e) (rest : List UInt8) (session : Session World Handle)
    (n : Int) : Option Error → Prop where
  | chunk (later : List UInt8) : 0 < n → feed.phase session.world (.flowing later 0) →
      rest = session.reader.incoming n ++ later → Arrived feed rest session n none
  | last : feed.phase session.world .ended → rest = session.reader.incoming n →
      Arrived feed rest session n (some e)

/-- What a source read leaves alone in a reader. -/
structure Alike (session next : Session World Handle) : Prop where
  err : next.reader.err = session.reader.err
  max : next.reader.max = session.reader.max
  w : next.reader.w = session.reader.w
  length : next.reader.data.length = session.reader.data.length

theorem Alike.trans {first second third : Session World Handle} (front : first.Alike second)
    (back : second.Alike third) : first.Alike third :=
  ⟨back.err.trans front.err, back.max.trans front.max, back.w.trans front.w,
    back.length.trans front.length⟩

section Reads

variable {session : Session World Handle} (feed : Feed env e)

private theorem readSource_alike (valid : session.reader.Valid) :
    session.Alike (session.readSource env).2 := by
  have bounded := valid.bounded
  refine ⟨?_, ?_, ?_, ?_⟩
  · simp [readSource]
  · simp [readSource]
  · simp [readSource]
  · simp only [readSource, Reader.data_setData _ _ valid.active, List.length_append,
      List.length_take, Vector.length_toList]
    omega

/-- The bytes that came in are those of the slice the source returned. -/
theorem incoming_readSource (valid : session.reader.Valid) {n : Nat}
    (counted : n ≤ session.reader.data.length - session.reader.w) :
    (session.readSource env).2.reader.incoming n =
      (env.read session.world
        (session.reader.data.length - session.reader.w)).1.bytes.toList.take n := by
  have alike : session.Alike (session.readSource env).2 := readSource_alike valid
  have bounded := valid.bounded
  have fits : (n : Int) ≤ ((session.reader.data.length - session.reader.w : Nat) : Int) := by
    omega
  rw [Reader.incoming, alike.length, alike.w, if_pos ⟨by omega, fits⟩, Int.toNat_natCast]
  simp only [readSource, Reader.data_setData _ _ valid.active]
  rw [List.drop_append_of_le_length (by simp; omega), List.drop_of_length_le (by simp),
    List.nil_append]

private theorem readSource_feed {empties : Nat} {rest : List UInt8} (valid : session.reader.Valid)
    (room : session.reader.w < session.reader.data.length)
    (flows : feed.phase session.world (.flowing rest empties)) :
    ∃ (n : Nat) (err : Option Error) (next : Session World Handle),
      session.readSource env = (((n : Int), err), next) ∧ session.Alike next ∧
      n ≤ session.reader.data.length - session.reader.w ∧
      next.reads.length = session.reads.length + 1 ∧
      (n = 0 ∧ err = none ∧ empties + 1 < 100 ∧
          feed.phase next.world (.flowing rest (empties + 1)) ∨
        (n ≠ 0 ∨ err ≠ none) ∧ Arrived feed rest next n err) := by
  obtain ⟨now, answers, reached⟩ := feed.read _ (Nat.sub_pos_of_lt room) flows
  have alike : session.Alike (session.readSource env).2 := readSource_alike valid
  have logged : (session.readSource env).2.reads.length = session.reads.length + 1 := by
    simp [readSource]
  have answer : ∀ (n : Nat) (err : Option Error), (env.read session.world
        (session.reader.data.length - session.reader.w)).1.n = n →
      (env.read session.world (session.reader.data.length - session.reader.w)).1.err = err →
      session.readSource env = (((n : Int), err), (session.readSource env).2) := by
    rintro n err counted rfl
    rw [← counted]
    rfl
  cases answers with
  | empty counted silent more =>
      exact ⟨0, none, _, answer 0 none counted silent, alike, Nat.zero_le _, logged,
        .inl ⟨rfl, rfl, more, reached⟩⟩
  | chunk n later counted silent positive fits split =>
      refine ⟨n, none, _, answer n none counted silent, alike, fits, logged,
        .inr ⟨.inl (by omega), .chunk later (by omega) reached ?_⟩⟩
      rw [split, incoming_readSource valid fits]
  | last n counted failure fits split =>
      refine ⟨n, some e, _, answer n (some e) counted failure, alike, fits, logged,
        .inr ⟨.inr (by simp), .last reached ?_⟩⟩
      rw [split, incoming_readSource valid fits]

/-- The retry loop of `readOnce` ends before its attempts run out. -/
theorem readLoop_feed {attempts empties : Nat} {rest : List UInt8}
    (valid : session.reader.Valid) (room : session.reader.w < session.reader.data.length)
    (flows : feed.phase session.world (.flowing rest empties))
    (few : empties < 100) (enough : 100 ≤ empties + attempts) :
    ∃ (n : Nat) (err : Option Error) (next : Session World Handle),
      session.readLoop env attempts = (some ((n : Int), err), next) ∧ session.Alike next ∧
      n ≤ session.reader.data.length - session.reader.w ∧ Arrived feed rest next n err ∧
      next.reads.length ≤ session.reads.length + attempts := by
  induction attempts generalizing session empties with
  | zero => omega
  | succ attempts ih =>
      obtain ⟨n, err, middle, answered, alike, counted, logged, empty | ⟨stops, arrived⟩⟩ :=
        readSource_feed feed valid room flows
      · obtain ⟨rfl, rfl, more, reached⟩ := empty
        have again : session.readLoop env (attempts + 1) = middle.readLoop env attempts := by
          simp [readLoop, answered]
        obtain ⟨n, err, next, looped, later, counted, arrived, bound⟩ :=
          ih (readSource_spec valid answered).1 (by rw [alike.w, alike.length]; exact room)
            reached more (by omega)
        rw [alike.w, alike.length] at counted
        exact ⟨n, err, next, again.trans looped, alike.trans later, counted, arrived, by omega⟩
      · refine ⟨n, err, middle, ?_, alike, counted, arrived, by omega⟩
        simp only [readLoop, answered]
        rw [if_pos (stops.imp_left (by omega))]

/-- The reader has counted `n` bytes of a read that may have failed with `err`. -/
def counted (session : Session World Handle) (n : Nat) (err : Option Error) :
    Session World Handle :=
  { session with
    reader := { session.reader with w := session.reader.w + n, last := n, err } }

private theorem readOnce_counted {n : Nat} {err : Option Error} {middle : Session World Handle}
    (clean : session.reader.err = none) (kept : middle.reader.err = none)
    (looped : session.readLoop env maxEmptyReads = (some ((n : Int), err), middle))
    (fits : n ≤ middle.reader.data.length - middle.reader.w) :
    session.readOnce env = (if n = 0 then err else none, middle.counted n err) := by
  have valid : ¬((n : Int) < 0 ∨
      (n : Int) > ((middle.reader.data.length - middle.reader.w : Nat) : Int)) := by
    omega
  simp only [readOnce, clean, looped]
  rw [if_neg valid]
  cases err with
  | none =>
      simp only [counted, Int.toNat_natCast, ← kept, ite_self]
  | some err =>
      by_cases zero : n = 0
      · subst zero
        rfl
      · have positive : (n : Int) > 0 := by omega
        simp only [if_pos positive, if_neg zero]
        rfl

private theorem readOnce_feed {stream : List UInt8} (valid : session.reader.Valid)
    (room : session.reader.w < session.reader.data.length) (awaits : session.Awaits feed stream) :
    ∃ (failure : Option Error) (next : Session World Handle),
      session.readOnce env = (failure, next) ∧ next.Awaits feed stream ∧
      next.reader.max = session.reader.max ∧
      next.reads.length ≤ session.reads.length + 100 ∧
      (failure = none ∨ failure = some e ∧ stream = next.buffered ∧
        next.buffered = session.buffered) := by
  cases awaits with
  | ended sticky past same =>
      exact ⟨some e, session, by simp only [readOnce, sticky], .ended sticky past same, rfl,
        Nat.le_add_right _ _, .inr ⟨rfl, same, rfl⟩⟩
  | flowing rest clean flows split =>
      obtain ⟨n, err, middle, looped, alike, fits, arrived, bound⟩ :=
        readLoop_feed feed valid room flows (by decide) (show 100 ≤ 0 + maxEmptyReads by decide)
      obtain ⟨middleValid, _, kept, _, _⟩ := readLoop_spec valid looped
      rw [← alike.w, ← alike.length] at fits
      have appended : (middle.counted n err).buffered =
          session.buffered ++ middle.reader.incoming n := by
        rw [← kept]
        exact (middleValid.advance (n := n) (by omega) n err).2.1
      have result := readOnce_counted clean (alike.err.trans clean) looped fits
      refine ⟨_, _, result, ?_, alike.max, bound, ?_⟩
      · cases arrived with
        | chunk later positive reached more =>
            refine .flowing later rfl reached ?_
            rw [appended, List.append_assoc, ← more, split]
        | last reached all =>
            refine .ended rfl reached ?_
            rw [appended, split, all]
      · by_cases some : n = 0
        · subst some
          rw [Int.natCast_zero, Reader.incoming_zero, List.append_nil] at appended
          cases arrived with
          | chunk later positive reached more => exact absurd positive (by decide)
          | last reached all =>
              rw [Int.natCast_zero, Reader.incoming_zero] at all
              refine .inr ⟨rfl, ?_, appended⟩
              rw [appended, split, all, List.append_nil]
        · exact .inl (if_neg some)

private theorem shrink_kept (session : Session World Handle) :
    (session.shrink env).reader.err = session.reader.err ∧
      (session.shrink env).reader.max = session.reader.max ∧
      ∀ now, feed.phase session.world now → feed.phase (session.shrink env).world now := by
  unfold shrink
  cases session.reader.big with
  | none => exact ⟨rfl, rfl, fun _ => id⟩
  | some borrowed => exact ⟨rfl, rfl, fun _ => feed.release borrowed⟩

theorem discard_kept {k : Int} {count : Nat} {next : Session World Handle}
    (result : session.discard env k = (count, next)) :
    next.reader.err = session.reader.err ∧ next.reader.max = session.reader.max ∧
      ∀ now, feed.phase session.world now → feed.phase next.world now := by
  unfold discard at result
  dsimp only at result
  split at result
  · cases result
    exact ⟨rfl, rfl, fun _ => id⟩
  · split at result
    · split at result
      · cases result
        exact shrink_kept feed { session with reader := { session.reader with r := 0, w := 0 } }
      · cases result
        exact ⟨rfl, rfl, fun _ => id⟩
    · cases result
      exact ⟨rfl, rfl, fun _ => id⟩

end Reads

section Peeks

variable {session : Session World Handle} {feed : Feed env e} {stream : List UInt8} {n : Nat}

theorem Awaits.of_same {next : Session World Handle} (awaits : session.Awaits feed stream)
    (err : next.reader.err = session.reader.err)
    (world : ∀ now, feed.phase session.world now → feed.phase next.world now)
    (buffered : next.buffered = session.buffered) : next.Awaits feed stream := by
  cases awaits with
  | flowing rest clean flows split =>
      exact .flowing rest (err.trans clean) (world _ flows) (by rw [split, buffered])
  | ended sticky past same =>
      exact .ended (err.trans sticky) (world _ past) (by rw [same, buffered])

theorem Awaits.phase (awaits : session.Awaits feed stream) :
    ∃ now, feed.phase session.world now := by
  cases awaits with
  | flowing rest clean flows split => exact ⟨_, flows⟩
  | ended sticky past same => exact ⟨_, past⟩

/-- Below `max` there is always a larger buffer to move to. -/
theorem grow_feed (valid : session.reader.Valid) (awaits : session.Awaits feed stream)
    (short : session.reader.len < n) (larger : session.reader.data.length < n)
    (within : n ≤ session.reader.max) :
    ∃ next : Session World Handle, session.grow env n = (none, next) ∧
      next.Awaits feed stream ∧ next.reader.max = session.reader.max ∧
      next.reader.w < next.reader.data.length := by
  obtain ⟨now, here⟩ := awaits.phase
  obtain ⟨size, sized⟩ : ∃ size, min (Buf.capacity (max n (session.reader.data.length + 1)))
    session.reader.max = size := ⟨_, rfl⟩
  have enough : n ≤ size := by
    have above := Buf.le_capacity (max n (session.reader.data.length + 1))
    omega
  obtain ⟨borrowed, after, provided, _⟩ := feed.get size here
  have room := env.get_length provided
  have moved : (session.reader.buffered.take borrowed.B.length).length < borrowed.B.length := by
    rw [List.length_take, valid.length_buffered]
    omega
  have granted : session.grow env n = (none, { session with
      world := session.reader.big.elim after (env.release after)
      reader := { session.reader with
        big := some { borrowed with
          B := session.reader.buffered.take borrowed.B.length ++
            borrowed.B.drop (session.reader.buffered.take borrowed.B.length).length }
        r := 0
        w := (session.reader.buffered.take borrowed.B.length).length } }) := by
    simp only [grow, sized, provided]
    rw [if_neg (by omega)]
    cases session.reader.big <;> rfl
  obtain ⟨_, buffered, _⟩ := grow_spec valid granted
  refine ⟨_, granted, awaits.of_same rfl (fun now reached => ?_) buffered, rfl, ?_⟩
  · obtain ⟨_, _, same, reached⟩ := feed.get size reached
    rw [provided] at same
    cases same
    cases session.reader.big with
    | none => exact reached
    | some old => exact feed.release old reached
  · simp only [Reader.data, valid.active, Bool.false_eq_true, if_false, List.length_append,
      List.length_drop]
    omega

private theorem ensure_feed (valid : session.reader.Valid) (awaits : session.Awaits feed stream)
    (short : session.reader.len < n) (within : n ≤ session.reader.max) :
    ∃ next : Session World Handle, session.ensure env n = (none, next) ∧
      next.Awaits feed stream ∧ next.reader.max = session.reader.max ∧
      next.reader.w < next.reader.data.length := by
  unfold ensure
  dsimp only
  rw [if_neg (by omega)]
  by_cases larger : session.reader.data.length < n
  · rw [if_pos larger]
    exact grow_feed valid awaits short larger within
  rw [if_neg larger]
  by_cases roomy : session.reader.w < session.reader.data.length ∧
      session.reader.data.length - session.reader.r ≥ n
  · rw [if_pos roomy]
    exact ⟨session, rfl, awaits, rfl, roomy.1⟩
  rw [if_neg roomy]
  have ordered := valid.ordered
  have bounded := valid.bounded
  have behind : session.reader.r > 0 := by
    simp only [Reader.len] at short
    omega
  obtain ⟨compacted, kept⟩ := compact_spec valid
  have front : (compact session.reader).w = session.reader.len := valid.length_buffered
  have length : (compact session.reader).data.length = session.reader.data.length := by
    rw [data_compact valid, List.length_append, List.length_drop, valid.length_buffered]
    omega
  have room : (compact session.reader).w < (compact session.reader).data.length := by
    omega
  rw [if_pos behind, if_pos room]
  refine ⟨_, rfl, awaits.of_same ?_ (fun _ => id) kept, ?_, room⟩
  · simp [compact]
  · simp [compact]

/-- What `Peek(n)` is to return when `discarded` bytes of the stream have gone. -/
def peeked (stream : List UInt8) (e : Error) (discarded n : Nat) :
    List UInt8 × Option Error :=
  if discarded + n ≤ stream.length then ((stream.drop discarded).take n, none)
  else (stream.drop discarded, some e)

theorem peeked_drop {discarded : Nat} (within : discarded ≤ stream.length) :
    peeked (stream.drop discarded) e 0 n = peeked stream e discarded n := by
  have same : 0 + n ≤ (stream.drop discarded).length ↔ discarded + n ≤ stream.length := by
    rw [List.length_drop]
    omega
  simp only [peeked, same, List.drop_zero]

theorem Awaits.peeked_buffered (valid : session.reader.Valid)
    (awaits : session.Awaits feed stream) (enough : n ≤ session.reader.len) :
    peeked stream e 0 n = (session.buffered.take n, none) := by
  have total : session.buffered.length = session.reader.len := valid.length_buffered
  obtain ⟨rest, split⟩ : ∃ rest, stream = session.buffered ++ rest := by
    cases awaits with
    | flowing rest clean flows split => exact ⟨rest, split⟩
    | ended sticky past same => exact ⟨[], by rw [same, List.append_nil]⟩
  rw [peeked, split, if_pos (by rw [List.length_append]; omega), List.drop_zero,
    List.take_append_of_le_length (by omega)]

private theorem peekLoop_full (rounds : Nat) (valid : session.reader.Valid)
    (awaits : session.Awaits feed stream) (full : n ≤ session.reader.len) :
    session.peekLoop env n rounds = (peeked stream e 0 n, session) ∧
      (peeked stream e 0 n).1.length ≤ session.reader.len := by
  rw [awaits.peeked_buffered valid full]
  constructor
  · unfold peekLoop
    rw [if_neg (Nat.not_lt.mpr full)]
  · rw [List.length_take]
    omega

/-- The loop of `Peek` shows what is asked for or, with the error, all there is. -/
theorem peekLoop_feed {rounds : Nat} (valid : session.reader.Valid)
    (awaits : session.Awaits feed stream) (within : n ≤ session.reader.max)
    (enough : n ≤ session.reader.len + rounds) :
    ∃ next : Session World Handle,
      session.peekLoop env n rounds = (peeked stream e 0 n, next) ∧
      next.reader.Valid ∧ next.Awaits feed stream ∧
      next.reader.max = session.reader.max ∧
      (peeked stream e 0 n).1.length ≤ next.reader.len ∧
      next.reads.length ≤ session.reads.length + 100 * rounds := by
  induction rounds generalizing session with
  | zero =>
      obtain ⟨result, shown⟩ := peekLoop_full 0 valid awaits enough
      exact ⟨session, result, valid, awaits, rfl, shown, Nat.le_add_right _ _⟩
  | succ rounds ih =>
      by_cases full : n ≤ session.reader.len
      · obtain ⟨result, shown⟩ := peekLoop_full (rounds + 1) valid awaits full
        exact ⟨session, result, valid, awaits, rfl, shown, Nat.le_add_right _ _⟩
      have short := Nat.lt_of_not_le full
      obtain ⟨roomy, ensured, roomyAwaits, roomyMax, room⟩ :=
        ensure_feed valid awaits short within
      obtain ⟨roomyValid, _, reads⟩ := ensure_spec valid ensured
      have sameLen := ensure_len valid ensured
      obtain ⟨failure, filled, read, filledAwaits, filledMax, bound, outcome⟩ :=
        readOnce_feed feed roomyValid room roomyAwaits
      obtain ⟨filledValid, _, progress⟩ := readOnce_spec roomyValid read
      rw [reads] at bound
      have max := filledMax.trans roomyMax
      rcases outcome with rfl | ⟨rfl, all, same⟩
      · have gained := progress rfl
        obtain ⟨next, looped, nextValid, nextAwaits, nextMax, shown, later⟩ :=
          ih filledValid filledAwaits (max ▸ within) (by omega)
        refine ⟨next, ?_, nextValid, nextAwaits, nextMax.trans max, shown, by omega⟩
        unfold peekLoop
        rw [if_pos short]
        simp only [ensured, read, looped]
      · have filledLen : filled.reader.len = session.reader.len := by
          rw [← filledValid.length_buffered, ← sameLen, ← roomyValid.length_buffered]
          exact congrArg List.length same
        have total : stream.length = filled.reader.len :=
          all ▸ filledValid.length_buffered
        have shown : peeked stream e 0 n = (filled.buffered, some e) := by
          rw [peeked, if_neg (by omega), List.drop_zero, all]
        refine ⟨filled, ?_, filledValid, filledAwaits, max, ?_, by omega⟩
        · unfold peekLoop
          rw [if_pos short, shown]
          simp only [ensured, read]
          rw [if_neg (by omega)]
        · rw [shown]
          exact Nat.le_of_eq filledValid.length_buffered

/-- `Discard` takes what it counts off the front of the stream. -/
theorem discard_feed {k : Int} {count : Nat} {next : Session World Handle}
    (valid : session.reader.Valid) (awaits : session.Awaits feed stream)
    (result : session.discard env k = (count, next)) :
    next.Awaits feed (stream.drop count) := by
  obtain ⟨_, _, counted, front⟩ := discard_spec valid result
  obtain ⟨err, _, world⟩ := discard_kept feed result
  have total : session.buffered.length = session.reader.len := valid.length_buffered
  have left : next.buffered = session.buffered.drop count :=
    List.append_cancel_left (front.trans (List.take_append_drop count _).symm)
  cases awaits with
  | flowing rest clean flows split =>
      refine .flowing rest (err.trans clean) (world _ flows) ?_
      rw [split, List.drop_append_of_le_length (by omega), left]
  | ended sticky past same =>
      exact .ended (err.trans sticky) (world _ past) (by rw [same, left])

end Peeks

end Session

end Netx.Stream
