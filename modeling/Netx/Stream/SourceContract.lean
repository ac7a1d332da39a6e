import Netx.Stream.Outcomes
import Netx.Stream.PeekContract

/-!
# What a reader promises about its source

The source is asked for bytes only behind the buffered ones and not after an error. The
error is reported from then on, when the bytes that came before it have been made
available. A source that keeps returning nothing is given up for one call.
-/

set_option autoImplicit false

namespace Netx.Stream

section Pace

/-- The source reads of a call: fewer than a hundred empty ones before each that returned
something, unless the call ends with a hundred. -/
inductive Paced : List SourceRead → Bool → Prop where
  | none : Paced [] false
  | stalled {calls : List SourceRead} (long : calls.length = 100)
      (empty : ∀ call ∈ calls, call.Empty) : Paced calls true
  | round {empties rest : List SourceRead} {call : SourceRead} {stalled : Bool}
      (few : empties.length < 100) (empty : ∀ call ∈ empties, call.Empty)
      (some : ¬call.Empty) (later : Paced rest stalled) :
      Paced (empties ++ call :: rest) stalled

theorem Paced.append {front back : List SourceRead} {stalled : Bool} (first : Paced front false)
    (second : Paced back stalled) : Paced (front ++ back) stalled := by
  generalize ended : false = early at first
  induction first with
  | none => exact second
  | stalled long empty => cases ended
  | round few empty some later ih =>
      rw [List.append_assoc, List.cons_append]
      exact .round few empty some (ih ended)

/-- No more than a hundred empty reads follow each other. -/
theorem Paced.run_le {calls front run back : List SourceRead} {stalled : Bool}
    (paced : Paced calls stalled) (split : calls = front ++ (run ++ back))
    (empty : ∀ call ∈ run, call.Empty) :
    run.length ≤ 100 ∧ (run.length = 100 → back = [] ∧ stalled = true) := by
  induction paced generalizing front with
  | none =>
      obtain ⟨_, nothing⟩ := List.append_eq_nil_iff.mp split.symm
      obtain ⟨rfl, _⟩ := List.append_eq_nil_iff.mp nothing
      simp
  | stalled long _ =>
      have total := congrArg List.length split
      rw [List.length_append, List.length_append] at total
      refine ⟨by omega, fun whole => ⟨List.length_eq_zero_iff.mp (by omega), rfl⟩⟩
  | @round empties rest call stalled few _ some later ih =>
      have outside : call ∉ run := fun member => some (empty call member)
      rcases List.append_eq_append_iff.mp split with ⟨between, _, after⟩ | ⟨between, before, after⟩
      · cases between with
        | nil =>
            cases run with
            | nil => simp
            | cons first run =>
                obtain ⟨rfl, _⟩ := List.cons.inj after
                exact absurd (List.mem_cons_self) outside
        | cons first between => exact ih (List.cons.inj after).2
      · rcases List.append_eq_append_iff.mp after with ⟨rest, same, _⟩ | ⟨rest, same, left⟩
        · have length := congrArg List.length (before.trans (congrArg (front ++ ·) same))
          simp only [List.length_append] at length
          omega
        · cases rest with
          | nil =>
              have length := congrArg List.length before
              rw [same, List.append_nil]
              simp only [List.length_append] at length
              omega
          | cons first rest =>
              obtain ⟨rfl, _⟩ := List.cons.inj left
              exact absurd (by simp [same]) outside

end Pace

variable {Handle : Type}

def Reply.err : Reply → Option Error
  | .bytes _ err | .status err => err
  | _ => none

section Calls

variable {history later : List (Event Handle)} {reader next : Reader Handle}
  {failed : Option Error} {request : Call} {reply : Reply}

theorem Answered.paced {made : List (Event Handle)} {bytes : List UInt8} {call : SourceRead}
    (answered : Answered 100 reader made bytes call) : Paced (reads made) false := by
  obtain ⟨empties, split, few, empty⟩ := answered.split
  rw [split]
  exact .round few empty answered.some .none

theorem ReadsOnce.paced (once : ReadsOnce history reader failed next later) :
    ∃ made stalled, reads later = reads history ++ made ∧ Paced made stalled ∧
      (stalled = true → failed = some .noProgress ∧ next.err = none) := by
  cases once with
  | sticky sticky => exact ⟨[], false, (List.append_nil _).symm, .none, by simp⟩
  | stalled clean stalled =>
      exact ⟨_, true, reads_append _ _, .stalled stalled.long stalled.empty, by simp [clean]⟩
  | invalid clean answered invalid =>
      exact ⟨_, false, reads_append _ _, answered.paced, by simp⟩
  | counted clean answered count fits =>
      exact ⟨_, false, reads_append _ _, answered.paced, by simp⟩

variable {e : Error} {n : Nat}

theorem Peeks.paced {shown : List UInt8 × Option Error}
    (peeks : Peeks n history reader shown next later) :
    ∃ made stalled, reads later = reads history ++ made ∧ Paced made stalled ∧
      (stalled = true → shown.2 = some .noProgress ∧ next.err = none) := by
  induction peeks with
  | enough enough => exact ⟨[], false, (List.append_nil _).symm, .none, by simp⟩
  | refused short refused =>
      exact ⟨[], false, refused.reads.trans (List.append_nil _).symm, .none, by simp⟩
  | failed short ensured failed =>
      have paced := failed.paced
      rw [ensured.reads] at paced
      exact paced
  | again short ensured read rest ih =>
      obtain ⟨front, early, first, frontPaced, unstalled⟩ := read.paced
      obtain ⟨back, stalled, second, backPaced, ended⟩ := ih
      obtain rfl : early = false := by
        cases early with
        | false => rfl
        | true => cases (unstalled rfl).1
      refine ⟨front ++ back, stalled, ?_, frontPaced.append backPaced, ended⟩
      rw [second, first, ensured.reads, List.append_assoc]

theorem Discards.reads {k : Nat} (discards : Discards k history reader next later) :
    reads later = reads history := by
  cases discards with
  | some left => rfl
  | all empty keeps => rfl
  | shrinks empty big light =>
      rw [reads_append]
      exact List.append_nil _

theorem Performs.paced (performs : Performs history reader request reply next later) :
    ∃ made stalled, reads later = reads history ++ made ∧ Paced made stalled ∧
      (stalled = true → reply.err = some .noProgress ∧ next.err = none) := by
  have quiet : reads later = reads history → ∃ made stalled,
      reads later = reads history ++ made ∧ Paced made stalled ∧
        (stalled = true → reply.err = some .noProgress ∧ next.err = none) :=
    fun same => ⟨[], false, same.trans (List.append_nil _).symm, .none, by simp⟩
  cases performs with
  | peek active nonneg within peeks => exact peeks.paced
  | fillRefused active refused => exact quiet refused.reads
  | fill active ensured read =>
      have paced := read.paced
      rw [ensured.reads] at paced
      exact paced
  | readFailed active asked empty failed => exact failed.paced
  | readSource active asked empty read delivers =>
      obtain ⟨made, stalled, grew, paced, ended⟩ := read.paced
      refine ⟨made, stalled, delivers.reads.trans grew, paced, fun full => ?_⟩
      cases (ended full).1
  | readBuffered active asked some delivers => exact quiet delivers.reads
  | discard some discards => exact quiet discards.reads
  | release active => exact quiet (by rw [reads_append, reads_returns, List.append_nil])
  | _ => exact quiet rfl

/-- The error of the source, unless the call was refused room for what it wants. -/
def Reports (e : Error) (err : Option Error) : Prop :=
  err = some e ∨ err = some .tooLarge ∨ err = some .noBuffer

theorem Ensured.reports {err : Error} (refused : Ensured n history reader (some err) next later) :
    Reports e (some err) := by
  obtain ⟨_, ⟨rfl, _⟩ | ⟨rfl, _⟩⟩ := refused.refused
  · exact .inr (.inl rfl)
  · exact .inr (.inr rfl)

theorem ReadsOnce.of_sticky (once : ReadsOnce history reader failed next later)
    (sticky : reader.err = some e) : failed = some e ∧ next = reader ∧ later = history := by
  cases once with
  | sticky same =>
      rw [sticky] at same
      exact ⟨same.symm, rfl, rfl⟩
  | stalled clean _ | invalid clean _ _ | counted clean _ _ _ =>
      rw [sticky] at clean
      cases clean

/-- What a failed read returns is what the reader remembers, or the source has stalled. -/
theorem ReadsOnce.remembers {err : Error} (once : ReadsOnce history reader failed next later)
    (ended : failed = some err) :
    next.err = some err ∨ err = .noProgress ∧ next.err = none := by
  cases once with
  | sticky sticky => exact .inl (sticky.trans ended)
  | stalled clean stalled =>
      cases ended
      exact .inr ⟨rfl, by rw [Reader.setData_err, clean]⟩
  | invalid clean answered invalid => exact .inl ended
  | counted clean answered count fits =>
      split at ended
      · exact .inl ended
      · cases ended

theorem Peeks.of_sticky {shown : List UInt8 × Option Error}
    (peeks : Peeks n history reader shown next later) (fit : reader.Fit history)
    (active : reader.done = false) (sticky : reader.err = some e) :
    reads later = reads history ∧ (reader.len < n → Reports e shown.2) := by
  cases peeks with
  | enough enough => exact ⟨rfl, fun short => absurd enough (Nat.not_le.mpr short)⟩
  | refused short refused => exact ⟨refused.reads, fun _ => refused.reports⟩
  | failed short ensured failed =>
      obtain ⟨same, _, rfl⟩ := failed.of_sticky ((ensured.roomy fit active).err.trans sticky)
      exact ⟨ensured.reads, fun _ => .inl same⟩
  | again short ensured read rest =>
      cases (read.of_sticky ((ensured.roomy fit active).err.trans sticky)).1

/-- Once the source has failed, it is not called again and its error is returned. -/
theorem Performs.of_sticky (performs : Performs history reader request reply next later)
    (fit : reader.Fit history) (active : reader.done = false) (sticky : reader.err = some e) :
    reads later = reads history ∧
      (∀ n : Int, request = .peek n → (reader.len : Int) < n → Reports e reply.err) ∧
      (request = .fill → Reports e reply.err) ∧
      (∀ size, request = .read size → 0 < size → reader.len = 0 → reply.err = some e) := by
  cases performs with
  | peekReleased _ released | fillReleased released | readReleased _ released =>
      rw [active] at released
      cases released
  | peekNegative _ negative =>
      refine ⟨rfl, ?_, by simp, by simp⟩
      rintro n ⟨⟩ short
      omega
  | peekTooLarge _ above => exact ⟨rfl, fun _ _ _ => .inr (.inl rfl), by simp, by simp⟩
  | peek _ nonneg within peeks =>
      obtain ⟨quiet, reports⟩ := peeks.of_sticky fit active sticky
      refine ⟨quiet, ?_, by simp, by simp⟩
      rintro n ⟨⟩ short
      exact reports (by omega)
  | fillRefused _ refused =>
      exact ⟨refused.reads, by simp, fun _ => refused.reports, by simp⟩
  | fill _ ensured read =>
      obtain ⟨rfl, _, rfl⟩ := read.of_sticky ((ensured.roomy fit active).err.trans sticky)
      exact ⟨ensured.reads, by simp, fun _ => .inl rfl, by simp⟩
  | readNothing _ =>
      refine ⟨rfl, by simp, by simp, ?_⟩
      rintro size ⟨⟩ asked
      exact absurd asked (Nat.lt_irrefl 0)
  | readFailed _ asked empty failed =>
      obtain ⟨same, _, rfl⟩ := failed.of_sticky sticky
      exact ⟨rfl, by simp, by simp, fun _ _ _ _ => same⟩
  | readSource _ asked empty read delivers => cases (read.of_sticky sticky).1
  | readBuffered _ asked some delivers =>
      refine ⟨delivers.reads, by simp, by simp, ?_⟩
      intro size _ _ empty
      omega
  | discard some discards => exact ⟨discards.reads, by simp, by simp, by simp⟩
  | release _ =>
      exact ⟨by rw [reads_append, reads_returns, List.append_nil], by simp, by simp, by simp⟩
  | discardNothing _ | buffered | releaseAgain _ => exact ⟨rfl, by simp, by simp, by simp⟩

/-- The call in which the source fails returns its error, or bytes that came with it or
before it. -/
theorem Performs.of_failing (performs : Performs history reader request reply next later)
    (fit : reader.Fit history) (clean : reader.err = none) (fails : next.err = some e) :
    (∀ n : Int, request = .peek n → (next.len : Int) < n → reply.err = some e) ∧
      (request = .fill → next.len = reader.len → reply.err = some e) ∧
      (∀ size, request = .read size →
        reply.err = some e ∨ ∃ data, data ≠ [] ∧ reply = .bytes data none) := by
  have changed : next ≠ reader := by
    rintro rfl
    rw [clean] at fails
    cases fails
  cases performs with
  | peek active nonneg within peeks =>
      refine ⟨?_, by simp, by simp⟩
      rintro n ⟨⟩ short
      cases peeks.peeked fit active (by omega) with
      | enough enough _ => omega
      | refused _ refused _ => exact absurd refused.refused.1 changed
      | failed _ _ failed shown =>
          subst shown
          rcases failed.remembers rfl with same | ⟨_, none⟩
          · exact same.symm.trans fails
          · rw [none] at fails
            cases fails
  | fillRefused _ refused => exact absurd refused.refused.1 changed
  | @fill failed roomy _ middle _ active ensured read =>
      refine ⟨by simp, fun _ kept => ?_, by simp⟩
      have roomyFit := ensured.fit fit active
      have same := (ensured.roomy fit active).len fit.shaped roomyFit.shaped
      cases failed with
      | none =>
          have gained := (read.len roomyFit).1 rfl
          omega
      | some err =>
          rcases read.remembers rfl with same | ⟨_, none⟩
          · exact same.symm.trans fails
          · rw [none] at fails
            cases fails
  | readFailed _ _ _ failed =>
      refine ⟨by simp, by simp, fun _ _ => .inl ?_⟩
      rcases failed.remembers rfl with same | ⟨_, none⟩
      · exact same.symm.trans fails
      · rw [none] at fails
        cases fails
  | @readSource size filled _ middle _ active asked empty read delivers =>
      have filledFit := read.fit fit active (fit.shaped.room active empty)
      have gained := (read.len fit).1 rfl
      refine ⟨by simp, by simp, fun _ _ => .inr ⟨_, ?_, rfl⟩⟩
      rw [← List.length_pos_iff, List.length_take, filledFit.shaped.length_buffered]
      omega
  | readBuffered _ _ _ delivers =>
      cases delivers with
      | some _ | all _ _ | shrinks _ _ _ =>
          exact absurd (clean.symm.trans fails) (by simp)
  | discard _ discards => exact ⟨by simp, by simp, by simp⟩
  | release _ => exact ⟨by simp, by simp, by simp⟩
  | _ => exact absurd rfl changed

theorem ReadsOnce.calls (once : ReadsOnce history reader failed next later)
    (clean : reader.err = none) : (reads history).length < (reads later).length := by
  cases once with
  | sticky sticky =>
      rw [clean] at sticky
      cases sticky
  | stalled _ stalled =>
      rw [reads_append, List.length_append, stalled.long]
      omega
  | invalid _ answered _ | counted _ answered _ _ =>
      obtain ⟨empties, split, _⟩ := answered.split
      rw [reads_append, split, List.length_append, List.length_append, List.length_singleton]
      omega

/-- A reader that remembers no error calls its source when it needs to. -/
theorem Performs.of_clean (performs : Performs history reader request reply next later)
    (fit : reader.Fit history) (active : reader.done = false) (clean : reader.err = none) :
    (∀ n : Int, request = .peek n → (reader.len : Int) < n →
        (reads history).length < (reads later).length ∨
          reply.err = some .tooLarge ∨ reply.err = some .noBuffer) ∧
      (request = .fill → (reads history).length < (reads later).length ∨
        reply.err = some .tooLarge ∨ reply.err = some .noBuffer) ∧
      (∀ size, request = .read size → 0 < size → reader.len = 0 →
        (reads history).length < (reads later).length) := by
  cases performs with
  | peekReleased _ released | fillReleased released | readReleased _ released =>
      rw [active] at released
      cases released
  | peekNegative _ negative =>
      refine ⟨?_, by simp, by simp⟩
      rintro n ⟨⟩ short
      omega
  | peekTooLarge _ above => exact ⟨fun _ _ _ => .inr (.inl rfl), by simp, by simp⟩
  | peek _ nonneg within peeks =>
      refine ⟨?_, by simp, by simp⟩
      rintro n ⟨⟩ short
      cases peeks with
      | enough enough => omega
      | refused _ refused => exact .inr ((refused.reports (e := .tooLarge)).elim .inl id)
      | failed _ ensured failed =>
          have more := failed.calls ((ensured.roomy fit active).err.trans clean)
          rw [ensured.reads] at more
          exact .inl more
      | again _ ensured read rest =>
          have more := read.calls ((ensured.roomy fit active).err.trans clean)
          obtain ⟨made, _, grew, _⟩ := rest.paced
          rw [ensured.reads] at more
          rw [grew, List.length_append]
          exact .inl (by omega)
  | fillRefused _ refused =>
      exact ⟨by simp, fun _ => .inr ((refused.reports (e := .tooLarge)).elim .inl id), by simp⟩
  | fill _ ensured read =>
      have more := read.calls ((ensured.roomy fit active).err.trans clean)
      rw [ensured.reads] at more
      exact ⟨by simp, fun _ => .inl more, by simp⟩
  | readNothing _ =>
      refine ⟨by simp, by simp, ?_⟩
      rintro size ⟨⟩ asked
      exact absurd asked (Nat.lt_irrefl 0)
  | readFailed _ _ _ failed => exact ⟨by simp, by simp, fun _ _ _ _ => failed.calls clean⟩
  | readSource _ _ _ read delivers =>
      refine ⟨by simp, by simp, fun _ _ _ _ => ?_⟩
      rw [delivers.reads]
      exact read.calls clean
  | readBuffered _ _ some _ => exact ⟨by simp, by simp, fun _ _ _ empty => by omega⟩
  | discard _ _ | discardNothing _ | buffered | release _ | releaseAgain _ =>
      exact ⟨by simp, by simp, by simp⟩

/-- A `Read` into a slice that is not empty returns bytes or an error. -/
theorem Performs.read_some {size : Nat}
    (performs : Performs history reader (.read size) reply next later)
    (fit : reader.Fit history) (asked : 0 < size) : reply ≠ .bytes [] none := by
  have taken : ∀ {filled : Reader Handle}, filled.Shaped → 0 < filled.len →
      Reply.bytes (filled.buffered.take size) none ≠ .bytes [] none := by
    intro filled shaped some same
    injection same with nothing
    have length := congrArg List.length nothing
    rw [List.length_take, shaped.length_buffered, List.length_nil] at length
    omega
  cases performs with
  | readReleased _ _ => simp
  | readNothing _ => exact absurd asked (Nat.lt_irrefl 0)
  | readFailed _ _ _ _ => simp
  | readSource active _ empty read _ =>
      have filledFit := read.fit fit active (fit.shaped.room active empty)
      exact taken filledFit.shaped (Nat.zero_lt_of_lt ((read.len fit).1 rfl))
  | readBuffered _ _ some _ => exact taken fit.shaped some

/-- An error comes with all that is buffered, and from `Read` when nothing is. -/
theorem Performs.of_err (performs : Performs history reader request reply next later)
    (fit : reader.Fit history) (active : reader.done = false) (failed : reply.err = some e) :
    (∀ n : Int, request = .peek n → 0 ≤ n → reply = .bytes next.buffered (some e)) ∧
      (∀ size, request = .read size → next.buffered = []) := by
  cases performs with
  | peekReleased _ released | fillReleased released | readReleased _ released =>
      rw [active] at released
      cases released
  | peekNegative _ negative =>
      refine ⟨?_, by simp⟩
      rintro n ⟨⟩ nonneg
      omega
  | peekTooLarge _ above =>
      cases failed
      exact ⟨fun _ _ _ => rfl, by simp⟩
  | peek _ nonneg within peeks =>
      refine ⟨fun _ _ _ => ?_, by simp⟩
      cases peeks.peeked fit active (by omega) with
      | enough _ shown =>
          subst shown
          cases failed
      | refused _ _ shown | failed _ _ _ shown =>
          subst shown
          cases failed
          rfl
  | readFailed _ _ empty read =>
      refine ⟨by simp, fun _ _ => ?_⟩
      have nextFit := read.fit fit active (fit.shaped.room active empty)
      have kept := (read.len fit).2 (by simp)
      rw [← List.length_eq_zero_iff, nextFit.shaped.length_buffered, kept, empty]
  | fillRefused _ _ | fill _ _ _ => exact ⟨by simp, by simp⟩
  | _ => cases failed

theorem Performs.done (performs : Performs history reader request reply next later)
    (fit : reader.Fit history) :
    next.done = true ↔ reader.done = true ∨ request = .release := by
  cases performs with
  | peek active _ _ peeks => simp [(peeks.fit fit active).2.done]
  | fillRefused _ refused => simp [refused.refused.1]
  | fill active ensured read =>
      have roomy := ensured.roomy fit active
      simp [(read.frame (roomy.done.trans active)).1.done, roomy.done]
  | readFailed active _ _ failed => simp [(failed.frame active).1.done]
  | readSource active _ empty read delivers =>
      have filledFit := read.fit fit active (fit.shaped.room active empty)
      have kept := (delivers.fit (Nat.min_le_right _ _) filledFit).2.done
      simp [kept, (read.frame active).1.done]
  | readBuffered _ _ _ delivers =>
      simp [(delivers.fit (Nat.min_le_right _ _) fit).2.done]
  | discard _ discards => simp [(discards.fit (Nat.min_le_right _ _) fit).2.done]
  | release _ => simp
  | releaseAgain released => simp [released]
  | _ => simp

end Calls

section Contract

variable {World : Type} {env : Environment World Handle}

/-- The error that the source has ended with: the first it returned, or that of an invalid
count. -/
def Session.failure (session : Session World Handle) : Option Error :=
  session.reads.findSome? SourceRead.verdict

/-- What a call promises about the source. Before it the caller has consumed `consumed`. -/
structure SourceCall (env : Environment World Handle) (consumed : List UInt8)
    (session : Session World Handle) (request : Call) (reply : Reply)
    (next : Session World Handle) : Prop where
  inRange : (Stepwise.call session.reader request).run env.answer session.outside =
    some ((reply, next.reader), next.outside)
  free : ∀ reader result, ⟨.read reader, result⟩ ∈ session.events env request →
    reader.r ≤ reader.w ∧ reader.w < reader.data.length
  logged : next.reads = session.reads ++ reads (session.events env request)
  sticky : ∀ e, session.failure = some e → session.reader.done = false →
    next.reads = session.reads ∧
      (∀ n : Int, request = .peek n → (session.reader.len : Int) < n → Reports e reply.err) ∧
      (request = .fill → Reports e reply.err) ∧
      (∀ size, request = .read size → 0 < size → session.reader.len = 0 → reply.err = some e)
  failing : ∀ e, session.failure = none → next.failure = some e →
    (∀ n : Int, request = .peek n → (next.reader.len : Int) < n → reply.err = some e) ∧
      (request = .fill → next.reader.len = session.reader.len → reply.err = some e) ∧
      (∀ size, request = .read size →
        reply.err = some e ∨ ∃ data, data ≠ [] ∧ reply = .bytes data none)
  available : session.reader.done = false → request ≠ .release →
    consumed ++ session.taken request reply ++ next.buffered = next.received
  shown : ∀ e, session.reader.done = false → reply.err = some e →
    (∀ n : Int, request = .peek n → 0 ≤ n → reply = .bytes next.buffered (some e)) ∧
      (∀ size, request = .read size → next.buffered = [])
  read : ∀ size, request = .read size → 0 < size → reply ≠ .bytes [] none
  patient : ∀ front run back, reads (session.events env request) = front ++ (run ++ back) →
    (∀ call ∈ run, call.Empty) → run.length ≤ 100 ∧
      (run.length = 100 → back = [] ∧ reply.err = some .noProgress ∧ next.reader.err = none)
  again : session.reader.err = none → session.reader.done = false →
    (∀ n : Int, request = .peek n → (session.reader.len : Int) < n →
        session.reads.length < next.reads.length ∨
          reply.err = some .tooLarge ∨ reply.err = some .noBuffer) ∧
      (request = .fill → session.reads.length < next.reads.length ∨
        reply.err = some .tooLarge ∨ reply.err = some .noBuffer) ∧
      (∀ size, request = .read size → 0 < size → session.reader.len = 0 →
        session.reads.length < next.reads.length)

structure SourceContract (env : Environment World Handle) (consumed : List UInt8)
    (session : Session World Handle) : Prop where
  emptied : session.reader.r = session.reader.w →
    session.reader.r = 0 ∧ session.reader.w = 0
  room : ∀ call ∈ session.reads, 0 < call.size
  final : ∀ front call back, session.reads = front ++ call :: back →
    call.verdict ≠ none → back = []
  calls : ∀ request reply next, session.call env request = (reply, next) →
    SourceCall env consumed session request reply next

namespace Session

variable {history : List (Event Handle)} {session next : Session World Handle}
  {consumed : List UInt8} {request : Call} {reply : Reply}

theorem Fits.failure (fits : session.Fits history) : session.failure = session.reader.err := by
  rw [Session.failure, fits.logged]
  exact fits.fit.logged.err.symm

theorem Fits.sourceCall (fits : session.Fits history)
    (stream : session.reader.done = false → consumed ++ session.buffered = session.received)
    (called : session.call env request = (reply, next)) :
    SourceCall env consumed session request reply next := by
  have fit := fits.fit
  have runs := Session.runs env fit request
  have performs := Session.performs env fit request
  have grew := Session.call_reads env fit request
  have nextFits := fits.call env request
  rw [called] at runs performs grew nextFits
  have before : Stream.reads history = session.reads := fits.logged.symm
  have after : Stream.reads (history ++ session.events env request) = next.reads :=
    nextFits.logged.symm
  refine ⟨runs, ?_, grew, ?_, ?_, ?_, ?_, ?_, ?_, ?_⟩
  · intro reader result member
    obtain ⟨front, back, made⟩ := List.append_of_mem member
    obtain ⟨⟨readerFit, _⟩, _, _, room⟩ := Session.permitted fit made
    exact ⟨readerFit.shaped.ordered, room⟩
  · intro e failed active
    rw [fits.failure] at failed
    have promise := performs.of_sticky fit active failed
    rw [before, after] at promise
    exact promise
  · intro e clean failed
    rw [fits.failure] at clean
    rw [nextFits.failure] at failed
    exact performs.of_failing fit clean failed
  · intro active kept
    obtain ⟨_, arrived, received, moved⟩ :=
      call_advances kept (fit.shaped.valid active) called
    rw [List.append_assoc, moved, ← List.append_assoc, stream active, received]
  · exact fun e active failed => performs.of_err fit active failed
  · rintro size rfl asked
    exact performs.read_some fit asked
  · intro front run back split empty
    obtain ⟨made, stalled, total, paced, ended⟩ := performs.paced
    rw [reads_append] at total
    obtain rfl := List.append_cancel_left total
    obtain ⟨few, full⟩ := paced.run_le split empty
    exact ⟨few, fun long => ⟨(full long).1, ended (full long).2⟩⟩
  · intro clean active
    have promise := performs.of_clean fit active clean
    rw [before, after] at promise
    exact promise

private theorem released_stays (calls : List Call) (fits : session.Fits history)
    (released : session.reader.done = true ∨ .release ∈ calls) :
    (session.run env calls).2.reader.done = true := by
  induction calls generalizing session history with
  | nil => exact released.elim id (by simp)
  | cons request rest ih =>
      have onward : (session.call env request).2.reader.done = true ∨ .release ∈ rest := by
        rw [(Session.performs env fits.fit request).done fits.fit]
        rcases released with already | member
        · exact .inl (.inl already)
        · rcases List.mem_cons.mp member with rfl | later
          · exact .inl (.inr rfl)
          · exact .inr later
      exact ih (fits.call env request) onward

end Session

/-- Any source, any pool, any options and any calls. -/
theorem reader_keeps_source_contract (env : Environment World Handle) {o : ReaderOptions}
    {hasPool : Bool} {reader : Reader Handle}
    (accepted : Reader.newReader Handle o hasPool = some reader) (world : World)
    (calls : List Call) :
    SourceContract env ((Session.start reader world).run env calls).1
      ((Session.start reader world).run env calls).2 := by
  have fits := Session.fits_reached env accepted world calls
  obtain ⟨valid, empty⟩ := Reader.newReader_valid accepted
  have stream : ((Session.start reader world).run env calls).2.reader.done = false →
      ((Session.start reader world).run env calls).1 ++
        ((Session.start reader world).run env calls).2.buffered =
      ((Session.start reader world).run env calls).2.received := by
    intro active
    have kept : .release ∉ calls := by
      intro member
      have begins : (Session.start reader world).Fits [] := ⟨Reader.newReader_fit accepted, rfl⟩
      rw [Session.released_stays calls begins (.inr member)] at active
      cases active
    have started : (Session.start reader world).reader.Valid := valid
    have fresh : (Session.start reader world).buffered = [] := empty
    obtain ⟨_, arrived, received, moved⟩ := Session.run_advances env calls kept started
    rw [moved, received, fresh]
    rfl
  refine ⟨?_, ?_, ?_, fun request reply next called => fits.sourceCall stream called⟩
  · intro same
    have zero := fits.fit.shaped.emptied same
    exact ⟨same.trans zero, zero⟩
  · rw [fits.logged]
    exact fits.fit.logged.room
  · rw [fits.logged]
    exact fits.fit.logged.final

end Contract

/-- The last two of seven bytes came with the error, and are still buffered. -/
theorem reader_keeps_source_contract_dripping :
    ∃ reader, Reader.newReader Unit ⟨2, 5⟩ true = some reader ∧
      let session := ((Session.start reader (sevenBytes, true)).run (dripping 2 (.source 7))
        [.peek 4, .discard 3, .read 9, .fill]).2
      (session.failure = some (.source 7) ∧ session.reader.len = 2) ∧
        SourceContract (dripping 2 (.source 7))
          ((Session.start reader (sevenBytes, true)).run (dripping 2 (.source 7))
            [.peek 4, .discard 3, .read 9, .fill]).1 session := by
  have accepted : Reader.newReader Unit ⟨2, 5⟩ true = some smallReader := rfl
  exact ⟨smallReader, accepted, by decide +kernel,
    reader_keeps_source_contract _ accepted _ _⟩

end Netx.Stream
