import Netx.Stream.SourceContract

/-!
# What a reader promises when it refuses

A `Peek` or `Fill` that is refused changes nothing and has asked the source for nothing.
It is refused only for more than `Max`, or when the pool has no buffer for what does not
fit the present one.
-/

set_option autoImplicit false

namespace Netx.Stream

variable {World Handle : Type}

/-- The errors with which a reader refuses a call. -/
def Error.Refusal (err : Error) : Prop :=
  err = .noBuffer ∨ err = .tooLarge ∨ err = .negativeCount ∨ err = .released

/-- The source returns none of the errors that a reader refuses with. -/
def Environment.Plain (env : Environment World Handle) : Prop :=
  ∀ world size err, (env.read world size).1.err = some err → ¬err.Refusal

/-- What the budget is charged for a request. -/
def eventCharge : Event Handle → Int
  | ⟨.get _ size, answer⟩ =>
      let answer : Option (Borrowed Handle) := answer
      answer.elim 0 fun _ => Buf.capacity size
  | ⟨.release borrowed, _⟩ => -Buf.capacity borrowed.B.length
  | _ => 0

/-- What the budget is charged for a reader. -/
def charge (history : List (Event Handle)) : Int :=
  (history.map eventCharge).sum

section Calls

variable {history later : List (Event Handle)} {reader next : Reader Handle} {request : Call}
  {reply : Reply} {err : Error}

/-- What was asked by a call that ended with the refusal `err`. -/
inductive Refused (history : List (Event Handle)) (reader : Reader Handle) (err : Error)
    (wanted : Nat) : List (Event Handle) → Prop where
  | checked (other : err ≠ .noBuffer) : Refused history reader err wanted history
  | pool (same : err = .noBuffer) (above : reader.data.length < wanted)
      (within : wanted ≤ reader.max) :
      Refused history reader err wanted
        (history ++ [⟨.get reader (min (Buf.capacity wanted) reader.max), none⟩])

theorem Refused.quiet {wanted : Nat} (refused : Refused history reader err wanted later) :
    reads later = reads history ∧ charge later = charge history := by
  cases refused with
  | checked _ => exact ⟨rfl, rfl⟩
  | pool _ _ _ =>
      rw [reads_append, charge, List.map_append, List.sum_append]
      exact ⟨List.append_nil _, Int.add_zero _⟩

theorem Ensured.refusal {n : Nat} (refused : Ensured n history reader (some err) next later) :
    next = reader ∧ Refused history reader err n later := by
  obtain ⟨same, ⟨rfl, _, rfl⟩ | ⟨rfl, above, within, rfl⟩⟩ := refused.refused
  · exact ⟨same, .checked (by simp)⟩
  · exact ⟨same, .pool rfl above within⟩

/-- What the reader did not read from its source is a refusal of its own. -/
theorem Performs.refusal (performs : Performs history reader request reply next later)
    (fit : reader.Fit history) (kind : (∃ n, request = .peek n) ∨ request = .fill)
    (failed : reply.err = some err) (refusal : err.Refusal)
    (plain : ∀ e, next.err = some e → ¬e.Refusal) :
    next = reader ∧ Refused history reader err (request.wanted reader) later := by
  have read : ∀ {middle : List (Event Handle)} {roomy : Reader Handle},
      ReadsOnce middle roomy (some err) next later → False := by
    intro middle roomy once
    rcases once.remembers rfl with same | ⟨rfl, _⟩
    · exact plain err same refusal
    · rcases refusal with same | same | same | same <;> cases same
  cases performs with
  | peekReleased _ _ | peekNegative _ _ | peekTooLarge _ _ | fillReleased _ =>
      cases failed
      exact ⟨rfl, .checked (by simp)⟩
  | peek active _ within peeks =>
      cases peeks.peeked fit active (by omega) with
      | enough _ shown =>
          subst shown
          cases failed
      | refused _ refused shown =>
          subst shown
          cases failed
          exact refused.refusal
      | failed _ _ once shown =>
          subst shown
          cases failed
          exact (read once).elim
  | fillRefused _ refused =>
      cases failed
      exact refused.refusal
  | fill _ _ once =>
      cases failed
      exact (read once).elim
  | _ => simp at kind

/-- `Peek` is refused as too large exactly above `Max`. -/
theorem Performs.peek_tooLarge {n : Int}
    (performs : Performs history reader (.peek n) reply next later) (fit : reader.Fit history)
    (active : reader.done = false) (plain : ∀ e, next.err = some e → ¬e.Refusal) :
    reply.err = some .tooLarge ↔ (reader.max : Int) < n := by
  constructor
  · intro failed
    cases performs with
    | peekReleased _ _ | peekNegative _ _ => cases failed
    | peekTooLarge _ above => exact above
    | peek _ nonneg within peeks =>
        cases peeks.peeked fit active (by omega) with
        | enough _ shown =>
            subst shown
            cases failed
        | refused _ refused shown =>
            subst shown
            obtain ⟨_, ⟨_, above, _⟩ | ⟨rfl, _⟩⟩ := refused.refused
            · omega
            · cases failed
        | failed _ _ once shown =>
            subst shown
            cases failed
            rcases once.remembers rfl with same | ⟨same, _⟩
            · exact absurd (.inr (.inl rfl)) (plain _ same)
            · cases same
  · intro above
    cases performs with
    | peekReleased _ released =>
        rw [active] at released
        cases released
    | peekNegative _ negative => omega
    | peekTooLarge _ _ => rfl
    | peek _ _ within _ => omega

/-- `Fill` is refused as too large exactly with `Max` bytes buffered. -/
theorem Performs.fill_tooLarge
    (performs : Performs history reader .fill reply next later) (fit : reader.Fit history)
    (active : reader.done = false) (plain : ∀ e, next.err = some e → ¬e.Refusal) :
    reply.err = some .tooLarge ↔ reader.len = reader.max := by
  have most := fit.shaped.length_le
  have bounded := fit.shaped.bounded
  have least : reader.len ≤ reader.max := by
    simp only [Reader.len]
    omega
  cases performs with
  | fillReleased released =>
      rw [active] at released
      cases released
  | fillRefused _ refused =>
      obtain ⟨_, ⟨rfl, above, _⟩ | ⟨rfl, _, within, _⟩⟩ := refused.refused
      · exact ⟨fun _ => by omega, fun _ => rfl⟩
      · refine ⟨fun failed => ?_, fun _ => by omega⟩
        cases failed
  | fill _ ensured once =>
      constructor
      · intro failed
        rcases once.remembers failed with same | ⟨same, _⟩
        · exact absurd (.inr (.inl rfl)) (plain _ same)
        · cases same
      · intro full
        have room := (ensured.roomy fit active).enough
        have limit := (ensured.fit fit active).shaped.length_le
        rw [(ensured.roomy fit active).max] at limit
        omega

end Calls

section Contract

variable {env : Environment World Handle}

/-- What a session promises about the calls it refuses, after `history`. -/
structure RefusalContract (env : Environment World Handle) (limit : Nat)
    (history : List (Event Handle)) (session : Session World Handle) : Prop where
  unchanged : ∀ request reply next err, (∃ n, request = .peek n) ∨ request = .fill →
    session.call env request = (reply, next) → reply.err = some err → err.Refusal →
    next.reader = session.reader ∧ next.reads = session.reads ∧
      charge (history ++ session.events env request) = charge history
  peek : session.reader.done = false → ∀ n : Int,
    ((session.call env (.peek n)).1.err = some .tooLarge ↔ n > limit)
  fill : session.reader.done = false →
    ((session.call env .fill).1.err = some .tooLarge ↔ session.reader.len = limit)
  noBuffer : ∀ request, (∃ n, request = .peek n) ∨ request = .fill →
    session.reader.done = false → (session.call env request).1.err = some .noBuffer →
    session.reader.data.length < request.wanted session.reader ∧
      (env.get session.world (min (Buf.capacity (request.wanted session.reader)) limit)).1 = none

namespace Session

variable {history : List (Event Handle)} {session : Session World Handle}

def Plain (session : Session World Handle) : Prop :=
  ∀ call ∈ session.reads, ∀ err, call.err = some err → ¬err.Refusal

/-- What a source read has returned is the environment's. -/
theorem plain_events (plain : env.Plain) (request : Call) :
    ∀ call ∈ Stream.reads (session.events env request), ∀ err, call.err = some err →
      ¬err.Refusal := by
  intro call member err failed
  obtain ⟨⟨op, answer⟩, made, here⟩ := List.mem_filterMap.mp member
  obtain ⟨before, after, answered⟩ := Interaction.Program.events_answered made
  cases op with
  | read reader =>
      cases here
      cases answered
      exact plain _ _ err failed
  | get _ _ | release _ | panic => cases here

theorem Plain.call (held : session.Plain) (plain : env.Plain) (fits : session.Fits history)
    (request : Call) : (session.call env request).2.Plain := by
  unfold Plain
  rw [call_reads env fits.fit, List.forall_mem_append]
  exact ⟨held, plain_events plain request⟩

theorem Plain.run (held : session.Plain) (plain : env.Plain) (fits : session.Fits history)
    (calls : List Call) : (session.run env calls).2.Plain := by
  induction calls generalizing session history with
  | nil => exact held
  | cons request rest ih => exact ih (held.call plain fits request) (fits.call env request)

theorem Plain.err (held : session.Plain) (fits : session.Fits history) (e : Error)
    (failed : session.reader.err = some e) : ¬e.Refusal := by
  rw [← fits.failure, Session.failure] at failed
  obtain ⟨call, member, verdict⟩ := List.exists_of_findSome?_eq_some failed
  unfold SourceRead.verdict at verdict
  split at verdict
  · cases verdict
    rintro (same | same | same | same) <;> cases same
  · exact held call member e verdict

theorem Fits.refusals (fits : session.Fits history) (held : session.Plain) (plain : env.Plain) :
    RefusalContract env session.reader.max history session := by
  have fit := fits.fit
  have nextPlain : ∀ request e, (session.call env request).2.reader.err = some e → ¬e.Refusal :=
    fun request => (held.call plain fits request).err (fits.call env request)
  have performs := performs env fit
  refine ⟨?_, ?_, ?_, ?_⟩
  · intro request reply next err kind called failed refusal
    have same := (performs request).refusal fit kind (by rw [called]; exact failed) refusal
      (nextPlain request)
    rw [called] at same
    obtain ⟨reader, refused⟩ := same
    have nextFits := fits.call env request
    rw [called] at nextFits
    exact ⟨reader, by rw [nextFits.logged, refused.quiet.1, fits.logged], refused.quiet.2⟩
  · exact fun active n => (performs (.peek n)).peek_tooLarge fit active (nextPlain _)
  · exact fun active => (performs .fill).fill_tooLarge fit active (nextPlain _)
  · intro request kind active failed
    obtain ⟨_, refused⟩ :=
      (performs request).refusal fit kind failed (.inl rfl) (nextPlain request)
    generalize ended : history ++ session.events env request = later at refused
    cases refused with
    | checked other => exact absurd rfl other
    | pool _ above _ =>
        obtain ⟨after, answered⟩ :=
          Interaction.Program.events_head (List.append_cancel_left ended)
        refine ⟨above, ?_⟩
        injection answered with same
        exact congrArg Prod.fst same

end Session

/-- Any pool, any options and any calls, over a source that does not refuse on its own. -/
theorem refused_calls_change_nothing (env : Environment World Handle) (plain : env.Plain)
    {o : ReaderOptions} {hasPool : Bool} {reader : Reader Handle}
    (accepted : Reader.newReader Handle o hasPool = some reader) (world : World)
    (calls : List Call) :
    RefusalContract env reader.max ((Session.start reader world).history env calls)
      ((Session.start reader world).run env calls).2 := by
  have begins : (Session.start reader world).Fits [] := ⟨Reader.newReader_fit accepted, rfl⟩
  have started : (Session.start reader world).Plain := fun call member => by cases member
  have contract := (begins.run env calls).refusals (started.run plain begins calls) plain
  rw [begins.run_max] at contract
  exact contract

end Contract

/-- A source that counts, one byte at a time. -/
def counting : Environment (PooledWorld UInt8) Buf.Buf :=
  PooledWorld.environment fun next size => (⟨Vector.replicate size next, 1, none⟩, next + 1)

/-- A pool with a budget for no buffer at all. -/
def exhausted : PooledWorld UInt8 :=
  ⟨1, Buf.Pool.newPool (some { max := 63, used := 0 }), []⟩

/-- Two bytes fill the idle buffer, and there is none for three. -/
theorem refused_calls_change_nothing_exhausted :
    ∃ reader, Reader.newReader Buf.Buf ⟨2, 8⟩ true = some reader ∧
      let session := ((Session.start reader exhausted).run counting [.peek 2]).2
      (session.call counting (.peek 3)).1 = .bytes [1, 2] (some .noBuffer) ∧
        RefusalContract counting reader.max
          ((Session.start reader exhausted).history counting [.peek 2]) session := by
  have accepted : Reader.newReader Buf.Buf ⟨2, 8⟩ true = some _ := rfl
  have plain : counting.Plain := by
    intro world size err failed
    cases failed
  exact ⟨_, accepted, by decide +kernel,
    refused_calls_change_nothing counting plain accepted exhausted [.peek 2]⟩

end Netx.Stream
