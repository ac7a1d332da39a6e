import Netx.Stream.Conduct

/-!
# The calls of a session

A reader alone in its environment is fit after every sequence of calls, and each of its
calls does one of the things it is to do.
-/

set_option autoImplicit false

namespace Netx.Stream

open Interaction (Program)

variable {World Handle : Type}

/-- The environment answers whatever a reader may ask. -/
theorem Environment.answers (env : Environment World Handle) (max wanted : Nat)
    (outside : World × List SourceRead) (history : List (Event Handle)) (op : Op Handle)
    (allowed : (conduct Handle max wanted).allows history op) :
    ∃ answer next, env.answer outside op = some (answer, next) ∧
      (conduct Handle max wanted).promises op answer := by
  cases op with
  | read reader => exact ⟨_, _, rfl, trivial⟩
  | get reader size =>
      exact ⟨_, _, rfl, fun borrowed granted => env.get_length (Prod.ext granted rfl)⟩
  | release borrowed => exact ⟨_, _, rfl, trivial⟩
  | panic => exact allowed.elim

theorem Environment.promised (env : Environment World Handle) (max wanted : Nat)
    (outside : World × List SourceRead) (op : Op Handle) (answer : op.Answer)
    (next : World × List SourceRead) (answered : env.answer outside op = some (answer, next)) :
    (conduct Handle max wanted).promises op answer := by
  cases op with
  | read reader => trivial
  | get reader size =>
      rintro borrowed rfl
      have provided : some ((env.get outside.1 size).1, (env.get outside.1 size).2, outside.2) =
        some (some borrowed, next) := answered
      have granted : (env.get outside.1 size).1 = some borrowed := by
        injection provided with same
        exact congrArg Prod.fst same
      exact env.get_length (Prod.ext granted rfl)
  | release borrowed => trivial
  | panic => cases answer

/-- The source reads of a run are those the environment has logged. -/
theorem run_reads {α : Type} (env : Environment World Handle) {program : Stepwise Handle α}
    {outside final : World × List SourceRead} {result : α}
    (ran : program.run env.answer outside = some (result, final)) :
    final.2 = outside.2 ++ reads (program.events env.answer outside) := by
  induction program generalizing outside with
  | done value =>
      cases ran
      exact (List.append_nil _).symm
  | ask op next ih =>
      cases op with
      | read reader =>
          have logged := ih _ ran
          rw [logged]
          exact List.append_assoc _ _ _
      | get reader size => exact ih _ ran
      | release borrowed => exact ih _ ran
      | panic => cases ran

namespace Session

variable (env : Environment World Handle)

/-- What a call asks for, and what it is answered. -/
def events (request : Call) (session : Session World Handle) : List (Event Handle) :=
  (Stepwise.call session.reader request).events env.answer session.outside

def history : List Call → Session World Handle → List (Event Handle)
  | [], _ => []
  | request :: rest, session =>
      session.events env request ++ history rest (session.call env request).2

variable {session : Session World Handle} {before : List (Event Handle)}

/-- No slice expression is out of range, so that the call is the session's. -/
theorem runs (fit : session.reader.Fit before) (request : Call) :
    (Stepwise.call session.reader request).run env.answer session.outside =
      some (((session.call env request).1, (session.call env request).2.reader),
        (session.call env request).2.outside) := by
  obtain ⟨result, final, ran, _⟩ :=
    (Stepwise.meets_call fit request).run (env.answers _ _) session.outside
  rw [ran, Stepwise.follows_call session request (result, final) ran]

theorem performs (fit : session.reader.Fit before) (request : Call) :
    Performs before session.reader request (session.call env request).1
      (session.call env request).2.reader (before ++ session.events env request) := by
  obtain ⟨result, final, ran, performs⟩ :=
    (Stepwise.meets_call fit request).run (env.answers _ _) session.outside
  cases Stepwise.follows_call session request (result, final) ran
  exact performs

theorem call_reads (fit : session.reader.Fit before) (request : Call) :
    (session.call env request).2.reads =
      session.reads ++ Stream.reads (session.events env request) :=
  run_reads env (runs env fit request)

variable {env} in
/-- Whatever is asked during a call may be asked. -/
theorem permitted (fit : session.reader.Fit before) {request : Call}
    {front back : List (Event Handle)} {event : Event Handle}
    (made : session.events env request = front ++ event :: back) :
    Permitted session.reader.max (request.wanted session.reader) (before ++ front) event.op :=
  (Stepwise.meets_call fit request).events (env.promised _ _) made

/-- The reader fits a history with the reads that were logged. -/
structure Fits (before : List (Event Handle)) (session : Session World Handle) : Prop where
  fit : session.reader.Fit before
  logged : session.reads = Stream.reads before

theorem Fits.call (fits : session.Fits before) (request : Call) :
    (session.call env request).2.Fits (before ++ session.events env request) := by
  refine ⟨((performs env fits.fit request).fit fits.fit).1, ?_⟩
  rw [call_reads env fits.fit, fits.logged, reads_append]

theorem Fits.run (fits : session.Fits before) (calls : List Call) :
    (session.run env calls).2.Fits (before ++ session.history env calls) := by
  induction calls generalizing session before with
  | nil =>
      rw [history, List.append_nil]
      exact fits
  | cons request rest ih =>
      have final := ih (fits.call env request)
      rw [List.append_assoc] at final
      exact final

/-- `Max` stays. -/
theorem Fits.run_max (fits : session.Fits before) (calls : List Call) :
    (session.run env calls).2.reader.max = session.reader.max := by
  induction calls generalizing session before with
  | nil => rfl
  | cons request rest ih =>
      have kept := ((performs env fits.fit request).fit fits.fit).2.1
      exact (ih (fits.call env request)).trans kept

theorem fits_reached {o : ReaderOptions} {hasPool : Bool} {reader : Reader Handle}
    (accepted : Reader.newReader Handle o hasPool = some reader) (world : World)
    (calls : List Call) :
    ((start reader world).run env calls).2.Fits ((start reader world).history env calls) := by
  have begins : (start reader world).Fits [] := ⟨Reader.newReader_fit accepted, rfl⟩
  exact begins.run env calls

end Session

/-- How a `Peek` within `Max` ends. Only its first request for room can be refused. -/
inductive Peeked (n : Nat) (history : List (Event Handle)) (reader : Reader Handle)
    (reply : List UInt8 × Option Error) (next : Reader Handle) (later : List (Event Handle)) :
    Prop where
  | enough (enough : n ≤ next.len) (shown : reply = (next.buffered.take n, none))
  | refused {err : Error} (short : reader.len < n)
      (refused : Ensured n history reader (some err) next later)
      (shown : reply = (next.buffered, some err))
  | failed {err : Error} {middle : List (Event Handle)} {roomy : Reader Handle}
      (short : next.len < n) (fit : roomy.Fit middle)
      (failed : ReadsOnce middle roomy (some err) next later)
      (shown : reply = (next.buffered, some err))

theorem Peeks.peeked {n : Nat} {history later : List (Event Handle)}
    {reader next : Reader Handle} {reply : List UInt8 × Option Error}
    (peeks : Peeks n history reader reply next later) (fit : reader.Fit history)
    (active : reader.done = false) (within : n ≤ reader.max) :
    Peeked n history reader reply next later := by
  induction peeks with
  | enough enough => exact .enough enough rfl
  | refused short refused => exact .refused short refused rfl
  | @failed history middle later reader roomy next err short ensured failed =>
      have roomyFit := ensured.fit fit active
      have same := (ensured.roomy fit active).len fit.shaped roomyFit.shaped
      have kept := (failed.len roomyFit).2 (by simp)
      exact .failed (by omega) roomyFit failed rfl
  | @again history middle second later reader roomy filled next reply short ensured read rest ih =>
      have made := ensured.roomy fit active
      have roomyFit := ensured.fit fit active
      have still := made.done.trans active
      obtain ⟨frame, _, length, _⟩ := read.frame still
      have room : n ≤ filled.data.length := by
        rw [length]
        exact made.enough
      have peeked := ih (read.fit roomyFit still made.room) (frame.done.trans still)
        (by rw [frame.max, made.max]; exact within)
      cases peeked with
      | enough enough shown => exact .enough enough shown
      | refused _ refused shown =>
          obtain ⟨_, ⟨_, above, _⟩ | ⟨_, above, _⟩⟩ := refused.refused
          · rw [frame.max, made.max] at above
            omega
          · omega
      | failed less fit failed shown => exact .failed less fit failed shown

end Netx.Stream
