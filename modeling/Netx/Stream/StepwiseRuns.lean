import Netx.Stream.Stepwise

/-!
# A reader alone in its environment

When its source and its pool answer every request at once, a stepwise call that does not
panic does what `Session.call` does.
-/

set_option autoImplicit false

namespace Netx.Stream

open Interaction (Program Handler)

variable {World Handle : Type}

def Environment.answer (env : Environment World Handle) :
    Handler (Op Handle) Op.Answer (World × List SourceRead)
  | (world, reads), .read reader =>
      let size := reader.data.length - reader.w
      let (result, world) := env.read world size
      some (result, world, reads ++ [⟨size, result.bytes.toList, result.n, result.err⟩])
  | (world, reads), .get _ size =>
      let (borrowed, world) := env.get world size
      some (borrowed, world, reads)
  | (world, reads), .release borrowed => some ((), env.release world borrowed, reads)
  | _, .panic => none

def Session.outside (session : Session World Handle) : World × List SourceRead :=
  (session.world, session.reads)

namespace Stepwise

variable (env : Environment World Handle)

/-- The program ends with `final`, unless it panics. -/
def Yields {α : Type} (program : Stepwise Handle α) (outside : World × List SourceRead)
    (final : α × World × List SourceRead) : Prop :=
  ∀ reached, program.run env.answer outside = some reached → reached = final

/-- The program does what the function of the session does. -/
def Follows {α : Type} (program : Stepwise Handle (α × Reader Handle))
    (session : Session World Handle) (result : α × Session World Handle) : Prop :=
  Yields env program session.outside ((result.1, result.2.reader), result.2.outside)

variable {env}

theorem Yields.pure {α : Type} (result : α) (outside : World × List SourceRead) :
    Yields env (pure result) outside (result, outside) := by
  intro reached ran
  cases ran
  rfl

theorem Yields.bind {α β : Type} {program : Stepwise Handle α} {rest : α → Stepwise Handle β}
    {outside middle : World × List SourceRead} {result : α}
    {final : β × World × List SourceRead} (first : Yields env program outside (result, middle))
    (second : Yields env (rest result) middle final) :
    Yields env (program >>= rest) outside final := by
  intro reached ran
  rw [Program.run_bind] at ran
  obtain ⟨here, began, ended⟩ := Option.bind_eq_some_iff.mp ran
  cases first here began
  exact second reached ended

private theorem yields_slice (bytes : List UInt8) (low high : Nat)
    (outside : World × List SourceRead) :
    Yields env (slice bytes low high) outside ((bytes.take high).drop low, outside) := by
  unfold slice
  split
  · exact .pure _ _
  · intro reached ran
    cases ran

variable (session : Session World Handle)

private theorem yields_buffered :
    Yields env (buffered session.reader) session.outside (session.buffered, session.outside) :=
  yields_slice _ _ _ _

private theorem yields_releaseBig (big : Option (Borrowed Handle)) (world : World)
    (reads : List SourceRead) : Yields env (releaseBig big) (world, reads)
      ((), big.elim world (env.release world), reads) := by
  intro reached ran
  cases big <;> cases ran <;> rfl

private theorem yields_get (reader : Reader Handle) (reads : List SourceRead) {size : Nat}
    {world after : World} {answer : Option (Borrowed Handle)}
    (provided : env.get world size = (answer, after)) :
    Yields env (request (.get reader size)) (world, reads) (answer, after, reads) := by
  rintro reached ran
  have same : some ((env.get world size).1, (env.get world size).2, reads) = some reached := ran
  rw [provided] at same
  exact (Option.some.inj same).symm

private theorem follows_readSource :
    Follows env (readSource session.reader) session (session.readSource env) := by
  refine (yields_slice _ _ _ _).bind ?_
  intro reached ran
  cases ran
  rfl

private theorem follows_readLoop (attempts : Nat) (session : Session World Handle) :
    Follows env (readLoop attempts session.reader) session (session.readLoop env attempts) := by
  induction attempts generalizing session with
  | zero => exact .pure _ _
  | succ attempts ih =>
      refine (follows_readSource session).bind ?_
      unfold Session.readLoop
      dsimp only
      split
      · exact .pure _ _
      · exact ih _

private theorem readOnce_clean {session : Session World Handle}
    (clean : session.reader.err = none) : session.readOnce env =
      let (answer, middle) := session.readLoop env Session.maxEmptyReads
      let (failed, reader) := middle.reader.count answer
      (failed, { middle with reader }) := by
  simp only [Session.readOnce, clean]
  cases session.readLoop env Session.maxEmptyReads with
  | mk answer middle =>
      cases answer with
      | none => rfl
      | some answer =>
          obtain ⟨n, err⟩ := answer
          simp only [Reader.count]
          split
          · rfl
          · cases err with
            | none => rfl
            | some err =>
                dsimp only
                split <;> rfl

private theorem follows_readOnce :
    Follows env (readOnce session.reader) session (session.readOnce env) := by
  cases sticky : session.reader.err with
  | some err =>
      simp only [readOnce, Session.readOnce, sticky]
      exact .pure _ _
  | none =>
      rw [readOnce_clean sticky]
      simp only [readOnce, sticky]
      exact (follows_readLoop _ session).bind (.pure _ _)

private theorem follows_grow (need : Nat) (session : Session World Handle) :
    Follows env (grow need session.reader) session (session.grow env need) := by
  unfold grow Session.grow
  dsimp only
  split
  · exact .pure _ _
  · cases provided : env.get session.world
      (min (Buf.capacity (max need (session.reader.data.length + 1))) session.reader.max) with
    | mk answer world =>
        refine (yields_get session.reader session.reads provided).bind ?_
        cases answer with
        | none => exact .pure _ _
        | some borrowed =>
            refine (yields_slice _ _ _ _).bind ((yields_releaseBig _ _ _).bind ?_)
            cases session.reader.big <;> exact .pure _ _

private theorem follows_ensure (n : Nat) (session : Session World Handle) :
    Follows env (ensure n session.reader) session (session.ensure env n) := by
  unfold ensure Session.ensure
  dsimp only
  split
  · exact .pure _ _
  · split
    · exact follows_grow _ _
    · split
      · exact .pure _ _
      · split
        · refine (yields_buffered session).bind ?_
          have same : session.reader.front session.buffered = Session.compact session.reader := rfl
          rw [same]
          split
          · exact .pure _ _
          · exact follows_grow _ { session with reader := Session.compact session.reader }
        · exact follows_grow _ _

/-- `data[r:r+n]` is the front of what is buffered. -/
theorem yields_front {n : Nat} (enough : n ≤ session.reader.len) :
    Yields env (slice session.reader.data session.reader.r (session.reader.r + n)) session.outside
      (session.buffered.take n, session.outside) := by
  have same : (session.reader.data.take (session.reader.r + n)).drop session.reader.r =
      session.buffered.take n := by
    simp only [Reader.len] at enough
    rw [Session.buffered, Reader.buffered, List.take_drop, List.take_take]
    by_cases some : n = 0
    · subst some
      rw [Nat.add_zero, List.drop_eq_nil_of_le (List.length_take_le _ _), List.drop_eq_nil_of_le]
      exact Nat.le_trans (List.length_take_le _ _) (Nat.min_le_left _ _)
    · rw [Nat.min_eq_left (by omega)]
  rw [← same]
  exact yields_slice _ _ _ _

private theorem follows_peekLoop (n rounds : Nat) (session : Session World Handle) :
    Follows env (peekLoop n rounds session.reader) session (session.peekLoop env n rounds) := by
  induction rounds generalizing session with
  | zero =>
      unfold peekLoop Session.peekLoop
      split
      · exact (yields_buffered session).bind (.pure _ _)
      · exact (yields_front session (by omega)).bind (.pure _ _)
  | succ rounds ih =>
      unfold peekLoop Session.peekLoop
      split
      · refine (follows_ensure n session).bind ?_
        cases session.ensure env n with
        | mk refused roomy =>
            cases refused with
            | some err => exact (yields_buffered roomy).bind (.pure _ _)
            | none =>
                refine (follows_readOnce roomy).bind ?_
                dsimp only
                cases roomy.readOnce env with
                | mk failed filled =>
                    cases failed with
                    | none => exact ih filled
                    | some err =>
                        dsimp only
                        split
                        · exact (yields_front filled (by assumption)).bind (.pure _ _)
                        · exact (yields_buffered filled).bind (.pure _ _)
      · exact (yields_front session (by omega)).bind (.pure _ _)

private theorem follows_peek (n : Int) (session : Session World Handle) :
    Follows env (peek n session.reader) session (session.peek env n) := by
  unfold peek Session.peek
  split
  · exact .pure _ _
  · split
    · exact .pure _ _
    · split
      · exact (yields_buffered session).bind (.pure _ _)
      · exact follows_peekLoop _ _ _

private theorem follows_fill : Follows env (fill session.reader) session (session.fill env) := by
  unfold fill Session.fill
  split
  · exact .pure _ _
  · refine (follows_ensure _ session).bind ?_
    cases session.ensure env (session.reader.len + 1) with
    | mk refused roomy =>
        cases refused with
        | some err => exact .pure _ _
        | none => exact follows_readOnce roomy

private theorem yields_shrink :
    Yields env (shrink session.reader) session.outside
      ((session.shrink env).reader, (session.shrink env).outside) := by
  refine (yields_releaseBig _ _ _).bind ?_
  unfold Session.shrink
  cases big : session.reader.big with
  | some borrowed => exact .pure _ _
  | none =>
      have same : { session.reader with big := none } = session.reader := by rw [← big]
      rw [same]
      exact .pure _ _

private theorem follows_discard (n : Int) (session : Session World Handle) :
    Follows env (discard n session.reader) session (session.discard env n) := by
  unfold discard Session.discard
  dsimp only
  split
  · exact .pure _ _
  · split
    · split
      · exact (yields_shrink { session with
          reader := { session.reader with r := 0, w := 0 } }).bind (.pure _ _)
      · exact .pure _ _
    · exact .pure _ _

private theorem follows_deliver (size : Nat) (session : Session World Handle) :
    Follows env (deliver size session.reader) session
      ((session.buffered.take size, none),
        (session.discard env (session.buffered.take size).length).2) :=
  (yields_buffered session).bind ((follows_discard _ session).bind (.pure _ _))

private theorem follows_read (size : Nat) (session : Session World Handle) :
    Follows env (read size session.reader) session (session.read env size) := by
  unfold read Session.read
  dsimp only
  split
  · exact .pure _ _
  · split
    · exact .pure _ _
    · split
      · refine (follows_readOnce session).bind ?_
        cases session.readOnce env with
        | mk failed filled =>
            cases failed with
            | none => exact follows_deliver size filled
            | some err =>
                dsimp only
                split
                · exact .pure _ _
                · exact follows_deliver size filled
      · exact follows_deliver size session

private theorem yields_release :
    Yields env (release session.reader) session.outside
      ((session.release env).reader, (session.release env).outside) := by
  unfold release Session.release
  split
  · exact .pure _ _
  · refine (yields_releaseBig _ _ _).bind ?_
    cases session.reader.big <;> exact .pure _ _

/-- A call that does not panic is the session's. -/
theorem follows_call (request : Call) :
    Follows env (call session.reader request) session (session.call env request) := by
  cases request with
  | peek n => exact (follows_peek n session).bind (.pure _ _)
  | fill => exact (follows_fill session).bind (.pure _ _)
  | read size => exact (follows_read size session).bind (.pure _ _)
  | discard n => exact (follows_discard n session).bind (.pure _ _)
  | buffered => exact (yields_buffered session).bind (.pure _ _)
  | release => exact (yields_release session).bind (.pure _ _)

end Stepwise

end Netx.Stream
