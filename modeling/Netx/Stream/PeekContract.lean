import Netx.Stream.Feed
import Netx.Transition.System

/-!
# `Peek` does not depend on how the stream arrives

A caller peeks and discards what it was shown. Whatever the chunks, the buffers and
the growth, each `Peek` shows the bytes behind those discarded, or all that is left
and the error of the source.
-/

set_option autoImplicit false

namespace Netx.Stream

open Transition

/-- A reader in use: the bytes discarded so far, and what is left of those the last
`Peek` returned. -/
structure Use (World Handle : Type) where
  session : Session World Handle
  discarded : Nat
  shown : Nat

section Steps

variable {World Handle : Type}

def Use.start (reader : Reader Handle) (world : World) : Use World Handle where
  session := .start reader world
  discarded := 0
  shown := 0

/-- A `Peek` within `Max`, or a `Discard` of no more than the last `Peek` returned. -/
def Use.step (env : Environment World Handle) (u : Use World Handle) :
    Call → Option (Use World Handle)
  | .peek n =>
      if 0 ≤ n ∧ n ≤ u.session.reader.max then
        some { u with
          session := (u.session.peek env n).2
          shown := (u.session.peek env n).1.1.length }
      else none
  | .discard k =>
      if k ≤ u.shown then
        some {
          session := (u.session.discard env k).2
          discarded := u.discarded + k.toNat
          shown := u.shown - k.toNat }
      else none
  | _ => none

def uses (env : Environment World Handle) (reader : Reader Handle) (world : World) :
    System (Use World Handle) Call where
  initial u := u = .start reader world
  step := Use.step env

variable {env : Environment World Handle} {e : Error}

structure Use.Follows (feed : Feed env e) (limit : Nat) (stream : List UInt8)
    (u : Use World Handle) : Prop where
  valid : u.session.reader.Valid
  max : u.session.reader.max = limit
  awaits : u.session.Awaits feed (stream.drop u.discarded)
  within : u.discarded ≤ stream.length
  shown : u.shown ≤ u.session.reader.len

variable {feed : Feed env e} {limit : Nat} {stream : List UInt8} {u next : Use World Handle}

theorem Use.Follows.start {o : ReaderOptions} {hasPool : Bool} {reader : Reader Handle}
    (accepted : Reader.newReader Handle o hasPool = some reader) {world : World}
    (begins : feed.phase world (.flowing stream 0)) :
    (Use.start reader world).Follows feed reader.max stream := by
  obtain ⟨valid, empty⟩ := Reader.newReader_valid accepted
  have clean : reader.err = none := by
    simp only [Reader.newReader, Option.ite_none_left_eq_some, Option.some.injEq] at accepted
    rw [← accepted.2]
  have fresh : (Session.start reader world).buffered = [] := empty
  refine ⟨valid, rfl, .flowing stream clean begins ?_, Nat.zero_le _, Nat.zero_le _⟩
  exact (congrArg (· ++ stream) fresh).symm

theorem Use.Follows.len_le (follows : u.Follows feed limit stream) :
    u.discarded + u.session.reader.len ≤ stream.length := by
  have total : u.session.buffered.length = u.session.reader.len :=
    follows.valid.length_buffered
  have within := follows.within
  have long : u.session.buffered.length ≤ (stream.drop u.discarded).length := by
    cases follows.awaits with
    | flowing rest clean flows split =>
        rw [split, List.length_append]
        omega
    | ended sticky past same => rw [same]
  rw [List.length_drop] at long
  omega

theorem Use.Follows.peek_eq (follows : u.Follows feed limit stream) {n : Int}
    (nonneg : 0 ≤ n) (fits : n ≤ limit) :
    u.session.peek env n = u.session.peekLoop env n.toNat n.toNat := by
  have room : n ≤ u.session.reader.max := by rw [follows.max]; exact fits
  rw [Session.peek, if_neg (by rw [follows.valid.active]; simp), if_neg (by omega),
    if_neg (by omega)]

theorem Use.Follows.peek (follows : u.Follows feed limit stream) {n : Int} (nonneg : 0 ≤ n)
    (fits : n ≤ limit) :
    ∃ session, u.session.peek env n = (Session.peeked stream e u.discarded n.toNat, session) ∧
      Use.Follows feed limit stream { u with
        session
        shown := (Session.peeked stream e u.discarded n.toNat).1.length } ∧
      session.reads.length ≤ u.session.reads.length + 100 * n.toNat := by
  have asked : n.toNat ≤ u.session.reader.max := by
    rw [follows.max]
    omega
  have rounds : n.toNat ≤ u.session.reader.len + n.toNat := Nat.le_add_left _ _
  obtain ⟨session, looped, valid, awaits, max, shown, reads⟩ :=
    Session.peekLoop_feed follows.valid follows.awaits asked rounds
  rw [Session.peeked_drop follows.within] at looped shown
  exact ⟨session, (follows.peek_eq nonneg fits).trans looped,
    ⟨valid, max.trans follows.max, awaits, follows.within, shown⟩, reads⟩

/-- A caller that discards no more than it was shown discards what it says. -/
theorem Use.Follows.discard (follows : u.Follows feed limit stream) {k : Int}
    (least : k ≤ u.shown) :
    Use.Follows feed limit stream {
      session := (u.session.discard env k).2
      discarded := u.discarded + k.toNat
      shown := u.shown - k.toNat } := by
  cases result : u.session.discard env k with
  | mk count session =>
      have shown := follows.shown
      obtain ⟨valid, _, counted, front⟩ := Session.discard_spec follows.valid result
      obtain ⟨_, max, _⟩ := Session.discard_kept feed result
      have awaits := Session.discard_feed follows.valid follows.awaits result
      have all : count = k.toNat := by omega
      have lengths : count + session.reader.len = u.session.reader.len := by
        have total : u.session.buffered.length = u.session.reader.len :=
          follows.valid.length_buffered
        have left : session.buffered.length = session.reader.len := valid.length_buffered
        have sum := congrArg List.length front
        rw [List.length_append, List.length_take, left, total] at sum
        omega
      have long := follows.len_le
      subst all
      refine ⟨valid, max.trans follows.max, ?_, ?_, ?_⟩
      · rw [← List.drop_drop]
        exact awaits
      · show u.discarded + k.toNat ≤ stream.length
        omega
      · show u.shown - k.toNat ≤ session.reader.len
        omega

theorem Use.Follows.step (follows : u.Follows feed limit stream) {request : Call}
    (stepped : u.step env request = some next) : next.Follows feed limit stream := by
  cases request with
  | peek n =>
      obtain ⟨⟨nonneg, fits⟩, same⟩ := Option.ite_none_right_eq_some.mp stepped
      rw [follows.max] at fits
      obtain ⟨session, result, later, _⟩ := follows.peek nonneg fits
      simp only [result] at same
      cases same
      exact later
  | discard k =>
      obtain ⟨least, same⟩ := Option.ite_none_right_eq_some.mp stepped
      cases same
      exact follows.discard least
  | _ => cases stepped

end Steps

section Contract

variable {World Handle : Type} {env : Environment World Handle} {e : Error}

/-- What `Peek(n)` does after `discarded` bytes of `stream` have gone: it returns the
bytes asked for, or all that is left and the error, after finitely many reads, and it
is not cut short by the bound on its rounds. -/
structure PeekContract (env : Environment World Handle) (stream : List UInt8) (e : Error)
    (discarded : Nat) (session : Session World Handle) (n : Int) : Prop where
  reply : (session.peek env n).1 = Session.peeked stream e discarded n.toNat
  reads : (session.peek env n).2.reads.length ≤ session.reads.length + 100 * n.toNat
  rounds : ∀ more, session.peekLoop env n.toNat (n.toNat + more) = session.peek env n

/-- `Peek` is independent of how the source chops the stream. -/
theorem peek_ignores_chunks (feed : Feed env e) {o : ReaderOptions} {hasPool : Bool}
    {reader : Reader Handle} (accepted : Reader.newReader Handle o hasPool = some reader)
    {world : World} {stream : List UInt8} (begins : feed.phase world (.flowing stream 0))
    {calls : List Call} {u : Use World Handle}
    (executed : (uses env reader world).exec (.start reader world) calls = some u)
    {n : Int} (nonneg : 0 ≤ n) (fits : n ≤ reader.max) :
    PeekContract env stream e u.discarded u.session n := by
  have follows := System.exec_keeps (Use.Follows feed reader.max stream)
    (fun _ _ _ held stepped => held.step stepped) (.start accepted begins) executed
  obtain ⟨session, result, _, reads⟩ := follows.peek nonneg fits
  refine ⟨by rw [result], by rw [result]; exact reads, fun more => ?_⟩
  rw [follows.peek_eq nonneg fits]
  exact Session.peekLoop_rounds more follows.valid (Nat.le_add_left _ _)

end Contract

/-- A source that answers every other read with nothing and otherwise gives at most
`most` bytes, the last of them together with `e`. Its pool has no limit. -/
def dripping (most : Nat) (e : Error) : Environment (List UInt8 × Bool) Unit where
  read world size :=
    let n := min (most + 1) (min size world.1.length)
    if world.2 then (⟨Vector.replicate size 0, 0, none⟩, (world.1, false))
    else (⟨Vector.ofFn fun i => world.1.getD i 0, n,
      if n = world.1.length then some e else none⟩, (world.1.drop n, true))
  get world size := (some ⟨(), List.replicate size 0⟩, world)
  release world _ := world
  get_length := by
    intro world after size borrowed provided
    cases provided
    exact List.length_replicate

def drippingPhase (world : List UInt8 × Bool) : Phase → Prop
  | .flowing rest empties => world.1 = rest ∧ empties = if world.2 then 0 else 1
  | .ended => True

private theorem take_ofFn_getD {size n : Nat} {rest : List UInt8} (fits : n ≤ size)
    (enough : n ≤ rest.length) :
    (Vector.ofFn fun i : Fin size => rest.getD i 0).toList.take n = rest.take n := by
  refine List.ext_getElem ?_ fun i front back => ?_
  · rw [List.length_take, List.length_take, Vector.length_toList]
    omega
  · have known : i < rest.length := by
      rw [List.length_take] at back
      omega
    simp [known]

def drippingFeed (most : Nat) (e : Error) : Feed (dripping most e) e where
  phase := drippingPhase
  read := by
    rintro ⟨rest, pauses⟩ _ empties size room ⟨rfl, rfl⟩
    cases pauses with
    | true => exact ⟨_, .empty rfl rfl (by simp), rfl, rfl⟩
    | false =>
        obtain ⟨n, sized⟩ : ∃ n, min (most + 1) (min size rest.length) = n := ⟨_, rfl⟩
        have answer : (dripping most e).read (rest, false) size =
            (⟨Vector.ofFn fun i => rest.getD i 0, n,
              if n = rest.length then some e else none⟩, (rest.drop n, true)) := by
          subst sized
          rfl
        have fits : n ≤ size := by omega
        have taken := take_ofFn_getD fits (show n ≤ rest.length by omega)
        rw [answer]
        by_cases all : n = rest.length
        · refine ⟨.ended, .last n rfl (if_pos all) fits ?_, trivial⟩
          rw [taken, all, List.take_length]
        · refine ⟨_, .chunk n (rest.drop n) rfl (if_neg all) (by omega) fits ?_, rfl, rfl⟩
          rw [taken, List.take_append_drop]
  get size here := ⟨_, _, rfl, here⟩
  release _ here := here

def sevenBytes : List UInt8 := [1, 2, 3, 4, 5, 6, 7]

def smallReader : Reader Unit where
  idle := [0, 0]
  big := none
  r := 0
  w := 0
  last := 0
  err := none
  max := 5
  done := false

/-- Three bytes at a time, with pauses, through an idle buffer of two: the buffer has
to grow and to be compacted before the error shows. -/
theorem peek_ignores_chunks_dripping :
    Reader.newReader Unit ⟨2, 5⟩ true = some smallReader ∧
    ∃ u, (uses (dripping 2 (.source 7)) smallReader (sevenBytes, true)).exec
        (.start smallReader (sevenBytes, true))
        [.peek 4, .discard 3, .discard 1, .peek 2] = some u ∧
      (u.session.peek (dripping 2 (.source 7)) 5).1 = ([5, 6, 7], some (.source 7)) ∧
      PeekContract (dripping 2 (.source 7)) sevenBytes (.source 7) u.discarded u.session 5 := by
  have accepted : Reader.newReader Unit ⟨2, 5⟩ true = some smallReader := rfl
  have checked : ((uses (dripping 2 (.source 7)) smallReader (sevenBytes, true)).exec
      (.start smallReader (sevenBytes, true))
      [.peek 4, .discard 3, .discard 1, .peek 2]).any (fun u => decide (u.discarded = 4)) =
      true := by
    decide +kernel
  obtain ⟨u, executed, facts⟩ := System.exec_of_check _ checked
  have contract := peek_ignores_chunks (drippingFeed 2 (.source 7)) accepted ⟨rfl, rfl⟩ executed
    (show 0 ≤ (5 : Int) by decide) (by decide)
  refine ⟨accepted, u, executed, contract.reply.trans ?_, contract⟩
  rw [of_decide_eq_true facts]
  decide

end Netx.Stream
