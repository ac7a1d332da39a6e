import Netx.Stream.Outcomes
import Netx.Stream.ReaderProperties
import Netx.Stream.WriterProperties

/-!
# From a writer to a reader

A writer at one end of a connection and a reader at the other, with their calls in any
order. The connection keeps the order of the bytes and hands them over in pieces of any
size, with errors at any time.
-/

set_option autoImplicit false

namespace Netx.Stream

/-- The source of a reader with the bytes that were written and not read yet. -/
structure Line (World Handle : Type) extends Environment World Handle where
  transit : World → List UInt8
  carry : World → List UInt8 → World
  carry_transit : ∀ world bytes, transit (carry world bytes) = transit world ++ bytes
  read_transit : ∀ world size,
    SourceRead.delivered ⟨size, (read world size).1.bytes.toList, (read world size).1.n,
      (read world size).1.err⟩ ++ transit (read world size).2 = transit world
  get_transit : ∀ world size, transit (get world size).2 = transit world
  release_transit : ∀ world borrowed, transit (release world borrowed) = transit world

theorem Line.run_transit {World Handle α : Type} (line : Line World Handle)
    {program : Stepwise Handle α} {outside final : World × List SourceRead} {result : α}
    (ran : program.run line.answer outside = some (result, final)) :
    final.2.flatMap SourceRead.delivered ++ line.transit final.1 =
      outside.2.flatMap SourceRead.delivered ++ line.transit outside.1 := by
  induction program generalizing outside with
  | done value =>
      cases ran
      rfl
  | ask op next ih =>
      cases op with
      | read reader =>
          rw [ih _ ran, List.flatMap_append, List.flatMap_singleton, List.append_assoc,
            line.read_transit]
      | get reader size => rw [ih _ ran, line.get_transit]
      | release borrowed => rw [ih _ ran, line.release_transit]
      | panic => cases ran

section Writers

variable {D E Handle : Type} (dest : Destination D E)

/-- What a call of a writer is to send, and whether it returns an error. -/
def Outgoing.flushes (out : Outgoing D Handle) (box : Outbox Handle) :
    WriterCall Handle → List UInt8 × Bool
  | .flush => (box.payload, (out.flush dest).1.2.isSome)
  | _ => ([], false)

theorem Outgoing.Shows.sends {out : Outgoing D Handle} {box : Outbox Handle}
    (shown : out.Shows box) (room : Nat → Nat) (call : WriterCall Handle) :
    ∃ sent, dest.received (out.call dest room call).dst = dest.received out.dst ++ sent ∧
      ((out.flushes dest box call).2 = false → sent = (out.flushes dest box call).1) := by
  cases call with
  | flush =>
      obtain ⟨sent, _, received, _, whole⟩ := (shown.flush dest).1.sent
      exact ⟨sent, received, fun clean => whole (Option.isNone_iff_eq_none.mp
        (Option.isSome_eq_false_iff.mp clean))⟩
  | add | addShared | discard => exact ⟨[], (List.append_nil _).symm, fun _ => rfl⟩

end Writers

/-- Both ends, what was consumed of the stream, what was queued and flushed, and whether a
`Flush` has returned an error. -/
structure Link (D World Handle : Type) where
  out : Outgoing D Handle
  session : Session World Handle
  consumed : List UInt8
  box : Outbox Handle
  flushed : List UInt8
  failed : Bool

inductive LinkCall (Handle : Type) where
  | writer (call : WriterCall Handle)
  | reader (call : Call)

namespace Link

variable {D E World Handle : Type} (dest : Destination D E) (line : Line World Handle)
  (room : Nat → Nat)

def start (d : D) (reader : Reader Handle) (world : World) : Link D World Handle :=
  ⟨.start d, .start reader world, [], .empty, [], false⟩

def call (link : Link D World Handle) : LinkCall Handle → Link D World Handle
  | .writer call =>
      let out := link.out.call dest room call
      let sent := (dest.received out.dst).drop (dest.received link.out.dst).length
      let flushes := link.out.flushes dest link.box call
      { link with
        out
        session := { link.session with world := line.carry link.session.world sent }
        box := link.box.after call
        flushed := link.flushed ++ flushes.1
        failed := link.failed || flushes.2 }
  | .reader call =>
      let called := link.session.call line.toEnvironment call
      { link with
        session := called.2
        consumed := link.consumed ++ link.session.taken call called.1 }

def run (link : Link D World Handle) (calls : List (LinkCall Handle)) : Link D World Handle :=
  calls.foldl (call dest line room) link

structure Sound (link : Link D World Handle) : Prop where
  shows : link.out.Shows link.box
  fit : ∃ before, link.session.reader.Fit before
  valid : link.session.reader.Valid
  consumed : link.consumed ++ link.session.buffered = link.session.received
  carried : link.session.received ++ line.transit link.session.world = dest.received link.out.dst
  flushed : link.failed = false → dest.received link.out.dst = link.flushed

variable {dest line} {link : Link D World Handle}

theorem Sound.call (sound : link.Sound dest line) {request : LinkCall Handle}
    (kept : request ≠ .reader .release) : (link.call dest line room request).Sound dest line := by
  cases request with
  | writer call =>
      obtain ⟨sent, received, whole⟩ := sound.shows.sends dest room call
      refine ⟨sound.shows.call dest room call, sound.fit, sound.valid, sound.consumed, ?_, ?_⟩
      · simp only [Link.call, received, List.drop_left, line.carry_transit, ← List.append_assoc]
        rw [← sound.carried]
        rfl
      · intro clean
        obtain ⟨before, now⟩ := Bool.or_eq_false_iff.mp clean
        simp only [Link.call, received, sound.flushed before, whole now]
  | reader request =>
      obtain ⟨before, fit⟩ := sound.fit
      have fitAfter := ((Session.performs line.toEnvironment fit request).fit fit).1
      have carried := line.run_transit (Session.runs line.toEnvironment fit request)
      obtain ⟨valid, arrived, received, moved⟩ :=
        Session.call_advances (fun same => kept (congrArg _ same)) sound.valid Prod.mk.eta.symm
      refine ⟨sound.shows, ⟨_, fitAfter⟩, valid, ?_, carried.trans sound.carried, sound.flushed⟩
      rw [Link.call, List.append_assoc, moved, ← List.append_assoc, sound.consumed, received]

theorem Sound.run (sound : link.Sound dest line) {calls : List (LinkCall Handle)}
    (kept : .reader .release ∉ calls) : (link.run dest line room calls).Sound dest line := by
  induction calls generalizing link with
  | nil => exact sound
  | cons request rest ih =>
      obtain ⟨other, later⟩ := List.ne_and_not_mem_of_not_mem_cons kept
      exact ih (sound.call room other.symm) later

/-- On a fresh connection, whatever the calls at both ends: the bytes consumed, buffered and
on their way are those sent, in order, and if no `Flush` failed, those that were flushed. -/
theorem written_is_read {o : ReaderOptions} {hasPool : Bool} {reader : Reader Handle} {d : D}
    {world : World} (accepted : Reader.newReader Handle o hasPool = some reader)
    (unsent : dest.received d = []) (quiet : line.transit world = [])
    {calls : List (LinkCall Handle)} (kept : .reader .release ∉ calls) :
    let link := (start d reader world).run dest line room calls
    link.consumed ++ link.session.buffered ++ line.transit link.session.world =
        dest.received link.out.dst ∧
      (link.failed = false → dest.received link.out.dst = link.flushed) := by
  obtain ⟨valid, empty⟩ := Reader.newReader_valid accepted
  have begun : (start d reader world).Sound dest line :=
    ⟨Outgoing.shows_start d, ⟨[], Reader.newReader_fit accepted⟩, valid, empty,
      quiet.trans unsent.symm, fun _ => unsent⟩
  have sound := begun.run room kept
  exact ⟨by rw [sound.consumed, sound.carried], sound.flushed⟩

end Link

def Line.pairs : Line (List UInt8) Unit where
  read world size :=
    let n := min (min 2 size) world.length
    (⟨⟨(world.take n ++ List.replicate (size - n) 0).toArray, by
      rw [List.size_toArray, List.length_append, List.length_take, List.length_replicate]
      omega⟩, n, none⟩, world.drop n)
  get world size := (some ⟨(), List.replicate size 0⟩, world)
  release world _ := world
  get_length granted := by
    cases granted
    exact List.length_replicate
  transit := id
  carry := (· ++ ·)
  carry_transit _ _ := rfl
  read_transit world size := by
    have within : min (min 2 size) world.length ≤ size := by omega
    rw [SourceRead.delivered, if_pos ⟨Int.natCast_nonneg _, Int.ofNat_le.mpr within⟩]
    show List.take _ (world.take (min (min 2 size) world.length) ++ _) ++ _ = world
    rw [Int.toNat_natCast, List.take_left' (List.length_take_of_le (Nat.min_le_right _ _))]
    exact List.take_append_drop _ _
  get_transit _ _ := rfl
  release_transit _ _ := rfl

def Link.pairsRun : List (LinkCall Unit) :=
  [.writer (.add ⟨(), [1, 2, 3]⟩), .writer (.addShared [4]), .writer .flush, .reader (.peek 3),
    .reader (.read 2), .writer (.add ⟨(), [5]⟩), .writer .flush]

theorem Link.written_is_read_in_pairs :
    ∃ reader, Reader.newReader Unit ⟨2, 8⟩ true = some reader ∧
      let link := (start [] reader []).run (.capped 9) .pairs id pairsRun
      (link.consumed, link.session.buffered, link.session.world) = ([1, 2], [3, 4], [5]) ∧
      link.consumed ++ link.session.buffered ++ Line.pairs.transit link.session.world =
        (Destination.capped 9).received link.out.dst := by
  have accepted : Reader.newReader Unit ⟨2, 8⟩ true = some _ := rfl
  have kept : .reader .release ∉ pairsRun := by simp [pairsRun]
  exact ⟨_, accepted, by decide +kernel, (written_is_read id accepted rfl rfl kept).1⟩

end Netx.Stream
