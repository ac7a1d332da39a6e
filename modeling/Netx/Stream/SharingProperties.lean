import Netx.Buf.PoolContract
import Netx.Stream.Outcomes
import Netx.Stream.Sharing

/-!
# What readers that share a pool keep

Every reader is where its conduct allows it to be, and with all that the readers hold and
wait for the pool is sound. So no reader gives back what it does not hold.
-/

set_option autoImplicit false

namespace Netx.Stream

open Transition (tally tally_split tally_update)
open Buf (World)

variable {Id : Type}

/-- The buffers and the lengths they were asked for. -/
def claimed (held : Multiset (Buf.Held Id)) : Multiset (Buf.Held Id × Nat) :=
  held.map fun lent => (lent, lent.size)

/-- A call has come as far as `history` and is to go on with `program`. -/
structure Asked.Waits (max : Nat) (history : List (Event (Buf.Held Id))) (asked : Asked Id)
    (program : Remaining Id) : Prop where
  fit : asked.reader.Fit asked.history
  limit : asked.reader.max = max
  meets : program.Meets (conduct (Buf.Held Id) max (asked.request.wanted asked.reader))
    (fun result later =>
      Performs asked.history asked.reader asked.request result.1 result.2 later) history

/-- What goes back to the pool. -/
def Borrowed.returned (borrowed : Borrowed (Buf.Held Id)) : Buf.Buf :=
  borrowed.handle.buf.write borrowed.B

def Stage.Sound (owner : Id) (max : Nat) (history : List (Event (Buf.Held Id)))
    (held : Multiset (Buf.Held Id)) : Stage Id → Prop
  | .rest reader last => (reader.Fit history ∧ reader.max = max) ∧ Holds history (claimed held) ∧
      ∀ made ∈ last, made.1.Waits max history (.done (made.2, reader))
  | .reading asked reader next =>
      asked.Waits max history (.ask (.read reader) next) ∧ Holds history (claimed held)
  | .getting asked pending reader size next =>
      asked.Waits max history (.ask (.get reader size) next) ∧ Holds history (claimed held) ∧
        (pending = .reserve owner size none ∨ pending = .take owner size none)
  | .releasing asked pending borrowed next =>
      asked.Waits max history (.ask (.release borrowed) next) ∧
        Holds history (claimed (borrowed.handle ::ₘ held)) ∧
        (pending = .refund borrowed.handle.size borrowed.returned ∨
          pending = .put borrowed.returned)
  | .broken => False

def Reading.Sound (owner : Id) (max : Nat) (reading : Reading Id) : Prop :=
  reading.stage.Sound owner max reading.history reading.held

/-- The pool, with what a reader and everybody else hold of it and do with it. -/
def Reading.world (reading : Reading Id) (pool : Buf.Pool) (held : Multiset (Buf.Held Id))
    (busy : Multiset (Buf.Call Id)) (panicked : Bool) : World Id :=
  ⟨pool, reading.held + held, reading.stage.pending + busy, panicked⟩

section Steps

variable {owner : Id} {max : Nat} {history : List (Event (Buf.Held Id))}
  {held others : Multiset (Buf.Held Id)} {busy : Multiset (Buf.Call Id)} {pool : Buf.Pool}
  {panicked : Bool} {asked : Asked Id} {program : Remaining Id}

/-- What a reader gives back is what it holds. -/
theorem Asked.Waits.lent {borrowed : Borrowed (Buf.Held Id)} {next : Unit → Remaining Id}
    (waits : asked.Waits max history (.ask (.release borrowed) next))
    (holds : Holds history (claimed held)) :
    borrowed.handle ∈ held ∧ borrowed.B.length = borrowed.handle.size := by
  obtain ⟨owned, owns, _⟩ := waits.meets.1
  have member : borrowed.claim ∈ claimed held := by
    rw [holds.unique owns]
    exact Multiset.mem_cons_self _ _
  obtain ⟨lent, present, same⟩ := Multiset.mem_map.mp member
  obtain ⟨rfl, size⟩ := Prod.mk.inj same
  exact ⟨present, size.symm⟩

variable {reading : Reading Id} {reader : Reader (Buf.Held Id)}

theorem Asked.Waits.begin (fit : reader.Fit history) (limit : reader.max = max) (request : Call) :
    Asked.Waits max history ⟨reader, history, request⟩ (Stepwise.call reader request) :=
  ⟨fit, limit, limit ▸ Stepwise.meets_call fit request⟩

theorem Asked.Waits.answer {op : Op (Buf.Held Id)} {next : op.Answer → Remaining Id}
    (waits : asked.Waits max history (.ask op next)) (answer : op.Answer)
    (promised : Promised op answer) :
    asked.Waits max (history ++ [⟨op, answer⟩]) (next answer) :=
  ⟨waits.fit, waits.limit, waits.meets.2 answer promised⟩

variable [DecidableEq Id]

theorem Reading.proceed_sound (waits : asked.Waits max history program)
    (holds : Holds history (claimed held)) :
    (Reading.proceed owner asked held history program).Sound owner max := by
  cases program with
  | done result =>
      obtain ⟨reply, reader⟩ := result
      obtain ⟨fit, limit, _⟩ := (show Performs _ _ _ _ _ _ from waits.meets).fit waits.fit
      refine ⟨⟨fit, limit.trans waits.limit⟩, holds, ?_⟩
      rintro _ ⟨⟩
      exact waits
  | ask op next =>
      cases op with
      | read reader => exact ⟨waits, holds⟩
      | get reader size => exact ⟨waits, holds, .inl rfl⟩
      | release borrowed =>
          have member := (waits.lent holds).1
          simp only [proceed, if_pos member]
          refine ⟨waits, ?_, .inl rfl⟩
          dsimp only
          rw [Multiset.cons_erase member]
          exact holds
      | panic => exact waits.meets.1.elim

/-- A call that goes on asks the pool for a buffer or gives one back. -/
theorem Reading.proceed_world (waits : asked.Waits max history program)
    (holds : Holds history (claimed held))
    (sound : World.Sound ⟨pool, held + others, busy, panicked⟩) :
    ((Reading.proceed owner asked held history program).world pool others busy
      panicked).Sound := by
  have idle : World.Sound ⟨pool, held + others, 0 + busy, panicked⟩ := by
    rw [zero_add]
    exact sound
  cases program with
  | done result => exact idle
  | ask op next =>
      cases op with
      | read reader => exact idle
      | get reader size =>
          have begun : World.Sound ⟨pool, held + others, .reserve owner size none ::ₘ busy,
            panicked⟩ := World.sound_reserve_iff.mpr ⟨by simp, sound⟩
          rw [← Multiset.singleton_add] at begun
          exact begun
      | release borrowed =>
          have member := (waits.lent holds).1
          simp only [proceed, if_pos member, world, Stage.pending]
          rw [← Multiset.cons_erase member, Multiset.cons_add] at sound
          have fits := (sound.held _ (Multiset.mem_cons_self _ _)).write borrowed.B
          have written : World.Sound ⟨pool, { borrowed.handle with buf := borrowed.returned } ::ₘ
            (held.erase borrowed.handle + others), busy, panicked⟩ := sound.edit fits rfl rfl
          have released := written.release
          rw [← Multiset.singleton_add] at released
          exact released
      | panic => exact waits.meets.1.elim

theorem Reading.Sound.call {after : Reading Id} (sound : reading.Sound owner max) {request : Call}
    (called : reading.call owner request = some after)
    (world : (reading.world pool others busy panicked).Sound) :
    after.Sound owner max ∧ (after.world pool others busy panicked).Sound := by
  obtain ⟨stage, held, history⟩ := reading
  cases stage with
  | rest reader last =>
      obtain ⟨⟨fit, limit⟩, holds, _⟩ := sound
      have waits := Asked.Waits.begin fit limit request
      have before : World.Sound ⟨pool, held + others, 0 + busy, panicked⟩ := world
      rw [zero_add] at before
      cases called
      exact ⟨proceed_sound waits holds, proceed_world waits holds before⟩
  | _ => cases called

theorem Reading.Sound.source {after : Reading Id} (sound : reading.Sound owner max)
    {result : (size : Nat) → ReadResult size} (answered : reading.source owner result = some after)
    (world : (reading.world pool others busy panicked).Sound) :
    after.Sound owner max ∧ (after.world pool others busy panicked).Sound := by
  obtain ⟨stage, held, history⟩ := reading
  cases stage with
  | reading asked reader next =>
      obtain ⟨waits, holds⟩ := sound
      have next := waits.answer (result (reader.data.length - reader.w)) trivial
      have later := holds.read reader (result (reader.data.length - reader.w))
      have before : World.Sound ⟨pool, held + others, 0 + busy, panicked⟩ := world
      rw [zero_add] at before
      cases answered
      exact ⟨proceed_sound next later, proceed_world next later before⟩
  | _ => cases answered

/-- The budget is charged, or there is nothing left of it. -/
theorem Reading.Sound.reserve {held : Multiset (Buf.Held Id)} {size : Nat}
    {next : Option (Borrowed (Buf.Held Id)) → Remaining Id} (pick : Option Nat)
    (waits : asked.Waits max history (.ask (.get reader size) next))
    (holds : Holds history (claimed held))
    (world : World.Sound ⟨pool, held + others, .reserve owner size none ::ₘ busy, panicked⟩) :
    let advanced := pool.advance pick (.reserve owner size none)
    let stage : Stage Id := .getting asked (.reserve owner size none) reader size next
    let after := gets owner asked reader size next ⟨stage, held, history⟩ advanced.2
    after.Sound owner max ∧ (after.world advanced.1 others busy panicked).Sound := by
  obtain ⟨_, before⟩ := World.sound_reserve_iff.mp world
  cases charged : pool.charge size with
  | mk granted rest =>
      simp only [Buf.Pool.advance, charged]
      cases granted with
      | true =>
          have after : World.Sound ⟨(pool.charge size).2, held + others,
            .take owner size none ::ₘ busy, panicked⟩ :=
            before.charge (by simp) (congrArg Prod.fst charged)
          rw [charged, ← Multiset.singleton_add] at after
          exact ⟨⟨waits, holds, .inr rfl⟩, after⟩
      | false =>
          have same := Buf.Pool.charge_refused (congrArg Prod.fst charged)
          rw [charged] at same
          obtain rfl : rest = pool := same
          have refused : Promised (.get reader size) (none : Option (Borrowed (Buf.Held Id))) :=
            fun _ granted => by cases granted
          have later := holds.refused reader size
          exact ⟨proceed_sound (waits.answer none refused) later,
            proceed_world (waits.answer none refused) later before⟩

/-- A buffer has been taken from its class or allocated. -/
theorem Reading.Sound.take {held : Multiset (Buf.Held Id)} {size : Nat}
    {next : Option (Borrowed (Buf.Held Id)) → Remaining Id} (pick : Option Nat)
    (waits : asked.Waits max history (.ask (.get reader size) next))
    (holds : Holds history (claimed held))
    (world : World.Sound ⟨pool, held + others, .take owner size none ::ₘ busy, panicked⟩) :
    let advanced := pool.advance pick (.take owner size none)
    let stage : Stage Id := .getting asked (.take owner size none) reader size next
    let after := gets owner asked reader size next ⟨stage, held, history⟩ advanced.2
    after.Sound owner max ∧ (after.world advanced.1 others busy panicked).Sound := by
  cases fetched : pool.fetch size pick with
  | mk b rest =>
      simp only [Buf.Pool.advance, fetched]
      have taken := world.fetch fetched
      rw [← Multiset.cons_add] at taken
      have length : (b.grant owner size none).buf.B.length = size :=
        (Buf.Buf.length_B _).trans (Buf.Pool.fetch_fits fetched).slice_length
      let borrowed : Borrowed (Buf.Held Id) :=
        ⟨b.grant owner size none, (b.grant owner size none).buf.B⟩
      have granted : Promised (.get reader size) (some borrowed) := by
        rintro _ ⟨⟩
        exact length
      have later := holds.granted reader size borrowed
      have claim : borrowed.claim = (b.grant owner size none, size) :=
        congrArg (Prod.mk _) length
      rw [claim] at later
      have owned : Holds _ (claimed (b.grant owner size none ::ₘ held)) :=
        (Multiset.map_cons _ _ _).symm ▸ later
      exact ⟨proceed_sound (waits.answer (some borrowed) granted) owned,
        proceed_world (waits.answer (some borrowed) granted) owned taken⟩

theorem Reading.Sound.advance {after : Reading Id} {rest : Buf.Pool}
    (sound : reading.Sound owner max) {pick : Option Nat}
    (advanced : reading.pool owner pick pool = some (rest, after))
    (world : (reading.world pool others busy panicked).Sound) :
    after.Sound owner max ∧ (after.world rest others busy panicked).Sound := by
  obtain ⟨stage, held, history⟩ := reading
  cases stage with
  | getting asked pending reader size next =>
      obtain ⟨waits, holds, waiting⟩ := sound
      have before : World.Sound ⟨pool, held + others, pending ::ₘ busy, panicked⟩ := by
        rw [← Multiset.singleton_add]
        exact world
      cases advanced
      rcases waiting with rfl | rfl
      · exact Reading.Sound.reserve pick waits holds before
      · exact Reading.Sound.take pick waits holds before
  | releasing asked pending borrowed next =>
      obtain ⟨waits, holds, waiting⟩ := sound
      have before : World.Sound ⟨pool, held + others, pending ::ₘ busy, panicked⟩ := by
        rw [← Multiset.singleton_add]
        exact world
      rcases waiting with rfl | rfl
      · obtain ⟨calm, refunded⟩ := before.refund
        cases split : pool.refund borrowed.returned with
        | mk panics shared =>
            rw [split] at calm refunded
            obtain rfl : panics = false := calm
            rw [← Multiset.singleton_add] at refunded
            simp only [Reading.pool, Buf.Pool.advance, split, Option.some.injEq,
              Prod.mk.injEq] at advanced
            obtain ⟨rfl, rfl⟩ := advanced
            exact ⟨⟨waits, holds, .inr rfl⟩, refunded⟩
      · obtain ⟨_, size⟩ := waits.lent holds
        have answered := waits.answer () trivial
        have claim : borrowed.claim = (borrowed.handle, borrowed.handle.size) :=
          congrArg (Prod.mk _) size
        have owned : Holds history (borrowed.claim ::ₘ claimed held) := by
          rw [claim]
          exact (Multiset.map_cons _ _ _) ▸ holds
        have later := owned.released borrowed
        cases advanced
        exact ⟨proceed_sound answered later, proceed_world answered later before.keep⟩
  | _ => cases advanced

end Steps

section System

variable [Fintype Id]

/-- The pool with all that the readers and the others hold of it and do with it. -/
def Shared.total (shared : Shared Id) : World Id :=
  shared.others.beside (tally Finset.univ shared.readers Reading.held)
    (tally Finset.univ shared.readers fun reading => reading.stage.pending)

/-- `Max` of the options, or its default. -/
def ReaderOptions.limit (options : ReaderOptions) : Nat :=
  if options.max = 0 then Buf.large else options.max.toNat

structure Shared.Sound (options : Id → ReaderOptions) (shared : Shared Id) : Prop where
  readers : ∀ id, (shared.readers id).Sound id (options id).limit
  total : shared.total.Sound

variable [DecidableEq Id] {options : Id → ReaderOptions} {shared : Shared Id}

/-- All but one of the readers belong to the others. -/
theorem Shared.total_split (shared : Shared Id) (id : Id) :
    shared.total = (shared.readers id).world shared.others.pool
      (tally (Finset.univ.erase id) shared.readers Reading.held + shared.others.held)
      (tally (Finset.univ.erase id) shared.readers (fun reading => reading.stage.pending) +
        shared.others.busy) shared.others.panicked := by
  simp only [total, World.beside, Reading.world, tally_split _ (Finset.mem_univ id), add_assoc]

theorem Shared.total_set (shared : Shared Id) (id : Id) (reading : Reading Id)
    (pool : Buf.Pool) :
    Shared.total { shared.set id reading with others := { shared.others with pool } } =
      reading.world pool
        (tally (Finset.univ.erase id) shared.readers Reading.held + shared.others.held)
        (tally (Finset.univ.erase id) shared.readers (fun reading => reading.stage.pending) +
          shared.others.busy) shared.others.panicked := by
  simp only [total, World.beside, Reading.world, set, tally_update _ _ (Finset.mem_univ id),
    add_assoc]

/-- One reader has taken a step. -/
theorem Shared.Sound.set (sound : shared.Sound options) {id : Id} {reading : Reading Id}
    {pool : Buf.Pool} (kept : ∀ {others : Multiset (Buf.Held Id)} {busy : Multiset (Buf.Call Id)}
      {panicked : Bool},
      ((shared.readers id).world shared.others.pool others busy panicked).Sound →
      reading.Sound id (options id).limit ∧ (reading.world pool others busy panicked).Sound) :
    Shared.Sound options
      { shared.set id reading with others := { shared.others with pool } } := by
  have before := sound.total
  rw [shared.total_split id] at before
  obtain ⟨own, world⟩ := kept before
  refine ⟨fun other => ?_, ?_⟩
  · by_cases same : other = id
    · subst same
      show Reading.Sound _ _ (Function.update shared.readers other reading other)
      rw [Function.update_self]
      exact own
    · show Reading.Sound _ _ (Function.update shared.readers id reading other)
      rw [Function.update_of_ne same]
      exact sound.readers other
  · rw [shared.total_set]
    exact world

theorem Shared.Sound.step (sound : shared.Sound options) {move : Move Id} {after : Shared Id}
    (stepped : shared.step move = some after) : after.Sound options := by
  cases move with
  | call id request =>
      obtain ⟨reading, called, rfl⟩ := Option.map_eq_some_iff.mp stepped
      have kept : Shared.Sound options { shared.set id reading with
        others := { shared.others with pool := shared.others.pool } } :=
        sound.set fun world => (sound.readers id).call called world
      exact kept
  | source id result =>
      obtain ⟨reading, answered, rfl⟩ := Option.map_eq_some_iff.mp stepped
      have kept : Shared.Sound options { shared.set id reading with
        others := { shared.others with pool := shared.others.pool } } :=
        sound.set fun world => (sound.readers id).source answered world
      exact kept
  | pool id pick =>
      obtain ⟨⟨pool, reading⟩, advanced, rfl⟩ := Option.map_eq_some_iff.mp stepped
      exact sound.set fun world => (sound.readers id).advance advanced world
  | other action =>
      obtain ⟨others, acted, rfl⟩ := Option.map_eq_some_iff.mp stepped
      exact ⟨sound.readers, sound.total.step (World.step_beside acted _ _)⟩

theorem Shared.Sound.initial (created : (sharing options).initial shared) :
    shared.Sound options := by
  obtain ⟨⟨budget, made, start⟩, readers⟩ := created
  refine ⟨fun id => ?_, ?_⟩
  · obtain ⟨reader, accepted, same⟩ := readers id
    rw [same]
    refine ⟨⟨Reader.newReader_fit accepted, ?_⟩, .start, by simp⟩
    simp only [Reader.newReader, Option.ite_none_left_eq_some, Option.some.injEq] at accepted
    obtain ⟨_, rfl⟩ := accepted
    simp only [ReaderOptions.limit]
    split <;> rfl
  · have none : ∀ id ∈ Finset.univ, (shared.readers id).held = 0 ∧
        (shared.readers id).stage.pending = 0 := by
      intro id _
      obtain ⟨reader, _, same⟩ := readers id
      rw [same]
      exact ⟨rfl, rfl⟩
    have held : tally Finset.univ shared.readers Reading.held = 0 :=
      Finset.sum_eq_zero fun id member => (none id member).1
    have busy : tally Finset.univ shared.readers (fun reading => reading.stage.pending) = 0 :=
      Finset.sum_eq_zero fun id member => (none id member).2
    have alone : shared.total = shared.others := by
      simp only [Shared.total, World.beside, held, busy, zero_add]
    rw [alone, start]
    exact .start made

theorem Shared.Sound.reached (reached : (sharing options).Reachable shared) :
    shared.Sound options :=
  reached.invariant (Shared.Sound options) (fun _ created => .initial created)
    fun _ _ _ _ sound stepped => sound.step stepped

end System

end Netx.Stream
