import Netx.Stream.Growth
import Netx.Stream.SharingProperties
import Netx.Stream.SourceContract

/-!
# What readers promise about the buffers they borrow

A reader holds one buffer of the pool at most, two while it grows, gives back each one once
and is charged for what it holds. It is back on its idle buffer after a light read, unless a
`Read` ends without consuming anything.
-/

set_option autoImplicit false

namespace Netx.Stream

open Transition (tally)

section Shedding

variable {Handle : Type} {history later : List (Event Handle)} {reader next : Reader Handle}
  {request : Call} {reply : Reply}

/-- The most recent source read that returned data or an error. -/
def latest (calls : List SourceRead) : Option SourceRead :=
  (calls.filter fun call => ¬call.Empty).getLast?

/-- It returned no more than fits the idle buffer. -/
def Reader.Light (calls : List SourceRead) (reader : Reader Handle) : Prop :=
  ∃ call, latest calls = some call ∧ call.n ≤ reader.idle.length

/-- The calls after which a reader may be back on its idle buffer. -/
def Call.consumes : Call → Bool
  | .discard n => 0 < n
  | .read _ => true
  | _ => false

/-- A call that has made the source reads `made` gives back a borrowed buffer once it is
empty: it consumes what was buffered after a light read, or what the source has delivered. -/
def Call.sheds (reader : Reader Handle) (made : List SourceRead) : Call → Prop
  | .discard _ => reader.last ≤ reader.idle.length
  | .read size => 0 < size ∧ (0 < reader.len ∧ reader.last ≤ reader.idle.length ∨
      reader.len = 0 ∧ ∃ call ∈ made, call.delivered ≠ [])
  | _ => False

variable {call : SourceRead}

private theorem latest_append {calls : List SourceRead} (some : ¬call.Empty) :
    latest (calls ++ [call]) = .some call := by
  have kept : [call].filter (fun call => ¬call.Empty) = [call] :=
    List.filter_eq_self.mpr fun other member => by
      rw [List.mem_singleton.mp member]
      exact decide_eq_true some
  rw [latest, List.filter_append, kept, List.getLast?_concat]

theorem Reader.claims_eq_zero_iff : reader.claims = 0 ↔ reader.big = none := by
  cases big : reader.big with
  | none => simp [claims_of_none big]
  | some borrowed => simp [claims_of_some big]

private theorem bytes_length (member : call ∈ reads history) : call.bytes.length = call.size := by
  obtain ⟨⟨op, answer⟩, _, here⟩ := List.mem_filterMap.mp member
  cases op with
  | read reader =>
      cases here
      exact Vector.length_toList
  | get _ _ | release _ | panic => cases here

theorem SourceRead.delivered_of_zero (none : call.n = 0) : call.delivered = [] := by
  simp [delivered, none]

theorem SourceRead.Invalid.delivered (invalid : call.Invalid) : call.delivered = [] := by
  rw [SourceRead.delivered, if_neg]
  rcases invalid with negative | above <;> omega

variable (history) in
/-- The answer is the last of the reads, and only it can deliver bytes. -/
theorem Answered.latest {attempts : Nat} {made : List (Event Handle)} {bytes : List UInt8}
    (answered : Answered attempts reader made bytes call) :
    Stream.latest (reads (history ++ made)) = .some call ∧ call ∈ reads made ∧
      (call.delivered = [] → ∀ other ∈ reads made, other.delivered = []) := by
  obtain ⟨empties, split, _, empty⟩ := answered.split
  rw [reads_append, split, ← List.append_assoc]
  refine ⟨latest_append answered.some, List.mem_append_right _ (List.mem_singleton_self _), ?_⟩
  intro barren
  rw [List.forall_mem_append]
  exact ⟨fun other member => SourceRead.delivered_of_zero (empty other member).1,
    List.forall_mem_singleton.mpr barren⟩

/-- A read that fails has delivered nothing. Any other ends with the read that it counts. -/
theorem ReadsOnce.harvest {failed : Option Error}
    (once : ReadsOnce history reader failed next later) :
    ∃ made, reads later = reads history ++ made ∧
      (failed ≠ none → ∀ call ∈ made, call.delivered = []) ∧
      (failed = none → (∃ call ∈ made, call.delivered ≠ []) ∧
        ∃ call, latest (reads later) = some call ∧ call.n = next.last) := by
  cases once with
  | sticky sticky => exact ⟨[], (List.append_nil _).symm, by simp, by simp⟩
  | @stalled made bytes clean stalled =>
      refine ⟨reads made, reads_append _ _, fun _ call member => ?_, by simp⟩
      exact SourceRead.delivered_of_zero (stalled.empty call member).1
  | @invalid made bytes call clean answered invalid =>
      obtain ⟨_, _, barren⟩ := answered.latest history
      exact ⟨reads made, reads_append _ _, fun _ => barren invalid.delivered, by simp⟩
  | @counted made bytes call n clean answered count fits =>
      obtain ⟨newest, member, barren⟩ := answered.latest history
      refine ⟨reads made, reads_append _ _, ?_, ?_⟩
      · intro failed
        have zero : n = 0 := by
          by_contra some
          rw [if_neg some] at failed
          exact failed rfl
        exact barren (SourceRead.delivered_of_zero (by rw [count, zero]; rfl))
      · intro clean
        have some : n ≠ 0 := by
          rintro rfl
          exact answered.some ⟨count, clean⟩
        refine ⟨⟨call, member, ?_⟩, call, newest, count⟩
        have size := bytes_length member
        have valid : 0 ≤ call.n ∧ call.n ≤ call.size := by omega
        rw [SourceRead.delivered, if_pos valid, count, Int.toNat_natCast]
        intro nothing
        have length := congrArg List.length nothing
        rw [List.length_take, List.length_nil] at length
        omega

theorem Discards.sheds_iff {k : Nat} (discards : Discards k history reader next later)
    (fit : reader.Fit history) (least : k ≤ reader.len) (empty : next.len = 0) :
    next.big = none ↔ reader.big = none ∨ reader.last ≤ reader.idle.length := by
  have ordered := fit.shaped.ordered
  cases discards with
  | some left =>
      simp only [Reader.len] at empty least
      omega
  | all _ keeps =>
      refine ⟨fun none => .inl none, ?_⟩
      rintro (none | light)
      · exact none
      · exact keeps.resolve_right (by omega)
  | shrinks _ big light => exact ⟨fun _ => .inr light, fun _ => rfl⟩

/-- When a call that leaves a reader empty after a light read leaves it on its idle buffer. -/
theorem Performs.sheds_iff (performs : Performs history reader request reply next later)
    (fit : reader.Fit history) (consumes : request.consumes) (empty : next.len = 0)
    (light : next.Light (reads later)) :
    next.big = none ↔ reader.big = none ∨
      request.sheds reader ((reads later).drop (reads history).length) := by
  cases performs with
  | readReleased size released =>
      have none := Reader.claims_eq_zero_iff.mp (fit.shaped.released released)
      exact ⟨fun _ => .inl none, fun _ => none⟩
  | readNothing active => simp [Call.sheds]
  | readFailed active asked before failed =>
      obtain ⟨made, split, barren, _⟩ := failed.harvest
      have nothing : ¬∃ call ∈ made, call.delivered ≠ [] := by
        rintro ⟨call, member, delivered⟩
        exact delivered (barren (by simp) call member)
      rw [split, List.drop_left, Call.sheds]
      simp only [before, nothing, and_false, or_false, lt_irrefl, false_and]
      rw [← Reader.claims_eq_zero_iff, ← Reader.claims_eq_zero_iff, (failed.frame active).2.2.2]
  | @readSource size filled next middle later active asked before read delivers =>
      obtain ⟨made, split, _, harvest⟩ := read.harvest
      obtain ⟨gains, call, newest, count⟩ := harvest rfl
      obtain ⟨_, seen, bound⟩ := light
      rw [delivers.reads] at seen ⊢
      obtain rfl : call = _ := Option.some.inj (newest.symm.trans seen)
      have filledFit := read.fit fit active (fit.shaped.room active before)
      have idle := (delivers.fit (Nat.min_le_right _ _) filledFit).2.idle
      have fewer : filled.last ≤ filled.idle.length := by omega
      have back := (delivers.sheds_iff filledFit (Nat.min_le_right _ _) empty).mpr (.inr fewer)
      rw [split, List.drop_left]
      exact ⟨fun _ => .inr ⟨asked, .inr ⟨before, gains⟩⟩, fun _ => back⟩
  | readBuffered active asked some delivers =>
      rw [delivers.sheds_iff fit (Nat.min_le_right _ _) empty]
      simp [Call.sheds, asked, some, Nat.ne_of_gt some]
  | discardNothing none => simp [Call.consumes, Int.not_lt.mpr none] at consumes
  | discard some discards => exact discards.sheds_iff fit (Nat.min_le_right _ _) empty
  | _ => cases consumes

end Shedding

section Released

variable {Handle : Type} {history later : List (Event Handle)} {reader next : Reader Handle}
  {request : Call} {reply : Reply}

/-- A released reader answers every call at once and stays as it is. -/
theorem Stepwise.call_released (released : reader.done = true) (shaped : reader.Shaped)
    (request : Call) : ∃ reply, Stepwise.call reader request = .done (reply, reader) := by
  have idle := Reader.claims_eq_zero_iff.mp (shaped.released released)
  obtain ⟨front, back⟩ : reader.r = 0 ∧ reader.w = 0 := by
    have ordered := shaped.ordered
    have bounded := shaped.bounded
    rw [Reader.data, if_pos released, List.length_nil] at bounded
    omega
  obtain ⟨idleBytes, big, r, w, last, err, max, done⟩ := reader
  cases released
  cases idle
  cases front
  cases back
  cases request with
  | peek n => exact ⟨_, rfl⟩
  | fill => exact ⟨_, rfl⟩
  | read size => exact ⟨_, rfl⟩
  | discard n =>
      refine ⟨.count 0, ?_⟩
      by_cases none : n ≤ 0 <;> simp [Stepwise.call, Stepwise.discard, none, Reader.len] <;> rfl
  | buffered => exact ⟨_, rfl⟩
  | release => exact ⟨_, rfl⟩

theorem Performs.of_released (performs : Performs history reader request reply next later)
    (released : reader.done = true)
    (kind : request.buffers ∨ ∃ size, request = .read size) : reply.err = some .released := by
  cases performs with
  | peekReleased _ _ | fillReleased _ | readReleased _ _ => rfl
  | peekNegative active _ | peekTooLarge active _ | peek active _ _ _ | fillRefused active _
  | fill active _ _ | readNothing active | readFailed active _ _ _ | readSource active _ _ _ _
  | readBuffered active _ _ _ =>
      rw [released] at active
      cases active
  | _ => simp [Call.buffers] at kind

end Released

section Borrowing

variable {Id : Type} {max : Nat} {history : List (Event (Buf.Held Id))}
  {held : Multiset (Buf.Held Id)} {reader : Reader (Buf.Held Id)}

theorem Call.wanted_eq_zero {Handle : Type} {reader : Reader Handle} (request : Call)
    (other : request.buffers = false) : request.wanted reader = 0 := by
  cases request with
  | peek _ | fill => cases other
  | _ => rfl

/-- What the buffer that a reader works in costs the budget. -/
def Reader.cost (reader : Reader (Buf.Held Id)) : Nat :=
  reader.big.elim 0 fun borrowed => Buf.capacity borrowed.B.length

/-- A reader holds the buffer it works in, unless that is its own, and no other. -/
structure Reading.Borrows (max : Nat) (reader : Reader (Buf.Held Id)) (reading : Reading Id) :
    Prop where
  single : reading.held.card ≤ 1
  length : reader.data.length ≤ max
  charge : reading.charge = reader.cost + (reading.stage.pending.map Buf.Call.charge).sum

theorem Reader.card_claims (reader : Reader (Buf.Held Id)) : reader.claims.card ≤ 1 := by
  cases big : reader.big with
  | none => simp [claims_of_none big]
  | some borrowed => simp [claims_of_some big]

theorem Reader.cost_eq (reader : Reader (Buf.Held Id)) :
    reader.cost = (reader.claims.map fun claim => Buf.capacity claim.2).sum := by
  cases big : reader.big with
  | none => simp [claims_of_none big, cost, big]
  | some borrowed => simp [claims_of_some big, cost, big, Borrowed.claim]

theorem Reader.Fit.borrows {stage : Stage Id} (fit : reader.Fit history)
    (limit : reader.max = max) (holds : Holds history (claimed held)) :
    Reading.Borrows max reader ⟨stage, held, history⟩ := by
  have same := holds.unique fit.holds
  refine ⟨?_, ?_, ?_⟩
  · have few := reader.card_claims
    rw [← same, claimed, Multiset.card_map] at few
    exact few
  · rw [← limit]
    exact fit.shaped.length_le
  · rw [reader.cost_eq, ← same, claimed, Multiset.map_map]
    rfl

/-- While a buffer goes back, another one is held only by a call that grows. -/
theorem Asked.Waits.returning {asked : Asked Id} {borrowed : Borrowed (Buf.Held Id)}
    {next : Unit → Remaining Id}
    (waits : asked.Waits max history (.ask (.release borrowed) next))
    (holds : Holds history (claimed (borrowed.handle ::ₘ held))) :
    held.card ≤ 1 ∧ (asked.request.buffers = false → held = 0) := by
  obtain ⟨owned, owns, few⟩ := waits.meets.1
  have same := congrArg Multiset.card (holds.unique owns)
  rw [claimed, Multiset.card_map, Multiset.card_cons, Multiset.card_cons] at same
  refine ⟨by omega, fun other => ?_⟩
  rw [asked.request.wanted_eq_zero other] at few
  exact Multiset.card_eq_zero.mp (by omega)

/-- A reader on its idle buffer costs nothing, and no other does. -/
theorem Reader.cost_eq_zero_iff (reader : Reader (Buf.Held Id)) :
    reader.cost = 0 ↔ reader.big = none := by
  cases big : reader.big with
  | none => simp [cost, big]
  | some borrowed =>
      have least := Buf.capacity_pos borrowed.B.length
      simp only [cost, big, Option.elim_some, reduceCtorEq, iff_false]
      omega

end Borrowing

section Contract

variable {Id : Type} {options : Id → ReaderOptions} {shared : Shared Id}

/-- A released reader between two calls. -/
def Shared.Gone (id : Id) (reader : Reader (Buf.Held Id)) (shared : Shared Id) : Prop :=
  reader.done = true ∧ (shared.readers id).held = 0 ∧
    ∃ last, (shared.readers id).stage = .rest reader last

variable {reader : Reader (Buf.Held Id)} {id : Id}

theorem Shared.Gone.charge (gone : shared.Gone id reader) : (shared.readers id).charge = 0 := by
  obtain ⟨_, none, last, stage⟩ := gone
  simp [Reading.charge, none, stage, Stage.pending]

theorem Shared.set_self [DecidableEq Id] (shared : Shared Id) (id : Id) (reading : Reading Id) :
    (shared.set id reading).readers id = reading :=
  Function.update_self _ _ _

theorem Shared.Gone.set [DecidableEq Id] {other : Id} {reading : Reading Id}
    (gone : shared.Gone id reader) (apart : other ≠ id) :
    (shared.set other reading).Gone id reader := by
  have same : (shared.set other reading).readers id = shared.readers id :=
    Function.update_of_ne apart.symm _ _
  unfold Gone
  rw [same]
  exact gone

variable [Fintype Id]

/-- The readers' charges and those of the others are all of it. -/
theorem Shared.charged_total (shared : Shared Id) :
    shared.total.charged =
      tally Finset.univ shared.readers Reading.charge + shared.others.charged := by
  have charges : tally Finset.univ shared.readers Reading.charge =
      tally Finset.univ shared.readers
        (fun reading => (reading.held.map fun lent => Buf.capacity lent.size).sum) +
      tally Finset.univ shared.readers
        (fun reading => (reading.stage.pending.map Buf.Call.charge).sum) :=
    Finset.sum_add_distrib
  simp only [total, Buf.World.beside, Buf.World.charged, Multiset.map_add, Multiset.sum_add,
    Transition.sum_map_tally, charges]
  omega

/-- A call that has returned has done what it is to do. -/
theorem Shared.Sound.performed (sound : shared.Sound options) {asked : Asked Id} {reply : Reply}
    (stage : (shared.readers id).stage = .rest reader (some (asked, reply))) :
    asked.reader.Fit asked.history ∧ Performs asked.history asked.reader asked.request reply
      reader (shared.readers id).history := by
  have own := sound.readers id
  rw [Reading.Sound, stage] at own
  have waits := own.2.2 _ rfl
  exact ⟨waits.fit, waits.meets⟩

theorem Shared.Sound.rest (sound : shared.Sound options) {last : Option (Asked Id × Reply)}
    (stage : (shared.readers id).stage = .rest reader last) :
    (shared.readers id).Borrows (options id).limit reader ∧
      (shared.readers id).charge = reader.cost := by
  have own := sound.readers id
  rw [Reading.Sound, stage] at own
  have borrows : (shared.readers id).Borrows _ reader := own.1.1.borrows own.1.2 own.2.1
  refine ⟨borrows, ?_⟩
  rw [borrows.charge, stage]
  rfl

theorem Shared.Sound.gone (sound : shared.Sound options) {last : Option (Asked Id × Reply)}
    (stage : (shared.readers id).stage = .rest reader last) (released : reader.done = true) :
    shared.Gone id reader := by
  have own := sound.readers id
  rw [Reading.Sound, stage] at own
  have none := own.2.1.unique own.1.1.holds
  rw [own.1.1.shaped.released released, claimed, Multiset.map_eq_zero] at none
  exact ⟨released, none, last, stage⟩

variable [DecidableEq Id]

/-- What readers with the given options promise about the pool they share. -/
structure BorrowContract (options : Id → ReaderOptions) (shared : Shared Id) : Prop where
  unbroken : ∀ id, (shared.readers id).stage ≠ .broken
  exclusive : shared.total.Exclusive
  used : ∀ budget, shared.others.pool.budget = some budget →
    budget.used = (tally Finset.univ shared.readers Reading.charge + shared.others.charged : Nat)
  rest : ∀ id reader last, (shared.readers id).stage = .rest reader last →
    (shared.readers id).Borrows (options id).limit reader ∧
      (shared.readers id).charge = reader.cost
  reading : ∀ id asked reader next, (shared.readers id).stage = .reading asked reader next →
    (shared.readers id).Borrows (options id).limit reader ∧
      (shared.readers id).charge = reader.cost
  growing : ∀ id asked pending reader size next,
    (shared.readers id).stage = .getting asked pending reader size next →
    (shared.readers id).Borrows (options id).limit reader ∧ asked.request.buffers ∧
      size ≤ (options id).limit
  returning : ∀ id asked pending borrowed next,
    (shared.readers id).stage = .releasing asked pending borrowed next →
    (shared.readers id).held.card ≤ 1 ∧
      (asked.request.buffers = false → (shared.readers id).held = 0)
  shrinks : ∀ id reader asked reply,
    (shared.readers id).stage = .rest reader (some (asked, reply)) →
    asked.request.consumes → reader.len = 0 →
    reader.Light (reads (shared.readers id).history) →
    (reader.big = none ∧ (shared.readers id).charge = 0 ↔
      asked.reader.big = none ∨ asked.request.sheds asked.reader
        ((reads (shared.readers id).history).drop (reads asked.history).length))
  release : ∀ id reader asked reply,
    (shared.readers id).stage = .rest reader (some (asked, reply)) →
    asked.request = .release → reader.done = true
  released : ∀ id reader last, (shared.readers id).stage = .rest reader last →
    reader.done = true → (shared.readers id).charge = 0 ∧
      ∀ moves later, (sharing options).exec shared moves = some later →
        ∃ last, (later.readers id).stage = .rest reader last ∧ (later.readers id).charge = 0
  answers : ∀ id reader asked reply,
    (shared.readers id).stage = .rest reader (some (asked, reply)) → asked.reader.done = true →
    asked.request.buffers ∨ (∃ size, asked.request = .read size) → reply.err = some .released

theorem Shared.Gone.step {move : Move Id} {after : Shared Id} (gone : shared.Gone id reader)
    (sound : shared.Sound options) (stepped : shared.step move = some after) :
    after.Gone id reader := by
  obtain ⟨released, none, last, stage⟩ := gone
  cases move with
  | call other request =>
      obtain ⟨reading, called, rfl⟩ := Option.map_eq_some_iff.mp stepped
      by_cases same : other = id
      · subst same
        have own := sound.readers other
        rw [Reading.Sound, stage] at own
        obtain ⟨reply, program⟩ := Stepwise.call_released released own.1.1.shaped request
        simp only [Reading.call, stage, program, Reading.proceed, Option.some.injEq] at called
        subst called
        have own := shared.set_self other
        exact ⟨released, (congrArg Reading.held (own _)).trans none, _,
          congrArg Reading.stage (own _)⟩
      · exact Gone.set ⟨released, none, last, stage⟩ same
  | source other result =>
      obtain ⟨reading, answered, rfl⟩ := Option.map_eq_some_iff.mp stepped
      by_cases same : other = id
      · subst same
        simp [Reading.source, stage] at answered
      · exact Gone.set ⟨released, none, last, stage⟩ same
  | pool other pick =>
      obtain ⟨⟨pool, reading⟩, advanced, rfl⟩ := Option.map_eq_some_iff.mp stepped
      by_cases same : other = id
      · subst same
        simp [Reading.pool, stage] at advanced
      · exact Gone.set ⟨released, none, last, stage⟩ same
  | other action =>
      obtain ⟨others, acted, rfl⟩ := Option.map_eq_some_iff.mp stepped
      exact ⟨released, none, last, stage⟩

theorem Shared.Sound.contract (sound : shared.Sound options) :
    BorrowContract options shared where
  unbroken id broken := by
    have own := sound.readers id
    rw [Reading.Sound, broken] at own
    exact own
  exclusive := sound.total.exclusive
  used budget present := by
    rw [sound.total.used budget present, shared.charged_total]
  rest id reader last := sound.rest
  reading id asked reader next stage := by
    have own := sound.readers id
    rw [Reading.Sound, stage] at own
    obtain ⟨⟨fit, limit⟩, _⟩ := own.1.meets.1
    have borrows : (shared.readers id).Borrows _ reader := fit.borrows limit own.2
    refine ⟨borrows, ?_⟩
    rw [borrows.charge, stage]
    rfl
  growing id asked pending reader size next stage := by
    have own := sound.readers id
    rw [Reading.Sound, stage] at own
    obtain ⟨⟨fit, limit⟩, _, above, _, least⟩ := own.1.meets.1
    refine ⟨fit.borrows limit own.2.1, ?_, least ▸ Nat.min_le_right _ _⟩
    by_contra other
    rw [asked.request.wanted_eq_zero (Bool.eq_false_iff.mpr other)] at above
    exact Nat.not_lt_zero _ above
  returning id asked pending borrowed next stage := by
    have own := sound.readers id
    rw [Reading.Sound, stage] at own
    exact own.1.returning own.2.1
  shrinks id reader asked reply stage consumes empty light := by
    obtain ⟨fit, performs⟩ := sound.performed stage
    rw [(sound.rest stage).2, reader.cost_eq_zero_iff, and_self,
      performs.sheds_iff fit consumes empty light]
  release id reader asked reply stage request := by
    obtain ⟨fit, performs⟩ := sound.performed stage
    exact (performs.done fit).mpr (.inr request)
  released id reader last stage released := by
    have gone := sound.gone stage released
    refine ⟨gone.charge, fun moves later executed => ?_⟩
    have kept := Transition.System.exec_keeps
      (fun shared => shared.Sound options ∧ shared.Gone id reader)
      (fun _ _ _ held stepped => ⟨held.1.step stepped, held.2.step held.1 stepped⟩)
      ⟨sound, gone⟩ executed
    obtain ⟨_, _, last, stage⟩ := kept.2
    exact ⟨last, stage, kept.2.charge⟩
  answers id reader asked reply stage released kind := by
    exact (sound.performed stage).2.of_released released kind

/-- Any readers over any pool, and whatever their sources and the other owners do. -/
theorem readers_borrow_exactly (options : Id → ReaderOptions) {shared : Shared Id}
    (reached : (sharing options).Reachable shared) : BorrowContract options shared :=
  (Shared.Sound.reached reached).contract

end Contract

section Runs

variable {Id : Type}

/-- An idle buffer of two bytes and eight at most. -/
def tinyReader (Id : Type) : Reader (Buf.Held Id) where
  idle := [0, 0]
  big := none
  r := 0
  w := 0
  last := 0
  err := none
  max := 8
  done := false

/-- Readers over a new pool with a budget of 64 bytes. -/
def tinyShared (Id : Type) : Shared Id where
  others := .start (some ⟨64, 0⟩)
  readers _ := ⟨.rest (tinyReader Id) none, 0, []⟩

private theorem tinyShared_initial [DecidableEq Id] :
    (sharing fun _ : Id => ⟨2, 8⟩).initial (tinyShared Id) := by
  refine ⟨⟨some ⟨64, 0⟩, ?_, rfl⟩, fun _ => ⟨tinyReader Id, rfl, rfl⟩⟩
  rintro _ ⟨⟩
  rfl

/-- A source read that returns `n` bytes and `err`. -/
def returning (n : Int) (err : Option Error) (size : Nat) : ReadResult size :=
  ⟨Vector.replicate size 7, n, err⟩

/-- The last call, its reply and what the budget is charged. -/
def Reading.outcome (reading : Reading Id) : Option (Call × Reply × Nat) :=
  match reading.stage with
  | .rest _ (some (asked, reply)) => some (asked.request, reply, reading.charge)
  | _ => none

/-- The first reader borrows a buffer, for which the second one is refused its own, and
gives it back. -/
theorem readers_borrow_exactly_shrunk :
    ∃ shared : Shared (Fin 2), (sharing fun _ => ⟨2, 8⟩).exec (tinyShared (Fin 2)) [
        .call 0 (.peek 3), .pool 0 none, .call 1 (.peek 3), .pool 1 none, .pool 0 none,
        .source 0 (returning 2 none), .source 0 (returning 1 none), .call 0 (.discard 3),
        .pool 0 none, .pool 0 none] = some shared ∧
      ((shared.readers 0).outcome = some (.discard 3, .count 3, 0) ∧
        (shared.readers 1).outcome = some (.peek 3, .bytes [] (some .noBuffer), 0)) ∧
      BorrowContract (fun _ => ⟨2, 8⟩) shared := by
  have checked : ((sharing fun _ => ⟨2, 8⟩).exec (tinyShared (Fin 2)) [
      .call 0 (.peek 3), .pool 0 none, .call 1 (.peek 3), .pool 1 none, .pool 0 none,
      .source 0 (returning 2 none), .source 0 (returning 1 none), .call 0 (.discard 3),
      .pool 0 none, .pool 0 none]).any (fun shared => decide (
        (shared.readers 0).outcome = some (.discard 3, .count 3, 0) ∧
          (shared.readers 1).outcome = some (.peek 3, .bytes [] (some .noBuffer), 0))) =
      true := by
    decide +kernel
  obtain ⟨shared, executed, facts⟩ := Transition.System.exec_of_check _ checked
  exact ⟨shared, executed, of_decide_eq_true facts,
    readers_borrow_exactly _ (.exec (.initial tinyShared_initial) executed)⟩

/-- A reader that `Read` leaves empty after a light read, on a borrowed buffer. -/
def Reading.lingers (reading : Reading Id) : Bool :=
  match reading.stage with
  | .rest reader (some (asked, _)) =>
      asked.request = .read 1 ∧ reader.len = 0 ∧ reader.big.isSome ∧ reading.charge = 64 ∧
        (latest (reads reading.history)).any fun call => call.n ≤ (reader.idle.length : Int)
  | _ => false

/-- `Peek` borrows a buffer, the source has failed, and `Read` returns its error. -/
theorem read_leaves_borrowed_buffer :
    ∃ shared : Shared Unit, (sharing fun _ => ⟨2, 8⟩).Reachable shared ∧
      ∃ reader asked reply, (shared.readers ()).stage = .rest reader (some (asked, reply)) ∧
        asked.request = .read 1 ∧ reader.len = 0 ∧
        reader.Light (reads (shared.readers ()).history) ∧
        ¬(reader.big = none ∧ (shared.readers ()).charge = 0) := by
  have checked : ((sharing fun _ => ⟨2, 8⟩).exec (tinyShared Unit) [
      .call () (.peek 3), .pool () none, .pool () none,
      .source () (returning 0 (some (.source 0))), .call () (.read 1)]).any
        (fun shared => (shared.readers ()).lingers) = true := by
    decide +kernel
  obtain ⟨shared, executed, lingers⟩ := Transition.System.exec_of_check _ checked
  refine ⟨shared, .exec (.initial tinyShared_initial) executed, ?_⟩
  unfold Reading.lingers at lingers
  split at lingers
  · rename_i reader asked reply stage
    obtain ⟨request, empty, big, charge, light⟩ := of_decide_eq_true lingers
    obtain ⟨call, newest, few⟩ := (Option.any_eq_true _ _).mp light
    refine ⟨reader, asked, reply, stage, request, empty,
      ⟨call, newest, of_decide_eq_true few⟩, ?_⟩
    rintro ⟨idle, _⟩
    rw [idle] at big
    cases big
  · cases lingers

end Runs

end Netx.Stream
