import Netx.Stream.Performs

/-!
# How a reader behaves towards its source and its pool

Whatever the answers, a fit reader asks the source only for bytes behind those it has
buffered, asks the pool only for a buffer that it needs, and gives back only what it holds.
No slice expression is out of range, and each call does one of the things it is to do.
-/

set_option autoImplicit false

namespace Netx.Stream

open Interaction (Program Protocol)

variable {Handle : Type}

/-- What a call of a reader with the given `Max` may ask for that wants `wanted` bytes
buffered. Only such a call holds a second buffer, while it gives back the first. -/
def Permitted (max wanted : Nat) (history : List (Event Handle)) : Op Handle → Prop
  | .read reader => (reader.Fit history ∧ reader.max = max) ∧ reader.done = false ∧
      reader.err = none ∧ reader.w < reader.data.length
  | .get reader size => (reader.Fit history ∧ reader.max = max) ∧ reader.done = false ∧
      reader.data.length < wanted ∧ wanted ≤ max ∧ size = min (Buf.capacity wanted) max
  | .release borrowed => ∃ owned, Holds history (borrowed.claim ::ₘ owned) ∧
      owned.card ≤ min wanted 1
  | .panic => False

/-- A buffer of the pool has the length asked for. -/
def Promised : (op : Op Handle) → op.Answer → Prop
  | .get _ size, answer => ∀ borrowed : Borrowed Handle, answer = some borrowed →
      borrowed.B.length = size
  | _, _ => True

def conduct (Handle : Type) (max wanted : Nat) : Protocol (Op Handle) Op.Answer where
  allows := Permitted max wanted
  promises := Promised

/-- How many bytes a call wants to have buffered. -/
def Call.wanted (reader : Reader Handle) : Call → Nat
  | .peek n => n.toNat
  | .fill => reader.len + 1
  | _ => 0

/-- Outside `grow` the buffer in `big` is all that a reader holds. -/
theorem Reader.Fit.owns {wanted : Nat} {history : List (Event Handle)} {reader : Reader Handle}
    {borrowed : Borrowed Handle} (fit : reader.Fit history) (big : reader.big = some borrowed) :
    ∃ owned, Holds history (borrowed.claim ::ₘ owned) ∧ owned.card ≤ min wanted 1 := by
  have holds := fit.holds
  rw [Reader.claims_of_some big, ← Multiset.cons_zero borrowed.claim] at holds
  exact ⟨0, holds, Nat.zero_le _⟩

section Looping

variable {history : List (Event Handle)} {reader : Reader Handle}

/-- How the retry loop of `readOnce` ends. -/
inductive Loops (attempts : Nat) (reader : Reader Handle) (made : List (Event Handle))
    (bytes : List UInt8) : Option (Int × Option Error) → Prop where
  | stalled (stalled : Stalled attempts reader made bytes) :
      Loops attempts reader made bytes none
  | answered {call : SourceRead} (answered : Answered attempts reader made bytes call) :
      Loops attempts reader made bytes (some (call.n, call.err))

variable {bytes : List UInt8} {made : List (Event Handle)}

theorem Polled.cons {event : Event Handle} {first : List UInt8}
    (polled : Polled reader [event] first) (later : Polled (reader.setData first) made bytes)
    (active : reader.done = false) : Polled reader (event :: made) bytes := by
  have length := polled.length active
  refine ⟨later.size.trans length, ?_, ?_⟩
  · exact List.forall_mem_cons.mpr ⟨polled.read event (List.mem_singleton_self _), later.read⟩
  · rw [← List.singleton_append, reads_append, List.forall_mem_append]
    refine ⟨polled.asked, fun call member => ?_⟩
    rw [later.asked call member, length, Reader.setData_w]

/-- One more empty read before the loop. -/
theorem Loops.cons {attempts : Nat} {event : Event Handle} {call : SourceRead} {first : List UInt8}
    {answer : Option (Int × Option Error)} (polled : Polled reader [event] first)
    (here : sourceRead event = some call) (empty : call.Empty)
    (loops : Loops attempts (reader.setData first) made bytes answer)
    (active : reader.done = false) :
    Loops (attempts + 1) reader (event :: made) bytes answer := by
  have logged : reads (event :: made) = call :: reads made := List.filterMap_cons_some here
  cases loops with
  | stalled stalled =>
      refine .stalled ⟨polled.cons stalled.toPolled active, ?_, ?_⟩
      · rw [logged, List.length_cons, stalled.long]
      · rw [logged]
        exact List.forall_mem_cons.mpr ⟨empty, stalled.empty⟩
  | answered answered =>
      obtain ⟨empties, split, few, empties_empty⟩ := answered.split
      refine .answered ⟨polled.cons answered.toPolled active, ?_, answered.some⟩
      refine ⟨call :: empties, by rw [logged, split, List.cons_append], ?_, ?_⟩
      · rw [List.length_cons]
        omega
      · exact List.forall_mem_cons.mpr ⟨empty, empties_empty⟩

/-- What `readOnce` makes of the answer. -/
theorem Loops.readsOnce {answer : Option (Int × Option Error)}
    (loops : Loops 100 reader made bytes answer) (active : reader.done = false)
    (clean : reader.err = none) :
    ReadsOnce history reader ((reader.setData bytes).count answer).1
      ((reader.setData bytes).count answer).2 (history ++ made) := by
  cases loops with
  | stalled stalled => exact .stalled clean stalled
  | @answered call answered =>
      have size := answered.asked call (by obtain ⟨_, split, _⟩ := answered.split; simp [split])
      have free : (reader.setData bytes).data.length - (reader.setData bytes).w = call.size := by
        rw [answered.length active, Reader.setData_w, size]
      simp only [Reader.count, free]
      split
      · rename_i invalid
        exact .invalid clean answered invalid
      · rename_i valid
        obtain ⟨n, count⟩ := Int.eq_ofNat_of_zero_le (by omega : 0 ≤ call.n)
        have counted := @ReadsOnce.counted _ history reader made bytes call n clean answered count
          (by omega)
        have same : (reader.setData bytes).err = none := by simp [clean]
        simp only [count, Int.toNat_natCast, Reader.setData_w]
        cases err : call.err with
        | none =>
            simp only [err, ite_self] at counted
            simp only [same]
            exact counted
        | some failure =>
            simp only [err] at counted
            by_cases zero : n = 0
            · simpa [zero] using counted
            · have positive : (n : Int) > 0 := by omega
              simpa only [if_neg zero, if_pos positive] using counted

end Looping

namespace Stepwise

variable {max wanted : Nat} {history : List (Event Handle)} {reader : Reader Handle} {n : Nat}
  {post : List UInt8 → List (Event Handle) → Prop}

private theorem meets_slice {bytes : List UInt8} {low high : Nat} (ordered : low ≤ high)
    (within : high ≤ bytes.length) (holds : post ((bytes.take high).drop low) history) :
    (slice bytes low high).Meets (conduct Handle max wanted) post history := by
  rw [slice, if_pos ⟨ordered, within⟩]
  exact holds

private theorem meets_buffered (shaped : reader.Shaped) (holds : post reader.buffered history) :
    (buffered reader).Meets (conduct Handle max wanted) post history :=
  meets_slice shaped.ordered shaped.bounded holds

/-- `data[r:r+n]`. -/
theorem meets_front (shaped : reader.Shaped) (enough : n ≤ reader.len)
    (holds : post (reader.buffered.take n) history) :
    (slice reader.data reader.r (reader.r + n)).Meets (conduct Handle max wanted) post
      history := by
  have ordered := shaped.ordered
  have bounded := shaped.bounded
  simp only [Reader.len] at enough
  refine meets_slice (Nat.le_add_right _ _) (by omega) ?_
  rw [Reader.buffered, List.take_drop, List.take_take, Nat.min_eq_left (by omega)] at holds
  exact holds

/-- One source call, and the reader with what was written. -/
theorem meets_readSource {post : (Int × Option Error) × Reader Handle →
    List (Event Handle) → Prop} (fit : reader.Fit history) (limit : reader.max = max)
    (active : reader.done = false) (clean : reader.err = none)
    (room : reader.w < reader.data.length)
    (holds : ∀ (event : Event Handle) (call : SourceRead) (bytes : List UInt8),
      sourceRead event = some call → Polled reader [event] bytes →
      post ((call.n, call.err), reader.setData bytes) (history ++ [event])) :
    (readSource reader).Meets (conduct Handle max wanted) post history := by
  refine Program.meets_bind.mpr (meets_slice (Nat.le_of_lt room) (Nat.le_refl _) ?_)
  refine ⟨⟨⟨fit, limit⟩, active, clean, room⟩, fun answer _ => ?_⟩
  let result : ReadResult (reader.data.length - reader.w) := answer
  refine holds ⟨.read reader, answer⟩
    ⟨reader.data.length - reader.w, result.bytes.toList, result.n, result.err⟩
    (reader.data.take reader.w ++ result.bytes.toList) rfl ⟨?_, ?_, ?_⟩
  · rw [List.length_append, List.length_take, Vector.length_toList]
    omega
  · exact List.forall_mem_singleton.mpr rfl
  · exact List.forall_mem_singleton.mpr rfl

private theorem meets_readLoop (attempts : Nat) (fit : reader.Fit history)
    (limit : reader.max = max) (active : reader.done = false) (clean : reader.err = none)
    (room : reader.w < reader.data.length) :
    (readLoop attempts reader).Meets (conduct Handle max wanted) (fun result later =>
      ∃ made bytes, later = history ++ made ∧ result.2 = reader.setData bytes ∧
        Loops attempts reader made bytes result.1) history := by
  induction attempts generalizing reader history with
  | zero =>
      refine ⟨[], reader.data, (List.append_nil _).symm, (Reader.setData_data active).symm,
        .stalled ⟨⟨rfl, by simp, by simp⟩, rfl, by simp⟩⟩
  | succ attempts ih =>
      refine Program.meets_bind.mpr (meets_readSource fit limit active clean room ?_)
      intro event call first here polled
      have logged : reads [event] = [call] := List.filterMap_cons_some here
      dsimp only
      split
      · rename_i stops
        refine ⟨[event], first, rfl, rfl, .answered ⟨polled, ⟨[], logged, ?_, by simp⟩, ?_⟩⟩
        · exact Nat.succ_pos _
        · exact fun empty => stops.elim (· empty.1) (· empty.2)
      · rename_i stops
        rw [not_or, not_not, not_not] at stops
        have empty : ∀ call ∈ reads [event], call.Empty := by
          rw [logged]
          exact List.forall_mem_singleton.mpr stops
        have nextRoom : (reader.setData first).w < (reader.setData first).data.length := by
          rw [polled.length active, Reader.setData_w]
          exact room
        refine (ih (polled.fit fit active clean room empty) (by simp [limit]) (by simp [active])
          (by simp [clean]) nextRoom).mono ?_
        rintro ⟨answer, next⟩ later ⟨made, bytes, rfl, rfl, loops⟩
        exact ⟨event :: made, bytes, by simp, Reader.setData_setData _ _,
          loops.cons polled here stops active⟩

private theorem meets_readOnce (fit : reader.Fit history) (limit : reader.max = max)
    (active : reader.done = false) (room : reader.w < reader.data.length) :
    (readOnce reader).Meets (conduct Handle max wanted) (fun result later =>
      ReadsOnce history reader result.1 result.2 later) history := by
  unfold readOnce
  cases sticky : reader.err with
  | some err => exact .sticky sticky
  | none =>
      refine Program.meets_bind.mpr ((meets_readLoop _ fit limit active sticky room).mono ?_)
      rintro ⟨answer, next⟩ later ⟨made, bytes, rfl, rfl, loops⟩
      exact loops.readsOnce active sticky

private theorem meets_releaseBig {post : Unit → List (Event Handle) → Prop}
    (owns : ∀ borrowed, reader.big = some borrowed →
      ∃ owned, Holds history (borrowed.claim ::ₘ owned) ∧ owned.card ≤ min wanted 1)
    (holds : post () (history ++ reader.returns)) :
    (releaseBig reader.big).Meets (conduct Handle max wanted) post history := by
  unfold Reader.returns at holds
  cases big : reader.big with
  | none =>
      rw [big, Option.elim_none, List.append_nil] at holds
      exact holds
  | some borrowed =>
      rw [big] at holds
      exact ⟨owns borrowed big, fun _ _ => holds⟩

private theorem meets_grow (fit : reader.Fit history) (limit : reader.max = max)
    (active : reader.done = false) (above : reader.data.length < n) (within : n ≤ reader.max) :
    (grow n reader).Meets (conduct Handle max n) (fun result later =>
      Ensured n history reader result.1 result.2 later) history := by
  have larger : ¬min (Buf.capacity n) reader.max ≤ reader.data.length := by
    have fits := Buf.le_capacity n
    omega
  unfold grow
  dsimp only
  rw [Nat.max_eq_left above, if_neg larger]
  subst limit
  refine Program.meets_bind.mpr
    ⟨⟨⟨fit, rfl⟩, active, above, within, rfl⟩, fun answer promised => ?_⟩
  have promised : ∀ borrowed : Borrowed Handle, answer = some borrowed →
      borrowed.B.length = min (Buf.capacity n) reader.max := promised
  let granted : Option (Borrowed Handle) := answer
  cases here : granted with
  | none =>
      obtain rfl : answer = none := here
      exact .noBuffer above within
  | some borrowed =>
      obtain rfl : answer = some borrowed := here
      have length := promised borrowed rfl
      have fits := (fit.shaped.length_le_of_larger above within length).2
      have moved : reader.buffered.take borrowed.B.length = reader.buffered :=
        List.take_of_length_le (Nat.le_of_lt fits)
      refine Program.meets_bind.mpr (meets_buffered fit.shaped ?_)
      refine Program.meets_bind.mpr (meets_releaseBig ?_ ?_)
      · intro old big
        refine ⟨{borrowed.claim}, ?_, ?_⟩
        · have granted := fit.holds.granted reader (min (Buf.capacity n) reader.max) borrowed
          rw [Reader.claims_of_some big, ← Multiset.cons_zero old.claim,
            Multiset.cons_swap] at granted
          exact granted
        · rw [Multiset.card_singleton]
          omega
      · rw [List.append_assoc, List.singleton_append, moved]
        exact .grown above within length

private theorem meets_ensure (fit : reader.Fit history) (limit : reader.max = max)
    (active : reader.done = false) (short : reader.len < n) :
    (ensure n reader).Meets (conduct Handle max n) (fun result later =>
      Ensured n history reader result.1 result.2 later) history := by
  have shaped := fit.shaped
  have bounded := shaped.bounded
  have ordered := shaped.ordered
  unfold ensure
  by_cases large : n > reader.max
  · rw [if_pos large]
    exact .tooLarge large
  rw [if_neg large]
  by_cases above : reader.data.length < n
  · rw [if_pos above]
    exact meets_grow fit limit active above (by omega)
  rw [if_neg above]
  by_cases roomy : reader.w < reader.data.length ∧ reader.data.length - reader.r ≥ n
  · rw [if_pos roomy]
    exact .fits (by omega) roomy.1
  rw [if_neg roomy]
  -- Fewer than `n` bytes are buffered, so that the free space is at the front.
  have behind : reader.r > 0 := by
    simp only [Reader.len] at short
    omega
  rw [if_pos behind]
  refine Program.meets_bind.mpr (meets_buffered shaped ?_)
  have compacted : Ensured n history reader none (reader.front reader.buffered) history :=
    .compacted (by omega) behind
  rw [if_pos (compacted.roomy fit active).room]
  exact compacted

private theorem meets_peekLoop {rounds : Nat} (fit : reader.Fit history) (limit : reader.max = max)
    (active : reader.done = false) (enough : n ≤ reader.len + rounds) :
    (peekLoop n rounds reader).Meets (conduct Handle max n) (fun result later =>
      Peeks n history reader result.1 result.2 later) history := by
  induction rounds generalizing reader history with
  | zero =>
      have full : n ≤ reader.len := enough
      unfold peekLoop
      rw [if_neg (Nat.not_lt.mpr full)]
      exact Program.meets_bind.mpr (meets_front fit.shaped full (.enough full))
  | succ rounds ih =>
      unfold peekLoop
      by_cases short : reader.len < n
      · rw [if_pos short]
        refine Program.meets_bind.mpr ((meets_ensure fit limit active short).mono ?_)
        rintro ⟨refused, roomy⟩ middle ensured
        cases refused with
        | some err =>
            refine Program.meets_bind.mpr (meets_buffered ?_ (.refused short ensured))
            exact (ensured.refused_fit fit).shaped
        | none =>
            have made := ensured.roomy fit active
            have roomyFit := ensured.fit fit active
            have still := made.done.trans active
            have same : roomy.len = reader.len := made.len fit.shaped roomyFit.shaped
            have sameMax := made.max.trans limit
            refine Program.meets_bind.mpr
              ((meets_readOnce roomyFit sameMax still made.room).mono ?_)
            rintro ⟨failed, filled⟩ second read
            have filledFit := read.fit roomyFit still made.room
            obtain ⟨gained, kept⟩ := read.len roomyFit
            cases failed with
            | none =>
                have more : roomy.len < filled.len := gained rfl
                have rest : n ≤ filled.len + rounds := by omega
                have frame := (read.frame still).1
                refine (ih filledFit (frame.max.trans sameMax) (frame.done.trans still)
                  rest).mono ?_
                exact fun result later peeks => .again short ensured read peeks
            | some err =>
                have less : filled.len = roomy.len := kept (by simp)
                have still_short : ¬filled.len ≥ n := by omega
                dsimp only
                rw [if_neg still_short]
                exact Program.meets_bind.mpr
                  (meets_buffered filledFit.shaped (.failed short ensured read))
      · rw [if_neg short]
        have full := Nat.not_lt.mp short
        exact Program.meets_bind.mpr (meets_front fit.shaped full (.enough full))

private theorem meets_discard {n : Int} (some : 0 < n) (fit : reader.Fit history) :
    (discard n reader).Meets (conduct Handle max wanted) (fun result later =>
      result.1 = min n.toNat reader.len ∧
        Discards (min n.toNat reader.len) history reader result.2 later) history := by
  unfold discard
  rw [if_neg (by omega)]
  by_cases empty : reader.r + min n.toNat reader.len = reader.w
  · simp only [if_pos empty]
    by_cases light : reader.big.isSome ∧ reader.last ≤ reader.idle.length
    · simp only [if_pos light]
      obtain ⟨borrowed, big⟩ := Option.isSome_iff_exists.mp light.1
      have back : reader.returns = [⟨.release borrowed, ()⟩] := by rw [Reader.returns, big]; rfl
      refine Program.meets_bind.mpr (Program.meets_bind.mpr
        (@meets_releaseBig _ max wanted history reader _ (fun _ same => fit.owns same) ?_))
      rw [back]
      exact ⟨rfl, .shrinks empty big light.2⟩
    · simp only [if_neg light]
      refine ⟨rfl, .all empty ?_⟩
      cases big : reader.big with
      | none => exact .inl rfl
      | some borrowed =>
          rw [big] at light
          simp only [Option.isSome_some, true_and, not_le] at light
          exact .inr light
  · simp only [if_neg empty]
    exact ⟨rfl, .some empty⟩

private theorem meets_deliver {size : Nat} (asked : 0 < size) (some : 0 < reader.len)
    (fit : reader.Fit history) :
    (deliver size reader).Meets (conduct Handle max wanted) (fun result later =>
      result.1 = (reader.buffered.take size, none) ∧
        Discards (min size reader.len) history reader result.2 later) history := by
  have copied : (reader.buffered.take size).length = min size reader.len := by
    rw [List.length_take, fit.shaped.length_buffered]
  have least : min (min size reader.len) reader.len = min size reader.len := by omega
  refine Program.meets_bind.mpr (meets_buffered fit.shaped ?_)
  dsimp only
  rw [copied]
  refine Program.meets_bind.mpr ((meets_discard (by omega) fit).mono ?_)
  rintro ⟨count, next⟩ later ⟨_, discards⟩
  rw [Int.toNat_natCast, least] at discards
  exact ⟨rfl, discards⟩

private theorem meets_read {size : Nat} (fit : reader.Fit history) (limit : reader.max = max) :
    (read size reader).Meets (conduct Handle max wanted) (fun result later =>
      Performs history reader (.read size) (.bytes result.1.1 result.1.2) result.2 later)
      history := by
  unfold read
  cases released : reader.done with
  | true => exact .readReleased size released
  | false =>
      rw [if_neg (by simp)]
      by_cases nothing : size = 0
      · subst nothing
        exact .readNothing released
      rw [if_neg nothing]
      have asked : 0 < size := Nat.pos_of_ne_zero nothing
      by_cases empty : reader.len = 0
      · rw [if_pos empty]
        have room := fit.shaped.room released empty
        refine Program.meets_bind.mpr ((meets_readOnce fit limit released room).mono ?_)
        rintro ⟨failed, filled⟩ middle read
        have filledFit := read.fit fit released room
        obtain ⟨gained, kept⟩ := read.len fit
        cases failed with
        | none =>
            have more : 0 < filled.len := Nat.zero_lt_of_lt (gained rfl)
            refine (meets_deliver asked more filledFit).mono ?_
            rintro ⟨reply, next⟩ later ⟨rfl, discards⟩
            exact .readSource released asked empty read discards
        | some err =>
            have less : filled.len = reader.len := kept (by simp)
            dsimp only
            rw [if_pos (less.trans empty)]
            exact .readFailed released asked empty read
      · rw [if_neg empty]
        have some : 0 < reader.len := Nat.pos_of_ne_zero empty
        refine (meets_deliver asked some fit).mono ?_
        rintro ⟨reply, next⟩ later ⟨rfl, discards⟩
        exact .readBuffered released asked some discards

private theorem meets_peek {n : Int} (fit : reader.Fit history) (limit : reader.max = max) :
    (peek n reader).Meets (conduct Handle max n.toNat) (fun result later =>
      Performs history reader (.peek n) (.bytes result.1.1 result.1.2) result.2 later)
      history := by
  unfold peek
  cases released : reader.done with
  | true => exact .peekReleased n released
  | false =>
      rw [if_neg (by simp)]
      by_cases negative : n < 0
      · rw [if_pos negative]
        exact .peekNegative released negative
      rw [if_neg negative]
      by_cases above : n > reader.max
      · rw [if_pos above]
        exact Program.meets_bind.mpr (meets_buffered fit.shaped (.peekTooLarge released above))
      rw [if_neg above]
      refine (meets_peekLoop fit limit released (Nat.le_add_left _ _)).mono ?_
      exact fun result later peeks => .peek released (by omega) (by omega) peeks

private theorem meets_fill (fit : reader.Fit history) (limit : reader.max = max) :
    (fill reader).Meets (conduct Handle max (reader.len + 1)) (fun result later =>
      Performs history reader .fill (.status result.1) result.2 later) history := by
  unfold fill
  cases released : reader.done with
  | true => exact .fillReleased released
  | false =>
      rw [if_neg (by simp)]
      refine Program.meets_bind.mpr
        ((meets_ensure fit limit released (Nat.lt_succ_self _)).mono ?_)
      rintro ⟨refused, roomy⟩ middle ensured
      cases refused with
      | some err => exact .fillRefused released ensured
      | none =>
          have made := ensured.roomy fit released
          refine (meets_readOnce (ensured.fit fit released) (made.max.trans limit)
            (made.done.trans released) made.room).mono ?_
          exact fun result later read => .fill released ensured read

private theorem meets_release (fit : reader.Fit history) :
    (release reader).Meets (conduct Handle max wanted) (fun next later =>
      Performs history reader .release .unit next later) history := by
  unfold release
  cases released : reader.done with
  | true => exact .releaseAgain released
  | false =>
      rw [if_neg (by simp)]
      refine Program.meets_bind.mpr (meets_releaseBig (fun _ big => fit.owns big) ?_)
      exact .release released

/-- A call of a fit reader does one of the things it is to do, whatever it is answered. -/
theorem meets_call (fit : reader.Fit history) (request : Call) :
    (call reader request).Meets (conduct Handle reader.max (request.wanted reader))
      (fun result later => Performs history reader request result.1 result.2 later)
      history := by
  cases request with
  | peek n =>
      exact Program.meets_bind.mpr ((meets_peek fit rfl).mono fun _ _ performs => performs)
  | fill =>
      exact Program.meets_bind.mpr ((meets_fill fit rfl).mono fun _ _ performs => performs)
  | read size =>
      exact Program.meets_bind.mpr ((meets_read fit rfl).mono fun _ _ performs => performs)
  | discard n =>
      refine Program.meets_bind.mpr ?_
      by_cases none : n ≤ 0
      · unfold discard
        rw [if_pos none]
        exact .discardNothing none
      · refine (meets_discard (Int.not_le.mp none) fit).mono ?_
        rintro ⟨count, next⟩ later ⟨rfl, discards⟩
        exact .discard (Int.not_le.mp none) discards
  | buffered => exact Program.meets_bind.mpr (meets_buffered fit.shaped .buffered)
  | release =>
      exact Program.meets_bind.mpr ((meets_release fit).mono fun _ _ performs => performs)

end Stepwise

end Netx.Stream
