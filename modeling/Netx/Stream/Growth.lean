import Mathlib.Data.Nat.Log
import Netx.Stream.Outcomes

/-!
# How a reader's buffer grows

A larger buffer is at least twice as long, or as long as `Max`, as long as the classes of
the pool last. Above the largest class it is only as long as was asked for.
-/

set_option autoImplicit false

namespace Netx.Stream

variable {World Handle : Type}

/-- A successful `grow`: the reader before, and the length of the buffer it was given. -/
def growth : Event Handle → Option (Reader Handle × Nat)
  | ⟨.get reader _, answer⟩ =>
      let answer : Option (Borrowed Handle) := answer
      answer.map fun borrowed => (reader, borrowed.B.length)
  | _ => none

def growths (history : List (Event Handle)) : List (Reader Handle × Nat) :=
  history.filterMap growth

@[simp] theorem growths_append (front back : List (Event Handle)) :
    growths (front ++ back) = growths front ++ growths back :=
  List.filterMap_append

/-- The length of the new buffer against twice that of the old one. -/
theorem grown_iff {history : List (Event Handle)} {reader : Reader Handle} {n : Nat}
    {old : Borrowed Handle} (fit : reader.Fit history) (active : reader.done = false)
    (big : reader.big = some old) (above : reader.data.length < n) (within : n ≤ reader.max) :
    min (2 * old.B.length) reader.max ≤ min (Buf.capacity n) reader.max ↔
      old.B.length < 65536 ∨ min (2 * old.B.length) reader.max ≤ n := by
  have fits := Buf.le_capacity n
  obtain ⟨_, m, size⟩ := fit.shaped.grown_of_some big
  rw [Reader.data_of_some active big] at above
  constructor
  · intro doubled
    by_cases small : old.B.length < 65536
    · exact .inl small
    · have exact_size : Buf.capacity n = n := Buf.capacity_of_large (show 65536 < n by omega)
      omega
  · rintro (small | asked)
    · have class_size : old.B.length = Buf.capacity m := by omega
      have doubled := Buf.two_mul_le_capacity (class_size ▸ small) (class_size ▸ above)
      omega
    · omega

section Calls

variable {history later : List (Event Handle)} {reader next : Reader Handle}
  {failed : Option Error} {request : Call} {reply : Reply} {n : Nat}

/-- Whether the buffer was borrowed, and how long it is, has not changed. -/
structure Same (history later : List (Event Handle)) (reader next : Reader Handle) : Prop where
  growths : growths later = growths history
  length : next.data.length = reader.data.length
  claims : next.claims = reader.claims

/-- The buffer has not grown. Where `n` bytes do not fit it, the pool has refused. -/
structure Stays (n : Nat) (history later : List (Event Handle)) (reader next : Reader Handle) :
    Prop extends Same history later reader next where
  refused : reader.done = false → reader.data.length < n → n ≤ reader.max →
    later = history ++ [⟨.get reader (min (Buf.capacity n) reader.max), none⟩]

/-- The buffer has grown once, for `n` bytes. -/
structure Grew (n : Nat) (history later : List (Event Handle)) (reader next : Reader Handle) :
    Prop where
  growths : growths later = growths history ++ [(reader, min (Buf.capacity n) reader.max)]
  above : reader.data.length < n
  within : n ≤ reader.max
  length : next.data.length = min (Buf.capacity n) reader.max
  borrowed : next.claims ≠ 0

theorem Same.trans {middle : List (Event Handle)} {second third : Reader Handle}
    (front : Same history middle reader second) (back : Same middle later second third) :
    Same history later reader third :=
  ⟨back.growths.trans front.growths, back.length.trans front.length,
    back.claims.trans front.claims⟩

theorem Grew.trans {middle : List (Event Handle)} {second third : Reader Handle}
    (front : Grew n history middle reader second) (back : Same middle later second third) :
    Grew n history later reader third :=
  ⟨back.growths.trans front.growths, front.above, front.within, back.length.trans front.length,
    by rw [back.claims]; exact front.borrowed⟩

theorem ReadsOnce.same (once : ReadsOnce history reader failed next later)
    (active : reader.done = false) : Same history later reader next := by
  obtain ⟨_, _, length, claims⟩ := once.frame active
  obtain ⟨made, rfl, read⟩ := once.reads_only
  refine ⟨?_, length, claims⟩
  have none : growths made = [] := by
    refine List.filterMap_eq_nil_iff.mpr fun event member => ?_
    have first := read event member
    obtain ⟨op, answer⟩ := event
    cases op with
    | read reader => rfl
    | _ => cases first
  rw [growths_append, none, List.append_nil]

private theorem growths_returns (reader : Reader Handle) : growths reader.returns = [] := by
  unfold Reader.returns
  cases reader.big <;> rfl

theorem Ensured.same_or_grew (ensured : Ensured n history reader none next later)
    (fit : reader.Fit history) (active : reader.done = false) :
    n ≤ reader.data.length ∧ Same history later reader next ∨
      Grew n history later reader next := by
  cases ensured with
  | fits enough room => exact .inl ⟨enough, rfl, rfl, rfl⟩
  | compacted enough behind =>
      have size := fit.shaped.front_length
      refine .inl ⟨enough, rfl, ?_, (Reader.setData_kept active size).2⟩
      exact (congrArg List.length (Session.data_compact (fit.shaped.valid active))).trans size
  | @grown borrowed above within size =>
      have fits := Nat.le_of_lt (fit.shaped.length_le_of_larger above within size).2
      have granted : growths (⟨.get reader (min (Buf.capacity n) reader.max), some borrowed⟩ ::
          reader.returns : List (Event Handle)) =
          (reader, borrowed.B.length) :: growths reader.returns := rfl
      refine .inr ⟨?_, above, within, ?_, ?_⟩
      · rw [growths_append, granted, growths_returns, size]
      · rw [reader.grown_length active fits, size]
      · rw [reader.grown_claims fits]
        exact Multiset.singleton_ne_zero _

theorem Same.stays (same : Same history later reader next) (fits : n ≤ reader.data.length) :
    Stays n history later reader next :=
  ⟨same, fun _ above _ => absurd above (Nat.not_lt.mpr fits)⟩

theorem Ensured.refused_stays {err : Error}
    (refused : Ensured n history reader (some err) next later) :
    Stays n history later reader next := by
  obtain ⟨rfl, ⟨_, above, rfl⟩ | ⟨_, _, _, rfl⟩⟩ := refused.refused
  · exact ⟨⟨rfl, rfl, rfl⟩, fun _ _ within => absurd above (Nat.not_lt.mpr within)⟩
  · refine ⟨⟨?_, rfl, rfl⟩, fun _ _ _ => rfl⟩
    rw [growths_append]
    exact List.append_nil _

/-- `Peek` makes room once, before its first read. -/
theorem Peeks.stays_or_grew {shown : List UInt8 × Option Error}
    (peeks : Peeks n history reader shown next later) (fit : reader.Fit history)
    (active : reader.done = false) :
    Stays n history later reader next ∨ Grew n history later reader next := by
  induction peeks with
  | @enough history reader enough =>
      have bounded := fit.shaped.bounded
      have fits : n ≤ reader.data.length := by
        simp only [Reader.len] at enough
        omega
      exact .inl (Same.stays ⟨rfl, rfl, rfl⟩ fits)
  | refused short refused => exact .inl refused.refused_stays
  | failed short ensured failed =>
      have still := (ensured.roomy fit active).done.trans active
      rcases ensured.same_or_grew fit active with ⟨fits, same⟩ | grew
      · exact .inl ((same.trans (failed.same still)).stays fits)
      · exact .inr (grew.trans (failed.same still))
  | @again history middle second later reader roomy filled next reply short ensured read rest ih =>
      have made := ensured.roomy fit active
      have still := made.done.trans active
      have roomyFit := ensured.fit fit active
      have kept := read.same still
      have onward : Same second later filled next := by
        rcases ih (read.fit roomyFit still made.room)
          ((read.frame still).1.done.trans still) with stays | grew
        · exact stays.toSame
        · have above := grew.above
          have enough := made.enough
          rw [kept.length] at above
          omega
      rcases ensured.same_or_grew fit active with ⟨fits, same⟩ | grew
      · exact .inl (((same.trans kept).trans onward).stays fits)
      · exact .inr ((grew.trans kept).trans onward)

theorem Discards.growths {k : Nat} (discards : Discards k history reader next later) :
    growths later = growths history := by
  cases discards with
  | some _ | all _ _ => rfl
  | shrinks _ _ _ =>
      rw [growths_append]
      exact List.append_nil _

/-- The calls that buffer bytes and consume none. -/
def Call.buffers : Call → Bool
  | .peek _ | .fill => true
  | _ => false

theorem Performs.stays_or_grew (performs : Performs history reader request reply next later)
    (fit : reader.Fit history) (buffers : request.buffers) :
    Stays (request.wanted reader) history later reader next ∨ reader.done = false ∧
      Grew (request.wanted reader) history later reader next := by
  cases performs with
  | peekReleased _ released | fillReleased released =>
      refine .inl ⟨⟨rfl, rfl, rfl⟩, fun active => ?_⟩
      rw [released] at active
      cases active
  | @peekNegative n _ negative =>
      have zero : n.toNat ≤ reader.data.length := by omega
      exact .inl (Same.stays ⟨rfl, rfl, rfl⟩ zero)
  | @peekTooLarge n _ large =>
      refine .inl ⟨⟨rfl, rfl, rfl⟩, fun _ _ within => ?_⟩
      have most : n.toNat ≤ reader.max := within
      omega
  | peek active _ _ peeks =>
      exact (peeks.stays_or_grew fit active).imp_right fun grew => ⟨active, grew⟩
  | fillRefused _ refused => exact .inl refused.refused_stays
  | fill active ensured read =>
      have still := (ensured.roomy fit active).done.trans active
      rcases ensured.same_or_grew fit active with ⟨fits, same⟩ | grew
      · exact .inl ((same.trans (read.same still)).stays fits)
      · exact .inr ⟨active, grew.trans (read.same still)⟩
  | _ => cases buffers

/-- No other call asks for a larger buffer. -/
theorem Performs.growths (performs : Performs history reader request reply next later)
    (other : request.buffers = false) : growths later = growths history := by
  cases performs with
  | peekReleased _ _ | peekNegative _ _ | peekTooLarge _ _ | peek _ _ _ _ | fillReleased _
  | fillRefused _ _ | fill _ _ _ => cases other
  | readFailed active _ _ failed => exact (failed.same active).growths
  | readSource active _ _ read delivers =>
      exact delivers.growths.trans (read.same active).growths
  | readBuffered _ _ _ delivers => exact delivers.growths
  | discard _ discards => exact discards.growths
  | release _ => rw [growths_append, growths_returns, List.append_nil]
  | readReleased _ _ | readNothing _ | discardNothing _ | buffered | releaseAgain _ => rfl

end Calls

section Frames

variable (env : Environment World Handle)

/-- A buffer below the largest class, or a call that asks for twice its length or for `Max`. -/
def Reader.Ample (reader : Reader Handle) (n : Nat) : Prop :=
  ∀ old ∈ reader.big, old.B.length < Buf.large ∨ min (2 * old.B.length) reader.max ≤ n

instance (reader : Reader Handle) (n : Nat) : Decidable (reader.Ample n) :=
  inferInstanceAs (Decidable (∀ old ∈ reader.big, _))

/-- A frame of `N` bytes is buffered in pieces. The calls that have to grow the buffer do so
from an ample one. -/
def Session.Arrives (N : Nat) : List Call → Session World Handle → Prop
  | [], _ => True
  | request :: rest, session =>
      (request.buffers ∧ request.wanted session.reader ≤ N ∧
        (session.reader.data.length < request.wanted session.reader →
          session.reader.Ample (request.wanted session.reader))) ∧
      Arrives N rest (session.call env request).2

instance Session.decidableArrives (N : Nat) :
    ∀ (pieces : List Call) (session : Session World Handle),
      Decidable (session.Arrives env N pieces)
  | [], _ => .isTrue trivial
  | _ :: rest, session =>
      @instDecidableAnd _ _ _ (decidableArrives N rest (session.call env _).2)

variable {env} {history : List (Event Handle)} {session : Session World Handle} {N : Nat}
  {request : Call} {rest pieces : List Call}

/-- The buffer has grown once in a call. -/
structure Session.Grows (env : Environment World Handle) (request : Call)
    (session : Session World Handle) : Prop where
  active : session.reader.done = false
  growths : growths (session.events env request) =
    [(session.reader, (session.call env request).2.reader.data.length)]
  above : session.reader.data.length < request.wanted session.reader
  within : request.wanted session.reader ≤ session.reader.max
  length : (session.call env request).2.reader.data.length =
    min (Buf.capacity (request.wanted session.reader)) session.reader.max
  borrowed : (session.call env request).2.reader.claims ≠ 0

theorem Session.Grows.still (grows : session.Grows env request) :
    (session.call env request).2.reader.done = false := by
  have above := grows.above
  have within := grows.within
  have fits := Buf.le_capacity (request.wanted session.reader)
  have length := grows.length
  refine Bool.eq_false_iff.mpr fun released => ?_
  rw [Reader.data, if_pos released, List.length_nil] at length
  omega

/-- The buffer has not grown in a call. -/
structure Session.Stays (env : Environment World Handle) (request : Call)
    (session : Session World Handle) : Prop where
  growths : growths (session.events env request) = []
  length : (session.call env request).2.reader.data.length = session.reader.data.length
  claims : (session.call env request).2.reader.claims = session.reader.claims
  refused : session.reader.done = false →
    session.reader.data.length < request.wanted session.reader →
    request.wanted session.reader ≤ session.reader.max →
    (env.get session.world
      (min (Buf.capacity (request.wanted session.reader)) session.reader.max)).1 = none

variable (env) in
theorem Session.Fits.stays_or_grows (fits : session.Fits history) (buffers : request.buffers) :
    session.Stays env request ∨ session.Grows env request := by
  rcases (Session.performs env fits.fit request).stays_or_grew fits.fit buffers with
    ⟨⟨grown, length, claims⟩, refused⟩ | ⟨active, grown, above, within, length, borrowed⟩
  · rw [growths_append] at grown
    refine .inl ⟨List.append_right_eq_self.mp grown, length, claims, ?_⟩
    intro active above within
    obtain ⟨after, answered⟩ := Interaction.Program.events_head
      (List.append_cancel_left (refused active above within))
    injection answered with same
    exact congrArg Prod.fst same
  · rw [growths_append, ← length] at grown
    exact .inr ⟨active, List.append_cancel_left grown, above, within, length, borrowed⟩

theorem Reader.Fit.borrowed {reader : Reader Handle} (fit : reader.Fit history)
    (claims : reader.claims ≠ 0) :
    ∃ old, reader.big = some old ∧ reader.data = old.B ∧ 1 < reader.data.length := by
  cases big : reader.big with
  | none => exact absurd (claims_of_none big) claims
  | some old =>
      have active : reader.done = false := by
        refine Bool.eq_false_iff.mpr fun released => ?_
        exact claims (fit.shaped.released released)
      have data := data_of_some active big
      have idle := fit.shaped.idle
      have longer := (fit.shaped.grown_of_some big).1
      exact ⟨old, rfl, data, by rw [data]; omega⟩

/-- From a borrowed buffer, every growth but the last doubles the length. -/
theorem Session.Fits.doublings (fits : session.Fits history)
    (borrowed : session.reader.claims ≠ 0) (arrives : session.Arrives env N pieces) :
    growths (session.history env pieces) = [] ∨
      session.reader.data.length * 2 ^ ((growths (session.history env pieces)).length - 1) < N ∧
        session.reader.data.length < session.reader.max := by
  induction pieces generalizing session history with
  | nil => exact .inl rfl
  | cons request rest ih =>
      obtain ⟨⟨buffers, bound, ample⟩, later⟩ := arrives
      have nextFits := fits.call env request
      have max := ((performs env fits.fit request).fit fits.fit).2.1
      rw [Session.history, growths_append]
      rcases fits.stays_or_grows env buffers with
        ⟨none, length, claims, _⟩ | ⟨active, grown, above, within, length, nextBorrowed⟩
      · have shorter := ih nextFits (by rw [claims]; exact borrowed) later
        rw [none, List.nil_append]
        rwa [length, max] at shorter
      · right
        obtain ⟨old, big, data, _⟩ := fits.fit.borrowed borrowed
        have doubled := (grown_iff fits.fit active big above within).mpr (ample above old big)
        rw [← data, ← length] at doubled
        refine ⟨?_, by omega⟩
        rw [grown, List.singleton_append, List.length_cons, Nat.add_sub_cancel]
        rcases ih nextFits nextBorrowed later with last | ⟨bounded, less⟩
        · rw [last, List.length_nil, Nat.pow_zero]
          omega
        · rw [max] at less
          cases count : (growths ((session.call env request).2.history env rest)).length with
          | zero =>
              rw [Nat.pow_zero]
              omega
          | succ g =>
              rw [count, Nat.add_sub_cancel] at bounded
              calc session.reader.data.length * 2 ^ (g + 1)
                  = 2 * session.reader.data.length * 2 ^ g := by
                    rw [Nat.pow_succ', ← Nat.mul_assoc, Nat.mul_comm _ 2]
                _ ≤ (session.call env request).2.reader.data.length * 2 ^ g :=
                    Nat.mul_le_mul_right _ (by omega)
                _ < N := bounded

theorem Session.Fits.doublings_le (fits : session.Fits history)
    (borrowed : session.reader.claims ≠ 0) (arrives : session.Arrives env N pieces) :
    (growths (session.history env pieces)).length ≤ Nat.log 2 N := by
  rcases fits.doublings borrowed arrives with none | ⟨bounded, _⟩
  · rw [none]
    exact Nat.zero_le _
  · cases count : (growths (session.history env pieces)).length with
    | zero => exact Nat.zero_le _
    | succ g =>
        obtain ⟨_, _, _, long⟩ := fits.fit.borrowed borrowed
        rw [count, Nat.add_sub_cancel] at bounded
        have power : 2 ^ (g + 1) ≤ N :=
          calc 2 ^ (g + 1) = 2 * 2 ^ g := Nat.pow_succ'
            _ ≤ session.reader.data.length * 2 ^ g := Nat.mul_le_mul_right _ long
            _ ≤ N := Nat.le_of_lt bounded
        exact Nat.le_log_of_pow_le (by decide) power

/-- One growth leaves the idle buffer, and the others double. -/
theorem Session.Fits.growths_le (fits : session.Fits history)
    (arrives : session.Arrives env N pieces) :
    (growths (session.history env pieces)).length ≤ Nat.log 2 N + 1 := by
  induction pieces generalizing session history with
  | nil => exact Nat.zero_le _
  | cons request rest ih =>
      obtain ⟨⟨buffers, _, _⟩, later⟩ := arrives
      have nextFits := fits.call env request
      rw [Session.history, growths_append, List.length_append]
      rcases fits.stays_or_grows env buffers with stays | grows
      · have bounded := ih nextFits later
        rw [stays.growths, List.length_nil]
        omega
      · have bounded := nextFits.doublings_le grows.borrowed later
        rw [grows.growths, List.length_singleton]
        omega

/-- What a session promises about the buffers it grows to. -/
structure GrowthContract (env : Environment World Handle) (limit : Nat)
    (session : Session World Handle) : Prop where
  doubles : ∀ request before size, (before, size) ∈ growths (session.events env request) →
    before = session.reader ∧ ∀ old, before.big = some old →
      (min (2 * old.B.length) limit ≤ size ↔
        old.B.length < Buf.large ∨ min (2 * old.B.length) limit ≤ request.wanted before)
  logarithmic : ∀ N pieces, session.Arrives env N pieces →
    (growths (session.history env pieces)).length ≤ Nat.log 2 N + 1

variable (env) in
theorem Session.Fits.growth (fits : session.Fits history) :
    GrowthContract env session.reader.max session := by
  refine ⟨?_, fun N pieces => fits.growths_le⟩
  intro request before size member
  cases buffers : request.buffers with
  | false =>
      have none := (performs env fits.fit request).growths buffers
      rw [growths_append, List.append_right_eq_self] at none
      rw [none] at member
      cases member
  | true =>
      rcases fits.stays_or_grows env buffers with stays | grows
      · rw [stays.growths] at member
        cases member
      · rw [grows.growths, List.mem_singleton] at member
        cases member
        refine ⟨rfl, fun old big => ?_⟩
        rw [grows.length]
        exact grown_iff fits.fit grows.active big grows.above grows.within

end Frames

/-- Every growth of every run at least doubles a borrowed buffer, or reaches `Max`, exactly
when it starts below the largest class or is asked for that much. -/
theorem growth_doubles_iff (env : Environment World Handle) {o : ReaderOptions}
    {hasPool : Bool} {reader : Reader Handle}
    (accepted : Reader.newReader Handle o hasPool = some reader) (world : World)
    (calls : List Call) :
    GrowthContract env reader.max ((Session.start reader world).run env calls).2 := by
  have begins : (Session.start reader world).Fits [] := ⟨Reader.newReader_fit accepted, rfl⟩
  have contract := (begins.run env calls).growth env
  rw [begins.run_max] at contract
  exact contract

section Unlimited

/-- A pool without a budget over a source that fills every slice. -/
def unlimited : Environment UInt8 Unit where
  read next size := (⟨Vector.replicate size next, size, none⟩, next + 1)
  get next size := (some ⟨(), List.replicate size 0⟩, next)
  release next _ := next
  get_length := by
    rintro world after size borrowed ⟨rfl, rfl⟩
    exact List.length_replicate

theorem growth_doubles_iff_small :
    ∃ reader, Reader.newReader Unit ⟨2, 200⟩ true = some reader ∧
      let session := ((Session.start reader 1).run unlimited [.peek 3]).2
      GrowthContract unlimited reader.max session ∧
        session.Arrives unlimited 190 [.peek 65, .fill, .peek 190] ∧
        (growths (session.history unlimited [.peek 65, .fill, .peek 190])).map Prod.snd =
          [128, 200] := by
  have accepted : Reader.newReader Unit ⟨2, 200⟩ true = some _ := rfl
  exact ⟨_, accepted, growth_doubles_iff unlimited accepted 1 [.peek 3], by decide +kernel,
    by decide +kernel⟩

variable {history : List (Event Unit)} {session : Session UInt8 Unit}

/-- A pool without a budget grants what a `Peek` needs. -/
theorem Session.Fits.grows (fits : session.Fits history) (active : session.reader.done = false)
    (n : Int) (above : session.reader.data.length < n.toNat)
    (within : n.toNat ≤ session.reader.max) : session.Grows unlimited (.peek n) := by
  have buffers : (Call.peek n).buffers := rfl
  rcases fits.stays_or_grows unlimited buffers with stays | grows
  · cases stays.refused active above within
  · exact grows

/-- A frame asked for byte by byte. -/
def bytewise (length k : Nat) : List Call :=
  (List.range' (length + 1) k).map fun n : Nat => .peek n

/-- Above the largest class, every byte more is a growth. -/
theorem Session.Fits.creeps {length k : Nat} (fits : session.Fits history)
    (active : session.reader.done = false) (size : session.reader.data.length = length)
    (large : Buf.large ≤ length) (within : length + k ≤ session.reader.max) :
    (growths (session.history unlimited (bytewise length k))).length = k := by
  induction k generalizing session history length with
  | zero => rfl
  | succ k ih =>
      have grows : session.Grows unlimited (.peek (length + 1 : Nat)) :=
        fits.grows active _ (by omega) (by omega)
      have nextFits := fits.call unlimited (.peek (length + 1 : Nat))
      have max := ((performs unlimited fits.fit (.peek (length + 1 : Nat))).fit fits.fit).2.1
      have longer : min (Buf.capacity (length + 1)) session.reader.max = length + 1 := by
        rw [Buf.capacity_of_large (Nat.lt_succ_of_le large)]
        omega
      have rest := ih nextFits grows.still (grows.length.trans longer) (by omega) (by omega)
      show (growths (session.events unlimited (.peek (length + 1 : Nat)) ++
        (session.call unlimited (.peek (length + 1 : Nat))).2.history unlimited
          (bytewise (length + 1) k))).length = k + 1
      rw [growths_append, List.length_append, rest, grows.growths, List.length_singleton,
        Nat.add_comm]

theorem Session.Fits.not_geometric (fits : session.Fits history)
    (active : session.reader.done = false) (small : session.reader.data.length < 65536)
    (roomy : session.reader.max = 1048576) :
    let next := (session.call unlimited (.peek 65536)).2
    (∃ old, next.reader.big = some old ∧ old.B.length = 65536 ∧
      (next.reader, 65537) ∈ growths (next.events unlimited (.peek 65537)) ∧
      ¬min (2 * old.B.length) 1048576 ≤ 65537) ∧
    (growths (next.history unlimited (bytewise 65536 1000))).length = 1000 := by
  have first := fits.grows active 65536 small (by rw [roomy]; decide)
  have nextFits := fits.call unlimited (.peek 65536)
  have max := ((performs unlimited fits.fit (.peek 65536)).fit fits.fit).2.1.trans roomy
  have class_size : min (Buf.capacity 65536) session.reader.max = 65536 := by
    rw [roomy]
    decide
  have size := first.length.trans class_size
  have second := nextFits.grows first.still 65537 (by rw [size]; decide) (by rw [max]; decide)
  obtain ⟨old, big, data, _⟩ := nextFits.fit.borrowed first.borrowed
  refine ⟨⟨old, big, data ▸ size, ?_, ?_⟩, ?_⟩
  · have length := second.length.trans (congrArg (min (Buf.capacity 65537)) max)
    rw [Buf.capacity_of_large (show 65536 < 65537 by decide)] at length
    rw [second.growths, length]
    exact List.mem_singleton_self _
  · rw [← data, size]
    decide
  · exact nextFits.creeps first.still size (Nat.le_refl _) (by rw [max]; decide)

/-- A buffer of 64 KiB grows by one byte, and a thousand times for a thousand bytes. -/
theorem growth_not_geometric :
    ∃ reader, Reader.newReader Unit ⟨0, 1048576⟩ true = some reader ∧
      let session := ((Session.start reader 0).run unlimited [.peek 65536]).2
      (∃ old, session.reader.big = some old ∧ old.B.length = 65536 ∧
        (session.reader, 65537) ∈ growths (session.events unlimited (.peek 65537)) ∧
        ¬min (2 * old.B.length) reader.max ≤ 65537) ∧
      (growths (session.history unlimited (bytewise 65536 1000))).length = 1000 := by
  obtain ⟨reader, accepted⟩ : ∃ reader, Reader.newReader Unit ⟨0, 1048576⟩ true = some reader :=
    ⟨_, rfl⟩
  have begins : (Session.start reader (0 : UInt8)).Fits [] :=
    ⟨Reader.newReader_fit accepted, rfl⟩
  have shape : reader.done = false ∧ reader.data.length = 512 ∧ reader.max = 1048576 := by
    simp only [Reader.newReader] at accepted
    cases accepted
    exact ⟨rfl, List.length_replicate, rfl⟩
  obtain ⟨active, length, max⟩ := shape
  have small : reader.data.length < 65536 := by omega
  have created := begins.not_geometric active small max
  rw [← max] at created
  exact ⟨reader, accepted, created⟩

end Unlimited

end Netx.Stream
