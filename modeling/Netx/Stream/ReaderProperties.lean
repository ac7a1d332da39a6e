import Netx.Stream.PooledReader

/-!
# The reader delivers the source's byte stream

Every operation keeps the cursors inside the working buffer and only moves
bytes from the front of the stream to the caller or from the source to its
back. Both are said by one relation, `Advances`, that composes over calls.
-/

set_option autoImplicit false

namespace Netx.Stream

namespace Reader

variable {Handle : Type}

/-- The cursors of an unreleased reader lie inside its working buffer. -/
structure Valid (reader : Reader Handle) : Prop where
  active : reader.done = false
  ordered : reader.r ≤ reader.w
  bounded : reader.w ≤ reader.data.length

@[simp] theorem setData_r (reader : Reader Handle) (bytes : List UInt8) :
    (reader.setData bytes).r = reader.r := by
  unfold setData; split <;> rfl

@[simp] theorem setData_w (reader : Reader Handle) (bytes : List UInt8) :
    (reader.setData bytes).w = reader.w := by
  unfold setData; split <;> rfl

@[simp] theorem setData_done (reader : Reader Handle) (bytes : List UInt8) :
    (reader.setData bytes).done = reader.done := by
  unfold setData; split <;> rfl

@[simp] theorem setData_err (reader : Reader Handle) (bytes : List UInt8) :
    (reader.setData bytes).err = reader.err := by
  unfold setData; split <;> rfl

@[simp] theorem setData_max (reader : Reader Handle) (bytes : List UInt8) :
    (reader.setData bytes).max = reader.max := by
  unfold setData; split <;> rfl

theorem data_setData (reader : Reader Handle) (bytes : List UInt8)
    (active : reader.done = false) : (reader.setData bytes).data = bytes := by
  unfold setData data
  cases reader.big <;> simp [active]

variable {reader : Reader Handle}

theorem Valid.length_buffered (valid : reader.Valid) : reader.buffered.length = reader.len := by
  simp [buffered, len, Nat.min_eq_left valid.bounded]

/-- The bytes in the free space that a source read returning `n` stands for. -/
def incoming (reader : Reader Handle) (n : Int) : List UInt8 :=
  if 0 ≤ n ∧ n ≤ ((reader.data.length - reader.w : Nat) : Int) then
    (reader.data.drop reader.w).take n.toNat
  else []

@[simp] theorem incoming_zero (reader : Reader Handle) : reader.incoming 0 = [] := by
  simp [incoming]

private theorem incoming_eq_nil {n : Int}
    (invalid : n < 0 ∨ n > ((reader.data.length - reader.w : Nat) : Int)) :
    reader.incoming n = [] := by
  rw [incoming, if_neg (by omega)]

/-- Advancing `w` over a valid count appends exactly the incoming bytes. -/
theorem Valid.advance {n : Int} (valid : reader.Valid)
    (counted : ¬(n < 0 ∨ n > ((reader.data.length - reader.w : Nat) : Int))) (last : Nat)
    (err : Option Error) :
    let next : Reader Handle := { reader with w := reader.w + n.toNat, last, err }
    next.Valid ∧ next.buffered = reader.buffered ++ reader.incoming n ∧
      next.len = reader.len + n.toNat := by
  have ordered := valid.ordered
  have bounded := valid.bounded
  refine ⟨⟨valid.active, ?_, ?_⟩, ?_, ?_⟩
  · show reader.r ≤ reader.w + n.toNat
    omega
  · show reader.w + n.toNat ≤ reader.data.length
    omega
  · show (reader.data.take (reader.w + n.toNat)).drop reader.r =
      (reader.data.take reader.w).drop reader.r ++ reader.incoming n
    rw [incoming, if_pos (by omega), List.take_add,
      List.drop_append_of_le_length (by simp; omega)]
  · show reader.w + n.toNat - reader.r = reader.w - reader.r + n.toNat
    omega

theorem newReader_valid {o : ReaderOptions} {hasPool : Bool}
    (accepted : newReader Handle o hasPool = some reader) :
    reader.Valid ∧ reader.buffered = [] := by
  simp only [newReader, Option.ite_none_left_eq_some, Option.some.injEq] at accepted
  obtain ⟨_, rfl⟩ := accepted
  exact ⟨⟨rfl, Nat.le_refl _, Nat.zero_le _⟩, rfl⟩

end Reader

namespace Session

variable {World Handle : Type} {env : Environment World Handle}

/-- Between the two sessions the caller was handed `out`, and exactly the
bytes that arrived from the source went to the end of the stream. -/
def Advances (before : Session World Handle) (out : List UInt8)
    (after : Session World Handle) : Prop :=
  ∃ arrived, after.received = before.received ++ arrived ∧
    out ++ after.buffered = before.buffered ++ arrived

theorem Advances.refl (session : Session World Handle) : session.Advances [] session :=
  ⟨[], by simp, by simp⟩

theorem Advances.of_same {before after : Session World Handle}
    (received : after.received = before.received)
    (buffered : after.buffered = before.buffered) : before.Advances [] after :=
  ⟨[], by simp [received], by simp [buffered]⟩

theorem Advances.trans {first second third : Session World Handle}
    {early late : List UInt8} (front : first.Advances early second)
    (back : second.Advances late third) : first.Advances (early ++ late) third := by
  obtain ⟨before, receivedBefore, movedBefore⟩ := front
  obtain ⟨after, receivedAfter, movedAfter⟩ := back
  refine ⟨before ++ after, ?_, ?_⟩
  · rw [receivedAfter, receivedBefore, List.append_assoc]
  · calc
      early ++ late ++ third.buffered = early ++ (second.buffered ++ after) := by
        rw [List.append_assoc, movedAfter]
      _ = first.buffered ++ (before ++ after) := by
        rw [← List.append_assoc, movedBefore, List.append_assoc]

variable {failure : Option Error} {n : Nat} {next session : Session World Handle}

/-- One source call changes only the free space behind the buffered bytes. -/
theorem readSource_spec {n : Int} {err : Option Error} (valid : session.reader.Valid)
    (result : session.readSource env = ((n, err), next)) :
    next.reader.Valid ∧ next.reader.len = session.reader.len ∧
      next.buffered = session.buffered ∧
      next.received = session.received ++ next.reader.incoming n := by
  unfold readSource at result
  cases read : env.read session.world
      (session.reader.data.length - session.reader.w) with
  | mk answer world =>
      simp only [read, Prod.mk.injEq] at result
      obtain ⟨⟨rfl, rfl⟩, rfl⟩ := result
      have front : (session.reader.data.take session.reader.w).length =
          session.reader.w := by
        simp [Nat.min_eq_left valid.bounded]
      have bounded := valid.bounded
      refine ⟨⟨?_, ?_, ?_⟩, ?_, ?_, ?_⟩
      · simpa using valid.active
      · simpa using valid.ordered
      · simp only [Reader.setData_w, Reader.data_setData _ _ valid.active,
          List.length_append, front, Vector.length_toList]
        omega
      · simp [Reader.len]
      · simp only [Session.buffered, Reader.buffered, Reader.setData_w, Reader.setData_r,
          Reader.data_setData _ _ valid.active]
        rw [List.take_append_of_le_length (by omega), List.take_of_length_le (by omega)]
      · simp only [received, List.flatMap_append, List.flatMap_cons, List.flatMap_nil,
          List.append_nil, SourceRead.delivered, Reader.incoming, Reader.setData_w,
          Reader.data_setData _ _ valid.active, List.length_append, front,
          Vector.length_toList, Nat.add_sub_cancel_left]
        rw [List.drop_append_of_le_length (by omega), List.drop_of_length_le (by omega),
          List.nil_append]

/-- The retry loop adds nothing to the stream but what its last read returned. -/
theorem readLoop_spec {attempts : Nat} {outcome : Option (Int × Option Error)}
    (valid : session.reader.Valid) (result : session.readLoop env attempts = (outcome, next)) :
    next.reader.Valid ∧ next.reader.len = session.reader.len ∧
      next.buffered = session.buffered ∧
      next.received = session.received ++
        next.reader.incoming ((outcome.map Prod.fst).getD 0) ∧
      ∀ n err, outcome = some (n, err) → n ≠ 0 ∨ err ≠ none := by
  induction attempts generalizing session with
  | zero =>
      cases result
      exact ⟨valid, rfl, rfl, by simp, by simp⟩
  | succ attempts ih =>
      unfold readLoop at result
      cases read : session.readSource env with
      | mk answer middle =>
          obtain ⟨n, err⟩ := answer
          simp only [read] at result
          obtain ⟨middleValid, middleLen, kept, received⟩ := readSource_spec valid read
          by_cases stops : n ≠ 0 ∨ err ≠ none
          · rw [if_pos stops] at result
            cases result
            refine ⟨middleValid, middleLen, kept, received, ?_⟩
            intro count failure same
            cases same
            exact stops
          · rw [if_neg stops] at result
            have empty : n = 0 := not_not.mp (not_or.mp stops).1
            subst n
            rw [Reader.incoming_zero, List.append_nil] at received
            rw [← middleLen, ← kept, ← received]
            exact ih middleValid result

/-- A source read through `readOnce` appends what arrived. When it reports no
error, something arrived. -/
theorem readOnce_spec (valid : session.reader.Valid)
    (result : session.readOnce env = (failure, next)) :
    next.reader.Valid ∧ session.Advances [] next ∧
      (failure = none → session.reader.len < next.reader.len) := by
  unfold readOnce at result
  cases sticky : session.reader.err with
  | some err =>
      simp only [sticky, Prod.mk.injEq] at result
      obtain ⟨rfl, rfl⟩ := result
      exact ⟨valid, .refl _, nofun⟩
  | none =>
      cases looped : session.readLoop env maxEmptyReads with
      | mk outcome middle =>
          obtain ⟨middleValid, middleLen, kept, received, stops⟩ :=
            readLoop_spec valid looped
          cases outcome with
          | none =>
              simp only [sticky, looped, Prod.mk.injEq] at result
              obtain ⟨rfl, rfl⟩ := result
              exact ⟨middleValid, .of_same (by simpa using received) kept, nofun⟩
          | some answer =>
              obtain ⟨n, err⟩ := answer
              simp only [sticky, looped] at result
              change middle.received = session.received ++ middle.reader.incoming n
                at received
              by_cases invalid :
                  n < 0 ∨ n > ((middle.reader.data.length - middle.reader.w : Nat) : Int)
              · rw [if_pos invalid] at result
                cases result
                rw [Reader.incoming_eq_nil invalid, List.append_nil] at received
                exact ⟨⟨middleValid.active, middleValid.ordered, middleValid.bounded⟩,
                  .of_same received kept, nofun⟩
              · rw [if_neg invalid] at result
                have counted : n ≠ 0 ∨ err ≠ none := stops n err rfl
                have appended : ∀ err : Option Error,
                    let reader : Reader Handle := { middle.reader with
                      w := middle.reader.w + n.toNat, last := n.toNat, err }
                    reader.Valid ∧
                      session.Advances [] { middle with reader } ∧
                      reader.len = session.reader.len + n.toNat := by
                  intro err
                  obtain ⟨nextValid, moved, grown⟩ :=
                    middleValid.advance invalid n.toNat err
                  refine ⟨nextValid, ⟨_, received, ?_⟩, by rw [grown, middleLen]⟩
                  rw [List.nil_append, ← kept]
                  exact moved
                cases err with
                | none =>
                    cases result
                    obtain ⟨nextValid, advanced, grown⟩ := appended middle.reader.err
                    refine ⟨nextValid, advanced, fun _ => ?_⟩
                    rw [grown]
                    have positive : n ≠ 0 := by simpa using counted
                    omega
                | some err =>
                    obtain ⟨nextValid, advanced, grown⟩ := appended (some err)
                    by_cases data : n > 0
                    · simp only [if_pos data] at result
                      cases result
                      refine ⟨nextValid, advanced, fun _ => ?_⟩
                      rw [grown]
                      omega
                    · simp only [if_neg data] at result
                      cases result
                      exact ⟨nextValid, advanced, nofun⟩

/-- Growing moves the buffered bytes and reads nothing from the source. -/
theorem grow_spec {need : Nat} (valid : session.reader.Valid)
    (result : session.grow env need = (failure, next)) :
    next.reader.Valid ∧ next.buffered = session.buffered ∧
      next.reads = session.reads := by
  unfold grow at result
  dsimp only at result
  split at result
  · cases result
    exact ⟨valid, rfl, rfl⟩
  · rename_i larger
    split at result
    · cases result
      exact ⟨valid, rfl, rfl⟩
    · rename_i borrowed world provided
      have room := env.get_length provided
      have fits : session.reader.buffered.length ≤ borrowed.B.length := by
        have bounded := valid.bounded
        rw [valid.length_buffered, room, Reader.len]
        omega
      cases result
      rw [List.take_of_length_le fits]
      refine ⟨⟨valid.active, Nat.zero_le _, ?_⟩, ?_, rfl⟩
      · simp [Reader.data, valid.active]
      · simp [Session.buffered, Reader.buffered, Reader.data, valid.active]

theorem data_compact {reader : Reader Handle} (valid : reader.Valid) :
    (compact reader).data = reader.buffered ++ reader.data.drop reader.buffered.length :=
  reader.data_setData _ valid.active

theorem compact_spec {reader : Reader Handle} (valid : reader.Valid) :
    (compact reader).Valid ∧ (compact reader).buffered = reader.buffered := by
  have fits : reader.buffered.length ≤ reader.data.length := by
    rw [Reader.buffered, List.length_drop, List.length_take]
    omega
  have moved := data_compact valid
  refine ⟨⟨by simpa [compact] using valid.active, Nat.zero_le _, ?_⟩, ?_⟩
  · rw [moved]
    simp [compact]
  · rw [Reader.buffered, moved]
    simp [compact]

theorem ensure_spec (valid : session.reader.Valid)
    (result : session.ensure env n = (failure, next)) :
    next.reader.Valid ∧ next.buffered = session.buffered ∧
      next.reads = session.reads := by
  unfold ensure at result
  dsimp only at result
  split at result
  · cases result
    exact ⟨valid, rfl, rfl⟩
  · split at result
    · exact grow_spec valid result
    · split at result
      · cases result
        exact ⟨valid, rfl, rfl⟩
      · split at result
        · obtain ⟨compacted, kept⟩ := compact_spec valid
          split at result
          · cases result
            exact ⟨compacted, kept, rfl⟩
          · obtain ⟨nextValid, same, reads⟩ := grow_spec compacted result
            exact ⟨nextValid, same.trans kept, reads⟩
        · exact grow_spec valid result

private theorem ensure_advances (valid : session.reader.Valid)
    (result : session.ensure env n = (failure, next)) :
    next.reader.Valid ∧ session.Advances [] next := by
  obtain ⟨nextValid, kept, reads⟩ := ensure_spec valid result
  exact ⟨nextValid, .of_same (by rw [received, received, reads]) kept⟩

theorem ensure_len (valid : session.reader.Valid)
    (result : session.ensure env n = (failure, next)) :
    next.reader.len = session.reader.len := by
  obtain ⟨nextValid, kept, _⟩ := ensure_spec valid result
  rw [← nextValid.length_buffered, ← valid.length_buffered]
  exact congrArg List.length kept

private theorem peekLoop_advances {rounds : Nat} {reply : List UInt8 × Option Error}
    (valid : session.reader.Valid) (result : session.peekLoop env n rounds = (reply, next)) :
    next.reader.Valid ∧ session.Advances [] next := by
  induction rounds generalizing session with
  | zero =>
      unfold peekLoop at result
      split at result <;> cases result <;> exact ⟨valid, .refl _⟩
  | succ rounds ih =>
      unfold peekLoop at result
      split at result
      · cases ensured : session.ensure env n with
        | mk refused roomy =>
            obtain ⟨roomyValid, roomyAdvanced⟩ := ensure_advances valid ensured
            cases refused with
            | some err =>
                simp only [ensured] at result
                cases result
                exact ⟨roomyValid, roomyAdvanced⟩
            | none =>
                cases read : roomy.readOnce env with
                | mk failure filled =>
                    obtain ⟨filledValid, filledAdvanced, _⟩ :=
                      readOnce_spec roomyValid read
                    have advanced : session.Advances [] filled :=
                      roomyAdvanced.trans filledAdvanced
                    cases failure with
                    | none =>
                        simp only [ensured, read] at result
                        obtain ⟨nextValid, remaining⟩ := ih filledValid result
                        exact ⟨nextValid, advanced.trans remaining⟩
                    | some err =>
                        simp only [ensured, read] at result
                        split at result <;> cases result <;>
                          exact ⟨filledValid, advanced⟩
      · cases result
        exact ⟨valid, .refl _⟩

/-- The rounds `peek` allows are never used up: more of them change nothing. -/
theorem peekLoop_rounds {rounds : Nat} (more : Nat) (valid : session.reader.Valid)
    (enough : n ≤ session.reader.len + rounds) :
    session.peekLoop env n (rounds + more) = session.peekLoop env n rounds := by
  induction rounds generalizing session with
  | zero =>
      have full : ¬session.reader.len < n := by omega
      unfold peekLoop
      rw [if_neg full, if_neg full]
  | succ rounds ih =>
      rw [Nat.add_right_comm]
      unfold peekLoop
      split
      · cases ensured : session.ensure env n with
        | mk refused roomy =>
            cases refused with
            | some err => rfl
            | none =>
                dsimp only
                obtain ⟨roomyValid, _⟩ := ensure_advances valid ensured
                have sameLen := ensure_len valid ensured
                cases read : roomy.readOnce env with
                | mk failure filled =>
                    obtain ⟨filledValid, _, progress⟩ := readOnce_spec roomyValid read
                    cases failure with
                    | none =>
                        have gained := progress rfl
                        exact ih filledValid (by omega)
                    | some err => rfl
      · rfl

private theorem peek_advances {n : Int} {reply : List UInt8 × Option Error}
    (valid : session.reader.Valid) (result : session.peek env n = (reply, next)) :
    next.reader.Valid ∧ session.Advances [] next := by
  unfold peek at result
  split at result
  · cases result
    exact ⟨valid, .refl _⟩
  · split at result
    · cases result
      exact ⟨valid, .refl _⟩
    · split at result
      · cases result
        exact ⟨valid, .refl _⟩
      · exact peekLoop_advances valid result

private theorem fill_advances (valid : session.reader.Valid)
    (result : session.fill env = (failure, next)) :
    next.reader.Valid ∧ session.Advances [] next := by
  unfold fill at result
  split at result
  · cases result
    exact ⟨valid, .refl _⟩
  · cases ensured : session.ensure env (session.reader.len + 1) with
    | mk refused roomy =>
        obtain ⟨roomyValid, roomyAdvanced⟩ := ensure_advances valid ensured
        cases refused with
        | some err =>
            simp only [ensured] at result
            cases result
            exact ⟨roomyValid, roomyAdvanced⟩
        | none =>
            simp only [ensured] at result
            obtain ⟨nextValid, advanced, _⟩ := readOnce_spec roomyValid result
            exact ⟨nextValid, roomyAdvanced.trans advanced⟩

private theorem shrink_spec (env : Environment World Handle) (session : Session World Handle)
    (active : session.reader.done = false) (emptied : session.reader.r = 0 ∧ session.reader.w = 0) :
    (session.shrink env).reader.Valid ∧ (session.shrink env).buffered = [] ∧
      (session.shrink env).reads = session.reads := by
  obtain ⟨front, back⟩ := emptied
  unfold shrink
  cases session.reader.big <;>
    exact ⟨⟨active, by simp [front, back], by simp [back]⟩,
      by simp [Session.buffered, Reader.buffered, back], rfl⟩

/-- `Discard` takes the bytes it counts off the front and no others. -/
theorem discard_spec {n : Int} {count : Nat} (valid : session.reader.Valid)
    (result : session.discard env n = (count, next)) :
    next.reader.Valid ∧ next.reads = session.reads ∧
      count = min n.toNat session.reader.len ∧
      session.buffered.take count ++ next.buffered = session.buffered := by
  have ordered := valid.ordered
  unfold discard at result
  split at result
  · cases result
    exact ⟨valid, rfl, by omega, by simp⟩
  · dsimp only at result
    split at result
    · rename_i emptied
      have whole : session.reader.buffered.length ≤ min n.toNat session.reader.len := by
        rw [valid.length_buffered]
        simp only [Reader.len] at emptied ⊢
        omega
      split at result
      · cases result
        obtain ⟨nextValid, empty, reads⟩ := shrink_spec env { session with
          reader := { session.reader with r := 0, w := 0 } } valid.active ⟨rfl, rfl⟩
        refine ⟨nextValid, reads, rfl, ?_⟩
        rw [Session.buffered, List.take_of_length_le whole]
        exact (congrArg _ empty).trans (List.append_nil _)
      · cases result
        refine ⟨⟨valid.active, Nat.le_refl _, Nat.zero_le _⟩, rfl, rfl, ?_⟩
        rw [Session.buffered, List.take_of_length_le whole]
        simp [Session.buffered, Reader.buffered]
    · cases result
      have within : min n.toNat session.reader.len ≤ session.reader.w - session.reader.r :=
        Nat.min_le_right _ _
      refine ⟨⟨valid.active, ?_, valid.bounded⟩, rfl, rfl, ?_⟩
      · show session.reader.r + min n.toNat session.reader.len ≤ session.reader.w
        omega
      · show session.reader.buffered.take _ ++
          (session.reader.data.take session.reader.w).drop
            (session.reader.r + min n.toNat session.reader.len) = session.reader.buffered
        rw [← List.drop_drop]
        exact List.take_append_drop _ _

private theorem deliver_advances (env : Environment World Handle) (size : Nat)
    (valid : session.reader.Valid) : let copied := session.buffered.take size
    let next := (session.discard env copied.length).2
    next.reader.Valid ∧ session.Advances copied next := by
  intro copied next
  cases result : session.discard env copied.length with
  | mk count after =>
      obtain ⟨nextValid, reads, counted, split⟩ := discard_spec valid result
      have all : session.buffered.take count = copied := by
        have total : session.buffered.length = session.reader.len := valid.length_buffered
        rw [counted, Int.toNat_natCast, ← total, List.length_take, Nat.min_assoc,
          Nat.min_self, ← List.take_take, List.take_length]
      have same : next = after := congrArg Prod.snd result
      rw [same]
      refine ⟨nextValid, [], by rw [received, received, reads, List.append_nil], ?_⟩
      rw [← all, split, List.append_nil]

private theorem read_advances {size : Nat} {copied : List UInt8} (valid : session.reader.Valid)
    (result : session.read env size = ((copied, failure), next)) :
    next.reader.Valid ∧ session.Advances copied next := by
  unfold read at result
  dsimp only at result
  split at result
  · cases result
    exact ⟨valid, .refl _⟩
  · split at result
    · cases result
      exact ⟨valid, .refl _⟩
    · split at result
      · cases once : session.readOnce env with
        | mk refused filled =>
            obtain ⟨filledValid, filledAdvanced, _⟩ := readOnce_spec valid once
            have delivered := deliver_advances env size filledValid
            cases refused with
            | some err =>
                simp only [once] at result
                split at result
                · cases result
                  exact ⟨filledValid, filledAdvanced⟩
                · cases result
                  exact ⟨delivered.1, filledAdvanced.trans delivered.2⟩
            | none =>
                simp only [once] at result
                cases result
                exact ⟨delivered.1, filledAdvanced.trans delivered.2⟩
      · cases result
        exact deliver_advances env size valid

/-- One call before `Release` hands out bytes from the front of the stream and
appends what the source delivered meanwhile. -/
theorem call_advances {request : Call} {reply : Reply} (kept : request ≠ .release)
    (valid : session.reader.Valid) (result : session.call env request = (reply, next)) :
    next.reader.Valid ∧ session.Advances (session.taken request reply) next := by
  cases request with
  | peek n =>
      cases result
      exact peek_advances valid rfl
  | fill =>
      cases result
      exact fill_advances valid rfl
  | read size =>
      cases result
      exact read_advances valid rfl
  | discard n =>
      cases discarded : session.discard env n with
      | mk count after =>
          simp only [call, discarded] at result
          cases result
          obtain ⟨nextValid, reads, _, split⟩ := discard_spec valid discarded
          refine ⟨nextValid, [], by rw [received, received, reads, List.append_nil], ?_⟩
          rw [List.append_nil]
          exact split
  | buffered =>
      cases result
      exact ⟨valid, .refl _⟩
  | release => exact absurd rfl kept

theorem run_advances (env : Environment World Handle) (calls : List Call) (kept : .release ∉ calls)
    (valid : session.reader.Valid) :
    (session.run env calls).2.reader.Valid ∧
      session.Advances (session.run env calls).1 (session.run env calls).2 := by
  induction calls generalizing session with
  | nil => exact ⟨valid, .refl _⟩
  | cons request rest ih =>
      cases called : session.call env request with
      | mk reply next =>
          obtain ⟨unreleased, later⟩ := List.ne_and_not_mem_of_not_mem_cons kept
          obtain ⟨nextValid, advanced⟩ := call_advances unreleased.symm valid called
          obtain ⟨finalValid, remaining⟩ := ih later nextValid
          simp only [run, called]
          exact ⟨finalValid, advanced.trans remaining⟩

/-- For every environment, every accepted configuration and every sequence of
calls before `Release`, the consumed bytes followed by the buffered ones are
the concatenation of what all valid source reads delivered. -/
theorem reader_delivers_source_stream (env : Environment World Handle) (world : World)
    {o : ReaderOptions} {hasPool : Bool} {reader : Reader Handle}
    (accepted : Reader.newReader Handle o hasPool = some reader)
    (calls : List Call) (kept : .release ∉ calls) :
    ((start reader world).run env calls).1 ++
        ((start reader world).run env calls).2.buffered =
      ((start reader world).run env calls).2.received := by
  obtain ⟨valid, empty⟩ := Reader.newReader_valid accepted
  have started : (start reader world).reader.Valid := valid
  obtain ⟨_, arrived, received, moved⟩ := run_advances env calls kept started
  have fresh : (start reader world).buffered = [] := empty
  rw [moved, received, fresh]
  rfl

/-- A source that returns one byte at a time, over a pool whose budget refuses
every buffer above the idle one. -/
theorem reader_delivers_source_stream_refused :
    let env := PooledWorld.environment fun (next : UInt8) size =>
      (⟨Vector.replicate size next, 1, none⟩, next + 1)
    let world : PooledWorld UInt8 :=
      ⟨1, Buf.Pool.newPool (some { max := 63, used := 0 }), []⟩
    let calls : List Call := [.peek 3, .read 1, .fill, .discard 5, .fill]
    ∃ reader, Reader.newReader Buf.Buf ⟨2, 8⟩ true = some reader ∧
      ((start reader world).run env calls).1 = [1, 2] ∧
      ((start reader world).run env calls).1 ++
          ((start reader world).run env calls).2.buffered =
        ((start reader world).run env calls).2.received := by
  intro env world calls
  have accepted : Reader.newReader Buf.Buf ⟨2, 8⟩ true = some _ := rfl
  exact ⟨_, accepted, by decide,
    reader_delivers_source_stream env world accepted calls (by decide)⟩

end Session

end Netx.Stream
