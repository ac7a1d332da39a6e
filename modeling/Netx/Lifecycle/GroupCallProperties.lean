import Netx.Lifecycle.GroupCall

/-!
# A group waits for its members and joins their errors

The wait group counts the goroutines that are still alive, so the call gets past
`Wait` only when each has called its member once, stored what it returned and, in
`Serve`, aborted the others if that was an error.
-/

set_option autoImplicit false

namespace Netx.Lifecycle

open Errors Transition

variable {Service : Type}

/-- What the goroutine adds to the wait group. -/
def Goroutine.alive : Goroutine Service → ℤ
  | .unborn => 0
  | .gone => 0
  | _ => 1

theorem Goroutine.born_of_alive {point : Goroutine Service} (alive : point.alive = 1) :
    point ≠ .unborn := by
  intro unborn
  rw [unborn] at alive
  cases alive

/-- How many steps of a goroutine are left, at most. -/
def Goroutine.left : Goroutine Service → Nat
  | .unborn => 7
  | .starting _ => 6
  | .inside => 5
  | .ended _ => 4
  | .stored => 3
  | .aborting => 2
  | .counting => 1
  | .gone => 0

def Main.left (total : Nat) : Main Service → Nat
  | .add i => 2 * (total - i) + 4
  | .go i _ => 2 * (total - i) + 3
  | .wait => 3
  | .deferred _ => 2
  | .leaving _ => 1
  | .returned _ => 0

def Main.result : Main Service → Option (Option Err)
  | .deferred result => some result
  | .leaving result => some result
  | .returned result => some result
  | _ => none

/-- `Serve` has run its deferred `abort`. -/
def Main.Leaves : Main Service → Prop
  | .leaving _ => True
  | .returned _ => True
  | _ => False

/-- How many goroutines a call that stands here has started, of `total`. -/
def Main.started (total : Nat) : Main Service → Nat
  | .add i => i
  | .go i _ => i
  | _ => total

/-- What the call has added for a goroutine that is not started yet. -/
def Main.adding : Main Service → ℤ
  | .go _ _ => 1
  | _ => 0

/-- The loop runs over the group, and only `Serve` defers anything. -/
def Main.Fits (group : List Service) (m : Method) : Main Service → Prop
  | .add i => i ≤ group.length
  | .go i service => group[i]? = some service
  | .deferred _ => m = .serve
  | _ => True

theorem Main.Fits.started_le {group : List Service} {m : Method} {main : Main Service}
    (fits : main.Fits group m) : main.started group.length ≤ group.length := by
  cases main with
  | add i => exact fits
  | go i service => exact (List.getElem?_eq_some_iff.mp fits).1.le
  | _ => exact le_rfl

/-- What a member's goroutine has done by the time it stands somewhere. `slot` is
its entry in the slice of errors. -/
def Member.Fits (m : Method) (listed : Option Service) (slot : Option Err) (derived : Bool)
    (member : Member Service) : Prop :=
  match member.point with
  | .unborn => member.calls = [] ∧ member.results = []
  | .starting service => listed = some service ∧ member.calls = [] ∧ member.results = []
  | .inside => member.calls = listed.toList.map (·, m.context) ∧ member.results = []
  | .ended err => member.calls = listed.toList.map (·, m.context) ∧ member.results = [err]
  | .stored => member.calls = listed.toList.map (·, m.context) ∧ member.results = [slot]
  | .aborting => member.calls = listed.toList.map (·, m.context) ∧ member.results = [slot] ∧
      m = .serve ∧ slot.isSome = true
  | _ => member.calls = listed.toList.map (·, m.context) ∧ member.results = [slot] ∧
      (m = .serve → slot.isSome = true → derived = true)

theorem Member.Fits.derive {m : Method} {listed : Option Service} {slot : Option Err}
    {before after : Bool} {member : Member Service} (fits : member.Fits m listed slot before)
    (grows : before = true → after = true) : member.Fits m listed slot after := by
  unfold Member.Fits at fits ⊢
  split at fits
  all_goals first | exact fits | skip
  obtain ⟨called, stored, aborts⟩ := fits
  exact ⟨called, stored, fun serving failed => grows (aborts serving failed)⟩

namespace GroupCall

/-- What holds in every state of a call. -/
structure Sound (group : List Service) (m : Method) (s : GroupCall Service) : Prop where
  sized : s.errs.length = group.length
  main : s.main.Fits group m
  born : ∀ i, (s.member i).point = .unborn ↔ s.main.started group.length ≤ i
  member : ∀ i, (s.member i).Fits m group[i]? (s.err i) s.derived
  counted : s.wg = tally (Finset.range group.length) s.member (·.point.alive) + s.main.adding
  ended : ∀ result, s.main.result = some result → result = join s.errs ∧
    ∀ i < group.length, (s.member i).point = .gone
  cancelled : s.derived = true → m = .serve ∧
    (s.given = true ∨ (∃ i err, (s.member i).results = [some err]) ∨ s.main.Leaves)

variable {group : List Service} {m : Method} {s s' : GroupCall Service} {act : GroupAct}

theorem start_sound (given : Bool) : Sound group m (start group m given) where
  sized := List.length_replicate
  main := Nat.zero_le _
  born := fun _ => iff_of_true rfl (Nat.zero_le _)
  member := fun _ => ⟨rfl, rfl⟩
  counted := by
    have none : tally (Finset.range group.length) (start group m given).member
        (·.point.alive) = 0 := Finset.sum_eq_zero fun _ _ => rfl
    rw [none]
    rfl
  ended := nofun
  cancelled := by
    intro cancelled
    have both : m = .serve ∧ given = true := by simpa [start] using cancelled
    exact ⟨both.1, .inl both.2⟩

variable {result : Option Err} {i : Nat}

theorem Sound.listed (sound : Sound group m s) (born : (s.member i).point ≠ .unborn) :
    i < s.main.started group.length :=
  not_le.mp fun late => born ((sound.born i).mpr late)

theorem Sound.ending (sound : Sound group m s) (alive : (s.member i).point.alive = 1) :
    i < group.length ∧ s.main.result = none := by
  have inside := (sound.listed (Goroutine.born_of_alive alive)).trans_le sound.main.started_le
  refine ⟨inside, ?_⟩
  cases result : s.main.result with
  | none => rfl
  | some result =>
      rw [(sound.ended _ result).2 i inside] at alive
      cases alive

/-- A step of a member's goroutine, or of the member, that leaves it alive or
counts it down. -/
theorem Sound.change {member : Member Service} {errs : List (Option Err)} {wg : Int}
    {derived : Bool} (sound : Sound group m s) (alive : (s.member i).point.alive = 1)
    (born : member.point ≠ .unborn) (sized : errs.length = s.errs.length)
    (others : ∀ j, j ≠ i → errs.getD j none = s.err j) (grows : s.derived = true → derived = true)
    (fits : member.Fits m group[i]? (errs.getD i none) derived)
    (counted : wg = s.wg - 1 + member.point.alive)
    (kept : ∀ err, (s.member i).results = [some err] → member.results = [some err])
    (cancelled : derived = true →
      s.derived = true ∨ m = .serve ∧ ∃ err, member.results = [some err]) :
    Sound group m
      { s with member := Function.update s.member i member, errs, wg, derived } := by
  obtain ⟨inside, running⟩ := sound.ending alive
  have failed : ∀ j err, (s.member j).results = [some err] →
      (Function.update s.member i member j).results = [some err] := by
    intro j err known
    by_cases same : j = i
    · subst same
      rw [Function.update_self]
      exact kept err known
    · rwa [Function.update_of_ne same]
  refine ⟨sized.trans sound.sized, sound.main, ?_, ?_, ?_, ?_, ?_⟩
  · intro j
    simp only [Function.update_apply]
    split_ifs with same
    · subst same
      exact iff_of_false born (not_le.mpr (sound.listed (Goroutine.born_of_alive alive)))
    · exact sound.born j
  · intro j
    by_cases same : j = i
    · subst same
      simpa only [Function.update_self, err] using fits
    · have before := (sound.member j).derive grows
      simp only [Function.update_of_ne same, err, others j same]
      exact before
  · rw [counted, sound.counted, tally_change _ _ (Finset.mem_range.mpr inside), alive]
    dsimp only
    omega
  · intro result ended
    rw [running] at ended
    cases ended
  · intro aborted
    rcases cancelled aborted with before | ⟨serving, err, known⟩
    · obtain ⟨serving, given | ⟨j, err, known⟩ | leaves⟩ := sound.cancelled before
      · exact ⟨serving, .inl given⟩
      · exact ⟨serving, .inr (.inl ⟨j, err, failed j err known⟩)⟩
      · exact ⟨serving, .inr (.inr leaves)⟩
    · exact ⟨serving, .inr (.inl ⟨i, err, by simpa using known⟩)⟩

theorem Sound.advance {member : Member Service} (sound : Sound group m s)
    (alive : (s.member i).point.alive = 1) (stays : member.point.alive = 1)
    (fits : member.Fits m group[i]? (s.err i) s.derived)
    (kept : ∀ err, (s.member i).results = [some err] → member.results = [some err]) :
    Sound group m (s.setMember i member) := by
  exact sound.change alive (Goroutine.born_of_alive stays) rfl (fun _ _ => rfl) id fits
    (by rw [stays]; omega) kept .inl

private theorem err_set (sound : Sound group m s) (inside : i < group.length) (err : Option Err) :
    (s.errs.set i err).getD i none = err := by
  simp [sound.sized, inside]

private theorem err_set_of_ne {j : Nat} (different : j ≠ i) (err : Option Err) :
    (s.errs.set i err).getD j none = s.err j := by
  simp [GroupCall.err, Ne.symm different]

/-- A step that starts no goroutine and changes none. -/
theorem Sound.stay {main : Main Service} {wg : Int} {given derived : Bool}
    (sound : Sound group m s) (fits : main.Fits group m)
    (started : main.started group.length = s.main.started group.length)
    (counted : wg = s.wg - s.main.adding + main.adding)
    (ended : ∀ result, main.result = some result → result = join s.errs ∧
      ∀ i < group.length, (s.member i).point = .gone)
    (grows : s.derived = true → derived = true)
    (cancelled : derived = true → m = .serve ∧
      (given = true ∨ (∃ i err, (s.member i).results = [some err]) ∨ main.Leaves)) :
    Sound group m { s with main, wg, given, derived } where
  sized := sound.sized
  main := fits
  born := fun i => by rw [started]; exact sound.born i
  member := fun i => (sound.member i).derive grows
  counted := by
    rw [counted, sound.counted]
    dsimp only
    omega
  ended := ended
  cancelled := cancelled

theorem Sound.cancelled_before {main : Main Service} (sound : Sound group m s)
    (early : ¬s.main.Leaves) (cancelled : s.derived = true) : m = .serve ∧
      (s.given = true ∨ (∃ i err, (s.member i).results = [some err]) ∨ main.Leaves) := by
  obtain ⟨serving, given | failed | leaves⟩ := sound.cancelled cancelled
  · exact ⟨serving, .inl given⟩
  · exact ⟨serving, .inr (.inl failed)⟩
  · exact absurd leaves early

theorem Sound.start_goroutine {service : Service} (sound : Sound group m s)
    (here : s.main = .go i service) :
    Sound group m { s.setPoint i (.starting service) with main := .add (i + 1) } := by
  have listed : group[i]? = some service := by
    have fits := sound.main
    rwa [here] at fits
  obtain ⟨inside, _⟩ := List.getElem?_eq_some_iff.mp listed
  have unborn : (s.member i).point = .unborn := (sound.born i).mpr (by rw [here]; exact le_rfl)
  refine ⟨sound.sized, inside, ?_, ?_, ?_, nofun, ?_⟩
  · intro j
    have before := sound.born j
    rw [here] at before
    by_cases same : j = i
    · subst same
      simp [setPoint, setMember, Main.started]
    · simp only [setPoint, setMember, Function.update_of_ne same, before, Main.started]
      omega
  · intro j
    by_cases same : j = i
    · subst same
      have fits := sound.member j
      simp only [Member.Fits, unborn] at fits
      simp only [setPoint, setMember, Function.update_self]
      exact ⟨listed, fits⟩
    · simp only [setPoint, setMember, Function.update_of_ne same]
      exact sound.member j
  · have counted := sound.counted
    rw [here] at counted
    simp only [setPoint, setMember]
    rw [tally_change _ _ (Finset.mem_range.mpr inside), unborn, counted]
    simp [Goroutine.alive, Main.adding]
  · intro cancelled
    obtain ⟨serving, given | ⟨j, err, known⟩ | leaves⟩ := sound.cancelled cancelled
    · exact ⟨serving, .inl given⟩
    · refine ⟨serving, .inr (.inl ⟨j, err, ?_⟩)⟩
      by_cases same : j = i
      · subst same
        simpa [setPoint, setMember] using known
      · simpa [setPoint, setMember, same] using known
    · rw [here] at leaves
      exact leaves.elim

/-- Once the wait group is down to zero, every goroutine has come and gone. -/
theorem Sound.all_gone (sound : Sound group m s) (here : s.main = .wait) (none : s.wg = 0) :
    ∀ i < group.length, (s.member i).point = .gone := by
  have counted := sound.counted
  rw [here, none] at counted
  have total : ∑ i ∈ Finset.range group.length, (s.member i).point.alive = 0 := by
    simpa [Main.adding, tally] using counted.symm
  have positive : ∀ i ∈ Finset.range group.length, 0 ≤ (s.member i).point.alive := by
    intro i _
    cases (s.member i).point <;> simp [Goroutine.alive]
  intro i inside
  have dead := (Finset.sum_eq_zero_iff_of_nonneg positive).mp total i (Finset.mem_range.mpr inside)
  have born : (s.member i).point ≠ .unborn := by
    intro unborn
    have late := (sound.born i).mp unborn
    rw [here] at late
    exact absurd late (not_le.mpr inside)
  cases point : (s.member i).point with
  | gone => rfl
  | unborn => exact absurd point born
  | _ => simp [point, Goroutine.alive] at dead

/-- Every step keeps a call sound. -/
theorem Moves.sound (moved : Moves group m s act s') (sound : Sound group m s) :
    Sound group m s' := by
  cases moved with
  | add i service here listed =>
      refine sound.stay listed (by rw [here]; rfl) (by rw [here]; simp [Main.adding]) nofun id ?_
      exact sound.cancelled_before (by rw [here]; exact id)
  | all i here unlisted =>
      have last : i = group.length := by
        have fits := sound.main
        rw [here] at fits
        exact le_antisymm fits (List.getElem?_eq_none_iff.mp unlisted)
      refine sound.stay trivial (by rw [here]; exact last.symm)
        (by rw [here]; simp [Main.adding]) nofun id ?_
      exact sound.cancelled_before (by rw [here]; exact id)
  | go i service here => exact sound.start_goroutine here
  | joins main here none either =>
      have gone := sound.all_gone here none
      have early : ¬s.main.Leaves := by rw [here]; exact id
      rcases either with ⟨serving, rfl⟩ | ⟨stopping, rfl⟩
      · refine sound.stay serving (by rw [here]; rfl) (by rw [here]; simp [Main.adding]) ?_ id
          (sound.cancelled_before early)
        rintro _ ⟨⟩
        exact ⟨rfl, gone⟩
      · refine sound.stay trivial (by rw [here]; rfl) (by rw [here]; simp [Main.adding]) ?_ id
          (sound.cancelled_before early)
        rintro _ ⟨⟩
        exact ⟨rfl, gone⟩
  | deferred result here =>
      have serving : m = .serve := by
        have fits := sound.main
        rwa [here] at fits
      refine sound.stay trivial (by rw [here]; rfl) (by rw [here]; simp [Main.adding]) ?_
        (fun _ => rfl) fun _ => ⟨serving, .inr (.inr trivial)⟩
      rintro _ ⟨⟩
      exact sound.ended result (by rw [here]; rfl)
  | leaves result here =>
      refine sound.stay trivial (by rw [here]; rfl) (by rw [here]; simp [Main.adding]) ?_ id ?_
      · rintro _ ⟨⟩
        exact sound.ended result (by rw [here]; rfl)
      · intro cancelled
        obtain ⟨serving, given | failed | _⟩ := sound.cancelled cancelled
        · exact ⟨serving, .inl given⟩
        · exact ⟨serving, .inr (.inl failed)⟩
        · exact ⟨serving, .inr (.inr trivial)⟩
  | calls i service here =>
      have fits := sound.member i
      simp only [Member.Fits, here] at fits
      obtain ⟨listed, uncalled, unended⟩ := fits
      refine sound.advance (by rw [here]; rfl) rfl ⟨?_, unended⟩ fun err known => known
      rw [listed, uncalled]
      rfl
  | returns i err here =>
      have fits := sound.member i
      simp only [Member.Fits, here] at fits
      obtain ⟨called, unended⟩ := fits
      refine sound.advance (by rw [here]; rfl) rfl ⟨called, ?_⟩ ?_
      · rw [unended]
        rfl
      · rw [unended]
        exact nofun
  | stores i err here =>
      have alive : (s.member i).point.alive = 1 := by rw [here]; rfl
      have fits := sound.member i
      simp only [Member.Fits, here] at fits
      refine sound.change alive nofun List.length_set (fun _ other => err_set_of_ne other err) id
        ?_ (by simp [setPoint, setMember, Goroutine.alive]) (fun _ known => known) .inl
      rw [err_set sound (sound.ending alive).1]
      exact fits
  | fails i err here serving slot =>
      have fits := sound.member i
      simp only [Member.Fits, here] at fits
      exact sound.advance (by rw [here]; rfl) rfl
        ⟨fits.1, fits.2, serving, by rw [slot]; rfl⟩ fun _ known => known
  | passes i here clean =>
      have fits := sound.member i
      simp only [Member.Fits, here] at fits
      refine sound.advance (by rw [here]; rfl) rfl ⟨fits.1, fits.2, ?_⟩ fun _ known => known
      intro serving failed
      rw [clean serving] at failed
      cases failed
  | aborts i here =>
      have fits := sound.member i
      simp only [Member.Fits, here] at fits
      obtain ⟨called, stored, serving, failed⟩ := fits
      obtain ⟨err, slot⟩ := Option.isSome_iff_exists.mp failed
      refine sound.change (by rw [here]; rfl) nofun rfl (fun _ _ => rfl) (fun _ => rfl)
        ⟨called, stored, fun _ _ => rfl⟩ (by simp [setPoint, setMember, Goroutine.alive])
        (fun _ known => known) fun _ => .inr ⟨serving, err, ?_⟩
      rw [← slot]
      exact stored
  | counts i here =>
      have fits := sound.member i
      simp only [Member.Fits, here] at fits
      exact sound.change (by rw [here]; rfl) nofun rfl (fun _ _ => rfl) id fits
        (by simp [Goroutine.alive]) (fun _ known => known) .inl
  | cancel fresh =>
      refine sound.stay sound.main rfl (by omega) sound.ended id fun cancelled => ?_
      exact ⟨(sound.cancelled cancelled).1, .inl rfl⟩
  | propagate serving cancelled fresh =>
      exact sound.stay sound.main rfl (by omega) sound.ended (fun _ => rfl) fun _ =>
        ⟨serving, .inl cancelled⟩

theorem reachable_sound (reached : (calls group m).Reachable s) : Sound group m s := by
  refine reached.invariant (Sound group m) ?_ ?_
  · rintro _ ⟨given, rfl⟩
    exact start_sound given
  · intro before act next _ sound stepped
    exact (step_moves stepped).sound sound

/-- How many steps of a call are left, at most. -/
def left (group : List Service) (s : GroupCall Service) : Nat :=
  s.main.left group.length +
    tally (Finset.range group.length) s.member (·.point.left) +
    (!s.given).toNat + (!s.derived).toNat

private theorem left_change {member : Member Service} (sound : Sound group m s)
    (alive : (s.member i).point.alive = 1) (main : s'.main = s.main)
    (changed : s'.member = Function.update s.member i member) (given : s'.given = s.given)
    (grows : s.derived = true → s'.derived = true)
    (less : member.point.left < (s.member i).point.left) : left group s' < left group s := by
  have inside := Finset.mem_range.mpr (sound.ending alive).1
  have fewer : (!s'.derived).toNat ≤ (!s.derived).toNat := by
    cases kept : s.derived with
    | true => rw [grows kept]
    | false => exact Bool.toNat_le _
  unfold left
  rw [main, changed, given, tally_update _ _ inside, @tally_split _ _ _ _ _ _ s.member i
    (·.point.left) inside]
  omega

/-- Every step uses up one of those that are left. -/
theorem Moves.left_lt (moved : Moves group m s act s') (sound : Sound group m s) :
    left group s' < left group s := by
  have fits := sound.main
  cases moved with
  | add i service here listed =>
      simp only [left, here, Main.left]
      omega
  | all i here unlisted =>
      simp only [left, here, Main.left]
      omega
  | go i service here =>
      rw [here] at fits
      have inside := (List.getElem?_eq_some_iff.mp fits).1
      have unborn : (s.member i).point = .unborn :=
        (sound.born i).mpr (by rw [here]; exact le_rfl)
      simp only [left, here, Main.left, setPoint, setMember]
      rw [tally_update _ _ (Finset.mem_range.mpr inside), @tally_split _ _ _ _ _ _ s.member i
        (·.point.left) (Finset.mem_range.mpr inside), unborn]
      simp only [Goroutine.left]
      omega
  | joins main here none either =>
      rcases either with ⟨_, rfl⟩ | ⟨_, rfl⟩ <;>
        (simp only [left, here, Main.left]; omega)
  | deferred result here =>
      simp only [left, here, Main.left, Bool.not_true, Bool.toNat_false]
      omega
  | leaves result here =>
      simp only [left, here, Main.left]
      omega
  | calls i service here =>
      exact left_change sound (by rw [here]; rfl) rfl rfl rfl id (by simp [here, Goroutine.left])
  | returns i err here =>
      exact left_change sound (by rw [here]; rfl) rfl rfl rfl id (by simp [here, Goroutine.left])
  | stores i err here =>
      exact left_change sound (by rw [here]; rfl) rfl rfl rfl id (by simp [here, Goroutine.left])
  | fails i err here _ _ =>
      exact left_change sound (by rw [here]; rfl) rfl rfl rfl id (by simp [here, Goroutine.left])
  | passes i here _ =>
      exact left_change sound (by rw [here]; rfl) rfl rfl rfl id (by simp [here, Goroutine.left])
  | aborts i here =>
      exact left_change sound (by rw [here]; rfl) rfl rfl rfl (fun _ => rfl)
        (by simp [here, Goroutine.left])
  | counts i here =>
      exact left_change sound (by rw [here]; rfl) rfl rfl rfl id (by simp [here, Goroutine.left])
  | cancel fresh =>
      simp only [left, fresh, Bool.not_true, Bool.not_false, Bool.toNat_false, Bool.toNat_true]
      omega
  | propagate _ _ fresh =>
      simp only [left, fresh, Bool.not_true, Bool.not_false, Bool.toNat_false, Bool.toNat_true]
      omega

private theorem exec_length_le {actions : List GroupAct} (reached : (calls group m).Reachable s)
    (executed : (calls group m).exec s actions = some s') :
    left group s' + actions.length ≤ left group s := by
  induction actions generalizing s with
  | nil =>
      cases executed
      exact le_rfl
  | cons act rest ih =>
      obtain ⟨next, stepped, remaining⟩ := Option.bind_eq_some_iff.mp executed
      have less := (step_moves stepped).left_lt (reachable_sound reached)
      have bound := ih (reached.step stepped) remaining
      rw [List.length_cons]
      omega

private theorem goroutine_moves_on (alive : (s.member i).point.alive ≠ 0)
    (idle : (s.member i).point ≠ .inside) : ∃ next, s.goroutine m i = some next := by
  unfold goroutine
  cases here : (s.member i).point with
  | unborn | gone => simp [here, Goroutine.alive] at alive
  | inside => exact absurd here idle
  | stored => cases m <;> exact ⟨_, rfl⟩
  | _ => exact ⟨_, rfl⟩

/-- The call or one of its goroutines can move, unless a member is still at work. -/
theorem Sound.can_move (sound : Sound group m s) (running : ∀ result, s.main ≠ .returned result)
    (idle : ∀ i, (s.member i).point ≠ .inside) :
    ∃ act next, (act = .next ∨ ∃ i, act = .goroutine i) ∧ s.step group m act = some next := by
  by_cases moves : ∃ next, s.next group m = some next
  · obtain ⟨next, moved⟩ := moves
    exact ⟨.next, next, .inl rfl, moved⟩
  · have waits : s.main = .wait ∧ s.wg ≠ 0 := by
      unfold GroupCall.next at moves
      cases here : s.main with
      | add i => cases listed : group[i]? <;> simp [here, listed] at moves
      | wait =>
          refine ⟨rfl, fun none => moves ?_⟩
          cases m <;> simp [here, none]
      | returned result => exact absurd here (running result)
      | _ => simp [here] at moves
    have counted := sound.counted
    rw [waits.1] at counted
    have counting : ∑ i ∈ Finset.range group.length, (s.member i).point.alive ≠ 0 := by
      simpa [counted, Main.adding, tally] using waits.2
    obtain ⟨i, _, alive⟩ := Finset.exists_ne_zero_of_sum_ne_zero counting
    obtain ⟨next, moved⟩ := goroutine_moves_on alive (idle i)
    exact ⟨.goroutine i, next, .inr ⟨i, rfl⟩, moved⟩

/-- What a call of a group promises in each of its states. -/
structure Joins (group : List Service) (m : Method) (s : GroupCall Service) : Prop where
  /-- The call returns after every member has, with their errors joined in order. -/
  waits : ∀ result, s.main = .returned result → ∃ errs, errs.length = group.length ∧
    (∀ i err, errs[i]? = some err → (s.member i).results = [err]) ∧ result = join errs
  clean : ∀ result, s.main = .returned result →
    (result = none ↔ ∀ i < group.length, (s.member i).results = [none])
  contains : ∀ result i err, s.main = .returned result → (s.member i).results = [some err] →
    is result err = true
  /-- Each member is called once, with the context of the method. -/
  called : ∀ result i, s.main = .returned result →
    (s.member i).calls = group[i]?.toList.map (·, m.context)
  calling : ∀ i, (s.member i).calls = [] ∨
    (s.member i).calls = group[i]?.toList.map (·, m.context)
  /-- Before `Serve` leaves, only a cancellation or a failure cancels its context. -/
  undisturbed : s.derived = true → ¬s.main.Leaves →
    s.given = true ∨ ∃ i err, (s.member i).results = [some err]
  aborts : m = .serve → ∀ i err, (s.member i).point = .gone →
    (s.member i).results = [some err] → s.derived = true
  /-- Only members at work can hold the call up, and every run of it is finite. -/
  moves : (∀ result, s.main ≠ .returned result) → (∀ i, (s.member i).point ≠ .inside) →
    ∃ act next, (act = .next ∨ ∃ i, act = .goroutine i) ∧ s.step group m act = some next
  finite : ∀ actions final, (GroupCall.calls group m).exec s actions = some final →
    actions.length ≤ left group s

theorem Sound.results_of_gone (sound : Sound group m s) (gone : (s.member i).point = .gone) :
    (s.member i).calls = group[i]?.toList.map (·, m.context) ∧
      (s.member i).results = [s.err i] ∧
      (m = .serve → (s.err i).isSome = true → s.derived = true) := by
  have fits := sound.member i
  simpa only [Member.Fits, gone] using fits

theorem Sound.outside (sound : Sound group m s) (late : group.length ≤ i) :
    (s.member i).calls = [] ∧ (s.member i).results = [] := by
  have unborn := (sound.born i).mpr (sound.main.started_le.trans late)
  have fits := sound.member i
  simpa only [Member.Fits, unborn] using fits

theorem Sound.returned (sound : Sound group m s) (here : s.main = .returned result) :
    result = join s.errs ∧ ∀ i < group.length,
      (s.member i).calls = group[i]?.toList.map (·, m.context) ∧
      (s.member i).results = [s.err i] := by
  obtain ⟨joined, gone⟩ := sound.ended result (by rw [here]; rfl)
  refine ⟨joined, fun i inside => ?_⟩
  obtain ⟨called, stored, _⟩ := sound.results_of_gone (gone i inside)
  exact ⟨called, stored⟩

theorem Sound.calls_once (sound : Sound group m s) (i : Nat) : (s.member i).calls = [] ∨
    (s.member i).calls = group[i]?.toList.map (·, m.context) := by
  have fits := sound.member i
  unfold Member.Fits at fits
  split at fits
  · exact .inl fits.1
  · exact .inl fits.2.1
  all_goals exact .inr fits.1

theorem Sound.getElem?_errs (sound : Sound group m s) (inside : i < group.length) :
    s.errs[i]? = some (s.err i) := by
  rw [GroupCall.err, List.getD_eq_getElem?_getD,
    List.getElem?_eq_getElem (inside.trans_eq sound.sized.symm), Option.getD_some]

theorem Sound.lt_of_getElem? {err : Option Err} (sound : Sound group m s)
    (found : s.errs[i]? = some err) : i < group.length ∧ s.err i = err := by
  have inside : i < group.length := by
    rw [← sound.sized]
    exact (List.getElem?_eq_some_iff.mp found).1
  exact ⟨inside, Option.some.inj ((sound.getElem?_errs inside).symm.trans found)⟩

theorem Sound.result_none_iff (sound : Sound group m s) (here : s.main = .returned result) :
    result = none ↔ ∀ i < group.length, (s.member i).results = [none] := by
  obtain ⟨rfl, each⟩ := sound.returned here
  rw [join_eq_none]
  constructor
  · intro clean i inside
    rw [(each i inside).2, clean _ (List.mem_of_getElem? (sound.getElem?_errs inside))]
  · intro clean err member
    obtain ⟨i, found⟩ := List.mem_iff_getElem?.mp member
    obtain ⟨inside, rfl⟩ := sound.lt_of_getElem? found
    exact (List.cons.inj ((each i inside).2.symm.trans (clean i inside))).1

theorem Sound.result_contains {err : Err} (sound : Sound group m s)
    (here : s.main = .returned result) (failed : (s.member i).results = [some err]) :
    is result err = true := by
  obtain ⟨rfl, each⟩ := sound.returned here
  by_cases inside : i < group.length
  · have slot := (List.cons.inj ((each i inside).2.symm.trans failed)).1
    have stored := sound.getElem?_errs inside
    rw [slot] at stored
    exact is_join_of_mem (List.mem_of_getElem? stored) (Err.is_self err)
  · rw [(sound.outside (not_lt.mp inside)).2] at failed
    cases failed

/-- A group runs its members, aborts them on a failure and joins what they return. -/
theorem group_runs_aborts_and_joins (group : List Service) (m : Method)
    (reached : (calls group m).Reachable s) : Joins group m s := by
  have sound := reachable_sound reached
  refine ⟨?_, fun result here => sound.result_none_iff here,
    fun result i err here failed => sound.result_contains here failed, ?_, sound.calls_once,
    ?_, ?_, sound.can_move, ?_⟩
  · intro result here
    obtain ⟨joined, each⟩ := sound.returned here
    refine ⟨s.errs, sound.sized, fun i err found => ?_, joined⟩
    obtain ⟨inside, rfl⟩ := sound.lt_of_getElem? found
    exact (each i inside).2
  · intro result i here
    by_cases inside : i < group.length
    · exact ((sound.returned here).2 i inside).1
    · rw [(sound.outside (not_lt.mp inside)).1, List.getElem?_eq_none (not_lt.mp inside)]
      rfl
  · intro cancelled early
    obtain ⟨_, given | failed | leaves⟩ := sound.cancelled cancelled
    · exact .inl given
    · exact .inr failed
    · exact absurd leaves early
  · intro serving i err gone failed
    obtain ⟨_, stored, aborts⟩ := sound.results_of_gone gone
    have slot := (List.cons.inj (stored.symm.trans failed)).1
    exact aborts serving (by rw [slot]; rfl)
  · intro actions final executed
    have bound := exec_length_le reached executed
    omega

/-- Three members of which the first returns nil at once and the others fail. -/
def failingRun : List GroupAct :=
  [.next, .next, .goroutine 0, .returns 0 none, .next, .next, .goroutine 0, .goroutine 0,
    .goroutine 0, .next, .next, .next, .goroutine 1, .goroutine 2,
    .returns 2 (some (.new 2 "second")), .returns 1 (some (.new 1 "first")),
    .goroutine 1, .goroutine 2, .goroutine 2, .goroutine 2, .goroutine 1, .goroutine 1,
    .goroutine 1, .goroutine 2, .next, .next, .next]

theorem group_runs_aborts_and_joins_failing :
    ∃ s : GroupCall Nat, (calls [10, 20, 30] .serve).exec (start [10, 20, 30] .serve false)
        failingRun = some s ∧
      s.main = .returned (some (.joined [.new 1 "first", .new 2 "second"])) ∧
      Joins [10, 20, 30] .serve s := by
  have executed : (calls [10, 20, 30] .serve).exec (start [10, 20, 30] .serve false)
      failingRun = some _ := rfl
  exact ⟨_, executed, rfl, group_runs_aborts_and_joins _ _
    (.exec (.initial ⟨false, rfl⟩) executed)⟩

end GroupCall

end Netx.Lifecycle
