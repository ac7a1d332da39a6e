import Netx.Limit.AllOrNothing
import Netx.Limit.Rate
import Netx.Transition.System

/-!
# What a refusal costs

`All` over `Concurrency` and `Rate` members. When it refuses, the members that it has
acquired are released. That restores a `Concurrency`, but a `Rate` has no way to take
a token back.
-/

set_option autoImplicit false

namespace Netx.Limit.Mixed

open Transition

inductive Leaf where
  | concurrency (c : Concurrency)
  | rate (r : Rate)
  deriving DecidableEq

/-- The limiters, and how often the clock that they share was read. -/
structure World (L : Type) where
  readings : Nat
  leaf : L → Leaf

variable {L : Type} [DecidableEq L]

def World.set (w : World L) (l : L) (leaf : Leaf) : World L :=
  { w with leaf := Function.update w.leaf l leaf }

def leaves (clock : Nat → Int) : Leaves L (World L) where
  tryAcquire l w :=
    match w.leaf l with
    | .concurrency c =>
        let (ok, c) := c.tryAcquire
        (ok, w.set l (.concurrency c))
    | .rate r =>
        let (ok, r) := r.tryAcquire (clock w.readings)
        (ok, { w with readings := w.readings + 1 }.set l (.rate r))
  release l w :=
    match w.leaf l with
    | .concurrency c =>
        let (panics, c) := c.release
        (panics, w.set l (.concurrency c))
    | .rate r => (false, w.set l (.rate r.release))

inductive Act (L : Type) where
  | tryAcquire (l : L)
  | release (l : L)

/-- A limiter that was just made. -/
def Leaf.New : Leaf → Prop
  | .concurrency c => ∃ max, Concurrency.newConcurrency max = some c
  | .rate r => ∃ perSec burst, Rate.newRate perSec burst = some r

/-- All calls on limiters that share a clock. -/
def system (L : Type) [DecidableEq L] (clock : Nat → Int) : System (World L) (Act L) where
  initial w := w.readings = 0 ∧ ∀ l, (w.leaf l).New
  step w
    | .tryAcquire l => some ((leaves clock).tryAcquire l w).2
    | .release l => some ((leaves clock).release l w).2

/-- The clock does not go back, does not show the zero time and stays within the range of
a `time.Duration`. -/
structure Ticks (clock : Nat → Int) : Prop where
  ordered : ∀ m n, m ≤ n → clock m ≤ clock n
  nonzero : ∀ n, clock n ≠ 0
  span : ∀ m n, clock n - clock m < 2 ^ 63

/-- Times after the first `n` readings of the clock. -/
structure Later (clock : Nat → Int) (n : Nat) (times : List Int) : Prop where
  timely : Rate.Timely times
  after : ∀ t ∈ times, ∀ k < n, clock k ≤ t ∧ t - clock k < 2 ^ 63

/-- What is known of a limiter after `n` readings of the clock. -/
def Leaf.Sound (clock : Nat → Int) (n : Nat) : Leaf → Prop
  | .concurrency c => c.Reached
  | .rate r => (∃ paid, r.Follows paid) ∧ (r.last ≠ 0 → ∃ k < n, r.last = clock k)

def World.Sound (clock : Nat → Int) (w : World L) : Prop :=
  ∀ l, (w.leaf l).Sound clock w.readings

section Reached

variable {clock : Nat → Int} {w : World L} {n : Nat}

theorem Leaf.Sound.mono {leaf : Leaf} {m : Nat} (sound : leaf.Sound clock m) (more : m ≤ n) :
    leaf.Sound clock n := by
  cases leaf with
  | concurrency c => exact sound
  | rate r =>
      refine ⟨sound.1, fun called => ?_⟩
      obtain ⟨k, before, same⟩ := sound.2 called
      exact ⟨k, Nat.lt_of_lt_of_le before more, same⟩

theorem World.Sound.set (sound : w.Sound clock) (l : L) {leaf : Leaf} (fits : leaf.Sound clock n)
    (more : w.readings ≤ n) : World.Sound clock ({ w with readings := n }.set l leaf) := by
  intro other
  by_cases same : other = l
  · subst same
    simp only [World.set, Function.update_self]
    exact fits
  · simp only [World.set, Function.update_of_ne same]
    exact (sound other).mono more

/-- The next reading goes on from the last call of a limiter. -/
theorem Leaf.Sound.resumes {r : Rate} (ticks : Ticks clock) (sound : (Leaf.rate r).Sound clock n) :
    r.last ≠ 0 → r.last ≤ clock n ∧ clock n - r.last < 2 ^ 63 := by
  intro called
  obtain ⟨k, before, same⟩ := sound.2 called
  rw [same]
  exact ⟨ticks.ordered k n before.le, ticks.span k n⟩

theorem Leaf.Sound.tryAcquire {r : Rate} (ticks : Ticks clock)
    (sound : (Leaf.rate r).Sound clock n) :
    (Leaf.rate (r.tryAcquire (clock n)).2).Sound clock (n + 1) := by
  obtain ⟨paid, follows⟩ := sound.1
  have later := (follows.tryAcquire (ticks.nonzero n) (sound.resumes ticks)).2
  exact ⟨⟨_, later⟩, fun _ => ⟨n, Nat.lt_succ_self n, Rate.last_tryAcquire _ r⟩⟩

theorem World.Sound.tryAcquire (ticks : Ticks clock) (sound : w.Sound clock) (l : L) :
    World.Sound clock ((leaves clock).tryAcquire l w).2 := by
  have own := sound l
  unfold leaves
  dsimp only
  split
  · rename_i c here
    rw [here] at own
    have acquired : (Leaf.concurrency c.tryAcquire.2).Sound clock w.readings := .acquired own
    exact sound.set l acquired le_rfl
  · rename_i r here
    rw [here] at own
    exact sound.set l (own.tryAcquire ticks) (Nat.le_succ _)

theorem World.Sound.release (sound : w.Sound clock) (l : L) :
    World.Sound clock ((leaves clock).release l w).2 := by
  have own := sound l
  unfold leaves
  dsimp only
  split
  · rename_i c here
    rw [here] at own
    have released : (Leaf.concurrency c.release.2).Sound clock w.readings := .released own
    exact sound.set l released le_rfl
  · rename_i r here
    rw [here] at own
    exact sound.set l own le_rfl

theorem sound_of_reached (ticks : Ticks clock) (reached : (system L clock).Reachable w) :
    w.Sound clock := by
  refine reached.invariant (World.Sound clock) ?_ ?_
  · rintro w ⟨_, made⟩ l
    have new := made l
    cases here : w.leaf l with
    | concurrency c =>
        rw [here] at new
        obtain ⟨max, created⟩ := new
        exact .created created
    | rate r =>
        rw [here] at new
        obtain ⟨perSec, burst, created⟩ := new
        obtain ⟨follows, _, _, fresh⟩ := Rate.newRate_follows created
        exact ⟨⟨[], follows⟩, fun called => absurd fresh called⟩
  · rintro w act next _ sound stepped
    cases act with
    | tryAcquire l =>
        cases stepped
        exact sound.tryAcquire ticks l
    | release l =>
        cases stepped
        exact sound.release l

end Reached

/-- What calls on the leaves `called`, all of which are admitted, do to one limiter. -/
def Leaf.Spends (clock : Nat → Int) (first n count : Nat) : Leaf → Leaf → Prop
  | .concurrency c, after => after = .concurrency { c with inUse := c.inUse + count }
  | .rate r, after => ∃ times : List Int, times.length = count ∧
      (∀ t ∈ times, ∃ k, first ≤ k ∧ k < n ∧ t = clock k) ∧
      r.answers times = List.replicate count true ∧ after = .rate (r.after times)

section Spending

variable {clock : Nat → Int} {w w' : World L}

theorem Leaf.Spends.refl (clock : Nat → Int) (first n : Nat) (leaf : Leaf) :
    leaf.Spends clock first n 0 leaf := by
  cases leaf with
  | concurrency c => simp [Leaf.Spends]
  | rate r => exact ⟨[], rfl, nofun, rfl, rfl⟩

/-- One admitted call on its own limiter, then those that follow. -/
theorem Leaf.Spends.admitted {l : L} {middle : World L} {after : Leaf} {n count : Nat}
    (answer : (leaves clock).tryAcquire l w = (true, middle))
    (spends : (middle.leaf l).Spends clock middle.readings n count after)
    (more : middle.readings ≤ n) : (w.leaf l).Spends clock w.readings n (count + 1) after := by
  unfold leaves at answer
  dsimp only at answer
  split at answer
  · rename_i c here
    rw [Concurrency.tryAcquire_eq] at answer
    split at answer
    · cases answer
      simp only [World.set, Function.update_self] at spends
      rw [here]
      simp only [Leaf.Spends] at spends ⊢
      rw [spends, Nat.cast_add, Nat.cast_one, add_assoc, add_comm 1]
    · cases answer
  · rename_i r here
    cases called : r.tryAcquire (clock w.readings) with
    | mk ok next =>
        rw [called] at answer
        cases answer
        simp only [World.set, Function.update_self] at spends more
        obtain ⟨times, length, readings, answers, reached⟩ := spends
        rw [here]
        refine ⟨clock w.readings :: times, by rw [List.length_cons, length], ?_, ?_, ?_⟩
        · intro t member
          rcases List.mem_cons.mp member with rfl | old
          · exact ⟨w.readings, le_rfl, more, rfl⟩
          · obtain ⟨k, since, before, same⟩ := readings t old
            exact ⟨k, by omega, before, same⟩
        · rw [Rate.answers, called, answers, List.replicate_succ]
        · rw [Rate.after, called]
          exact reached

theorem Leaf.Spends.mono {leaf after : Leaf} {first second n count : Nat}
    (spends : leaf.Spends clock second n count after) (more : first ≤ second) :
    leaf.Spends clock first n count after := by
  cases leaf with
  | concurrency c => exact spends
  | rate r =>
      obtain ⟨times, length, readings, answers, reached⟩ := spends
      refine ⟨times, length, fun t member => ?_, answers, reached⟩
      obtain ⟨k, since, before, same⟩ := readings t member
      exact ⟨k, more.trans since, before, same⟩

/-- A call reads the clock at most once and changes no other limiter. -/
theorem tryAcquire_frame {l : L} {ok : Bool}
    (answer : (leaves clock).tryAcquire l w = (ok, w')) :
    w.readings ≤ w'.readings ∧ ∀ other, other ≠ l → w'.leaf other = w.leaf other := by
  unfold leaves at answer
  dsimp only at answer
  split at answer
  · cases answer
    exact ⟨le_rfl, fun other apart => Function.update_of_ne apart _ _⟩
  · cases answer
    exact ⟨Nat.le_succ _, fun other apart => Function.update_of_ne apart _ _⟩

private theorem admits_spends {front : List L}
    (admitted : Limiter.Admits (leaves clock) front w w') :
    w.readings ≤ w'.readings ∧ ∀ l,
      (w.leaf l).Spends clock w.readings w'.readings (front.count l) (w'.leaf l) := by
  induction admitted with
  | nil w => exact ⟨le_rfl, fun l => .refl clock _ _ _⟩
  | @cons l rest w middle w' answer _ ih =>
      obtain ⟨more, spends⟩ := ih
      obtain ⟨grown, others⟩ := tryAcquire_frame answer
      refine ⟨grown.trans more, fun other => ?_⟩
      by_cases same : other = l
      · subst same
        rw [List.count_cons_self]
        exact (spends other).admitted answer more
      · rw [List.count_cons_of_ne (Ne.symm same), ← others other same]
        exact (spends other).mono grown

end Spending

/-- A `Concurrency` gets permits back; a `Rate` keeps what it has. -/
def Leaf.gives (count : Nat) : Leaf → Leaf
  | .concurrency c => .concurrency { c with inUse := c.inUse - count }
  | .rate r => .rate r

def World.giving (w : World L) (released : List L) : World L :=
  { w with leaf := fun l => (w.leaf l).gives (released.count l) }

section Releasing

variable {clock : Nat → Int} {w : World L}

private theorem gives_zero (leaf : Leaf) : leaf.gives 0 = leaf := by
  cases leaf <;> simp [Leaf.gives]

private theorem giving_cons (w : World L) (l : L) (rest : List L) :
    (w.set l ((w.leaf l).gives 1)).giving rest = w.giving (l :: rest) := by
  simp only [World.giving, World.set, World.mk.injEq, true_and]
  funext other
  by_cases same : other = l
  · subst same
    rw [Function.update_self, List.count_cons_self]
    cases w.leaf other with
    | concurrency c =>
        simp only [Leaf.gives, Nat.cast_add, Leaf.concurrency.injEq, Concurrency.mk.injEq,
          true_and]
        omega
    | rate r => rfl
  · rw [Function.update_of_ne same, List.count_cons_of_ne (Ne.symm same)]

/-- Limiters that hold enough permits are released without a panic. -/
theorem releaseAll_giving (released : List L)
    (held : ∀ l c, w.leaf l = .concurrency c → (released.count l : Int) ≤ c.inUse) :
    Limiter.releaseAll (leaves clock) (released.map .leaf) w = (false, w.giving released) := by
  induction released generalizing w with
  | nil =>
      rw [List.map_nil, Limiter.releaseAll]
      simp only [World.giving, List.count_nil, gives_zero]
  | cons l rest ih =>
      have first : (leaves clock).release l w = (false, w.set l ((w.leaf l).gives 1)) := by
        unfold leaves
        dsimp only
        split
        · rename_i c here
          have enough := held l c here
          rw [List.count_cons_self] at enough
          rw [Concurrency.release_eq (by omega), here]
          rfl
        · rename_i r here
          rw [here]
          rfl
      rw [List.map_cons, Limiter.releaseAll, Limiter.release, first, ← giving_cons]
      refine ih fun other c here => ?_
      by_cases same : other = l
      · subst same
        simp only [World.set, Function.update_self] at here
        cases before : w.leaf other with
        | concurrency c' =>
            rw [before] at here
            cases here
            have enough := held other c' before
            rw [List.count_cons_self] at enough
            simp only
            omega
        | rate r =>
            rw [before] at here
            cases here
      · simp only [World.set, Function.update_of_ne same] at here
        have enough := held other c here
        rwa [List.count_cons_of_ne (Ne.symm same)] at enough

end Releasing

/-- What a refusal behind the members `front`, which had admitted, leaves of the limiters. -/
structure Charged (clock : Nat → Int) (front : List L) (w w' : World L) : Prop where
  restored : ∀ l c, w.leaf l = .concurrency c → w'.leaf l = .concurrency c
  /-- A `Rate` goes on as after calls of its own, one admitted call for each time it occurs
  in front of the refusing member. -/
  charged : ∀ l r, w.leaf l = .rate r → ∃ r' times, w'.leaf l = .rate r' ∧
    times.length = front.count l ∧
    (∀ t ∈ times, ∃ k, w.readings ≤ k ∧ k < w'.readings ∧ t = clock k) ∧
    r.answers times = List.replicate (front.count l) true ∧
    ∀ later, Later clock w'.readings later → r'.answers later = (r.after times).answers later
  /-- One that does not occur there has lost nothing. -/
  free : ∀ l r, w.leaf l = .rate r → l ∉ front → ∃ r', w'.leaf l = .rate r' ∧
    ∀ later, Later clock w'.readings later → r'.answers later = r.answers later

section Refusals

variable {clock : Nat → Int} {w middle w' : World L}

theorem Later.continues {n : Nat} {times : List Int} {r : Rate} (later : Later clock n times)
    (sound : (Leaf.rate r).Sound clock n) : r.Continues times := by
  refine ⟨later.timely, fun called t member => ?_⟩
  obtain ⟨k, before, same⟩ := sound.2 called
  rw [same]
  exact later.after t member k before

variable {l refuser : L} {front : List L}

/-- A refusing limiter is as it was, or a `Rate` with the same answers from then on. -/
theorem refused_leaf (ticks : Ticks clock) (sound : middle.Sound clock)
    (refused : (leaves clock).tryAcquire refuser middle = (false, w')) (l : L) :
    w'.leaf l = middle.leaf l ∨ ∃ r r', middle.leaf l = .rate r ∧ w'.leaf l = .rate r' ∧
      ∀ later, Later clock w'.readings later → r'.answers later = r.answers later := by
  obtain ⟨more, others⟩ := tryAcquire_frame refused
  by_cases same : l = refuser
  · subst same
    have own := sound l
    unfold leaves at refused
    dsimp only at refused
    split at refused
    · rename_i c here
      rw [Concurrency.tryAcquire_eq] at refused
      split at refused
      · cases refused
      · cases refused
        exact .inl ((Function.update_self ..).trans here.symm)
    · rename_i r here
      rw [here] at own
      obtain ⟨paid, follows⟩ := own.1
      cases answer : r.tryAcquire (clock middle.readings) with
      | mk ok next =>
          rw [answer] at refused
          cases refused
          refine .inr ⟨r, next, here, Function.update_self .., fun later times => ?_⟩
          have behind := own.tryAcquire ticks
          have same := follows.answers_refused (ticks.nonzero _) (own.resumes ticks)
            (congrArg Prod.fst answer) (times.continues (own.mono more))
            (times.continues behind)
          rwa [answer] at same
  · exact .inl (others l same)

private theorem admits_sound (ticks : Ticks clock) (sound : w.Sound clock)
    (admitted : Limiter.Admits (leaves clock) front w middle) : middle.Sound clock := by
  induction admitted with
  | nil w => exact sound
  | @cons l rest w next middle answer _ ih =>
      refine ih ?_
      have stepped := sound.tryAcquire ticks l
      rwa [answer] at stepped

/-- The members that have admitted hold the permits that are given back. -/
theorem admits_held (sound : w.Sound clock)
    (admitted : Limiter.Admits (leaves clock) front w middle) {c : Concurrency}
    (here : middle.leaf l = .concurrency c) : (front.count l : Int) ≤ c.inUse := by
  have spends := (admits_spends admitted).2 l
  have own := sound l
  rw [here] at spends
  cases before : w.leaf l with
  | concurrency c' =>
      rw [before] at spends own
      have least := Concurrency.Reached.nonneg own
      cases spends
      simp only
      omega
  | rate r =>
      rw [before] at spends
      obtain ⟨times, _, _, _, reached⟩ := spends
      cases reached

/-- After the refusal they still do. -/
theorem refused_held (ticks : Ticks clock) (sound : w.Sound clock)
    (admitted : Limiter.Admits (leaves clock) front w middle)
    (refused : (leaves clock).tryAcquire refuser middle = (false, w')) {c : Concurrency}
    (here : w'.leaf l = .concurrency c) : (front.reverse.count l : Int) ≤ c.inUse := by
  rw [List.count_reverse]
  rcases refused_leaf ticks (admits_sound ticks sound admitted) refused l with
    same | ⟨r, r', _, there, _⟩
  · exact admits_held sound admitted (same.symm.trans here)
  · rw [here] at there
    cases there

/-- A `Rate` has spent a token for each time it occurs in front of the refusing member. -/
theorem rate_charged (ticks : Ticks clock) (sound : w.Sound clock)
    (admitted : Limiter.Admits (leaves clock) front w middle)
    (refused : (leaves clock).tryAcquire refuser middle = (false, w')) {r : Rate}
    (here : w.leaf l = .rate r) : ∃ r' times,
      (w'.giving front.reverse).leaf l = .rate r' ∧ times.length = front.count l ∧
      (∀ t ∈ times, ∃ k, w.readings ≤ k ∧ k < w'.readings ∧ t = clock k) ∧
      r.answers times = List.replicate (front.count l) true ∧
      ∀ later, Later clock w'.readings later →
        r'.answers later = (r.after times).answers later := by
  have paid := (admits_spends admitted).2 l
  rw [here] at paid
  obtain ⟨times, length, readings, answers, reached⟩ := paid
  have before : ∀ t ∈ times, ∃ k, w.readings ≤ k ∧ k < w'.readings ∧ t = clock k := by
    intro t member
    obtain ⟨k, since, read, same⟩ := readings t member
    exact ⟨k, since, Nat.lt_of_lt_of_le read (tryAcquire_frame refused).1, same⟩
  rcases refused_leaf ticks (admits_sound ticks sound admitted) refused l with
    same | ⟨spent, r', there, now, agree⟩
  · refine ⟨r.after times, times, ?_, length, before, answers, fun _ _ => rfl⟩
    simp only [World.giving, same, reached, Leaf.gives]
  · obtain rfl : spent = r.after times := Leaf.rate.inj (there.symm.trans reached)
    refine ⟨r', times, ?_, length, before, answers, agree⟩
    simp only [World.giving, now, Leaf.gives]

/-- Undoing the members in front of the refusing one charges them as said. -/
theorem charged_of_refused (ticks : Ticks clock) (sound : w.Sound clock)
    (admitted : Limiter.Admits (leaves clock) front w middle)
    (refused : (leaves clock).tryAcquire refuser middle = (false, w')) :
    Limiter.undo (leaves clock) ((front.map .leaf).reverse ++ []) w' =
        (some false, w'.giving front.reverse) ∧
      Charged clock front w (w'.giving front.reverse) := by
  have held : ∀ l c, w'.leaf l = .concurrency c → (front.reverse.count l : Int) ≤ c.inUse :=
    fun l c here => refused_held ticks sound admitted refused here
  refine ⟨?_, ?_, fun l r here => rate_charged ticks sound admitted refused here, ?_⟩
  · rw [List.append_nil, ← List.map_reverse, Limiter.undo, releaseAll_giving _ held]
  · intro l c here
    have taken := (admits_spends admitted).2 l
    rw [here] at taken
    have same : w'.leaf l = middle.leaf l := by
      rcases refused_leaf ticks (admits_sound ticks sound admitted) refused l with
        same | ⟨r, r', there, _, _⟩
      · exact same
      · rw [show middle.leaf l = _ from taken] at there
        cases there
    simp only [World.giving, same, show middle.leaf l = _ from taken, Leaf.gives,
      List.count_reverse, Int.add_sub_cancel]
  · intro l r here apart
    obtain ⟨r', times, now, length, _, _, agree⟩ :=
      rate_charged ticks sound admitted refused here
    have none : times = [] := by
      rw [List.count_eq_zero.mpr apart] at length
      exact List.length_eq_zero_iff.mp length
    subst none
    exact ⟨r', now, agree⟩

/-- `All` over `Concurrency` and `Rate` members never panics. When it refuses, every
`Concurrency` is as before, and every `Rate` has lost a token for each time it occurs in
front of the refusing member and nothing else. -/
theorem refused_all_charges (ticks : Ticks clock) (reached : (system L clock).Reachable w)
    (members : List L) :
    ∃ ok w', (Limiter.all (members.map .leaf)).tryAcquire (leaves clock) w = (some ok, w') ∧
      (ok = false → ∃ front refuser back middle, members = front ++ refuser :: back ∧
        Limiter.Admits (leaves clock) front w middle ∧
        ((leaves clock).tryAcquire refuser middle).1 = false ∧ Charged clock front w w') := by
  have sound := sound_of_reached ticks reached
  rw [Limiter.tryAcquire]
  rcases @Limiter.acquireAll_leaves L (World L) (leaves clock) [] members w with
    ⟨w', _, whole⟩ | ⟨front, refuser, back, middle, w', split, admitted, refused, undone⟩
  · exact ⟨true, w', whole, nofun⟩
  · obtain ⟨restored, charged⟩ := charged_of_refused ticks sound admitted refused
    exact ⟨false, _, undone.trans restored, fun _ => ⟨front, refuser, back, middle, split, admitted,
      congrArg Prod.fst refused, charged⟩⟩

end Refusals

/-- If the limiters refuse, every `Rate` among them answers at the times `later` as if they
had not been asked. -/
def Free (clock : Nat → Int) (w : World L) (members : List L) (later : List Int) : Prop :=
  ∀ w', (Limiter.all (members.map .leaf)).tryAcquire (leaves clock) w = (some false, w') →
    ∀ l ∈ members, ∀ r, w.leaf l = .rate r →
      ∃ r', w'.leaf l = .rate r' ∧ r'.answers later = r.answers later

private theorem not_free {clock : Nat → Int} {w : World L} {members : List L} {later : List Int}
    {l : L} {r r' : Rate} (member : l ∈ members)
    (refused : ((Limiter.all (members.map .leaf)).tryAcquire (leaves clock) w).1 = some false)
    (before : w.leaf l = .rate r)
    (after : ((Limiter.all (members.map .leaf)).tryAcquire (leaves clock) w).2.leaf l = .rate r')
    (differ : r'.answers later ≠ r.answers later) : ¬Free clock w members later := by
  intro free
  obtain ⟨reached, same, agree⟩ := free _ (Prod.ext refused rfl) l member r before
  obtain rfl : r' = reached := Leaf.rate.inj (after.symm.trans same)
  exact differ agree

/-- A fresh `Rate` of one token a second, and a `Concurrency` of one permit. -/
def fresh : World Bool :=
  ⟨0, fun l => if l then .concurrency ⟨1, 0⟩ else .rate ⟨1, 1, 1, 0⟩⟩

/-- The permit is taken. -/
def taken (clock : Nat → Int) : World Bool :=
  ((leaves clock).tryAcquire true fresh).2

private theorem taken_reached (clock : Nat → Int) :
    (system Bool clock).Reachable (taken clock) := by
  have start : (system Bool clock).initial fresh := by
    refine ⟨rfl, fun l => ?_⟩
    cases l with
    | true => exact ⟨1, rfl⟩
    | false => exact ⟨1, 1, by decide +kernel⟩
  have stepped : (system Bool clock).step fresh (.tryAcquire true) = some (taken clock) := rfl
  exact (System.Reachable.initial start).step stepped

theorem refused_all_charges_taken :
    ((Limiter.all ([false, true].map .leaf)).tryAcquire (leaves fun _ => 1)
        (taken fun _ => 1)).1 = some false ∧
      ∃ ok w', (Limiter.all ([false, true].map .leaf)).tryAcquire (leaves fun _ => 1)
          (taken fun _ => 1) = (some ok, w') ∧
        (ok = false → ∃ front refuser back middle, [false, true] = front ++ refuser :: back ∧
          Limiter.Admits (leaves fun _ => 1) front (taken fun _ => 1) middle ∧
          ((leaves fun _ => 1).tryAcquire refuser middle).1 = false ∧
          Charged (fun _ => 1) front (taken fun _ => 1) w') := by
  have ticks : Ticks fun _ => 1 :=
    ⟨fun _ _ _ => le_rfl, fun _ => by decide, fun _ _ => by decide⟩
  exact ⟨by decide +kernel, refused_all_charges ticks (taken_reached _) [false, true]⟩

/-- A `Rate` of burst one whose token was spent at the first reading of the clock. -/
def spent (perSec : ℚ) (clock : Nat → Int) : World Bool :=
  ((leaves clock).tryAcquire false ⟨0, fun _ => .rate ⟨perSec, 1, 1, 0⟩⟩).2

private theorem spent_reached {perSec : ℚ} (positive : 0 < perSec) (clock : Nat → Int) :
    (system Bool clock).Reachable (spent perSec clock) := by
  have created : Rate.newRate perSec 1 = some ⟨perSec, 1, 1, 0⟩ := by
    rw [Rate.newRate, if_neg (by simp [positive])]
    rfl
  have start : (system Bool clock).initial ⟨0, fun _ => .rate ⟨perSec, 1, 1, 0⟩⟩ :=
    ⟨rfl, fun _ => ⟨perSec, 1, created⟩⟩
  have stepped : (system Bool clock).step ⟨0, fun _ => .rate ⟨perSec, 1, 1, 0⟩⟩
      (.tryAcquire false) = some (spent perSec clock) := rfl
  exact (System.Reachable.initial start).step stepped

/-- A clock that shows `first` once and `second` from then on. -/
def twice (first second : Int) (n : Nat) : Int :=
  if n = 0 then first else second

/-- The clock does not go back, and `later` is later than it ever shows. -/
def Ordered (clock : Nat → Int) (later : Int) : Prop :=
  (∀ m n, m ≤ n → clock m ≤ clock n) ∧ ∀ n, clock n ≤ later

private theorem twice_ordered {first second later : Int} (ordered : first ≤ second)
    (after : second ≤ later) : Ordered (twice first second) later := by
  unfold Ordered twice
  refine ⟨fun m n more => ?_, fun n => ?_⟩
  · split <;> split <;> omega
  · split <;> omega

/-- A refusal is not free: behind a full `Concurrency` the token is lost. And where the
clock leaves the range of a `time.Duration` or shows the zero time, even the refusal of a
single `Rate` changes what it answers later. -/
theorem refused_all_not_free :
    (Ordered (fun _ => 1) 1 ∧ (system Bool fun _ => 1).Reachable (taken fun _ => 1) ∧
      ¬Free (fun _ => 1) (taken fun _ => 1) [false, true] [1]) ∧
    (∃ later, Ordered (twice 1 (1 + 2 ^ 62)) later ∧
      (system Bool (twice 1 (1 + 2 ^ 62))).Reachable
        (spent (10 ^ 9 / 2 ^ 63) (twice 1 (1 + 2 ^ 62))) ∧
      ¬Free (twice 1 (1 + 2 ^ 62)) (spent (10 ^ 9 / 2 ^ 63) (twice 1 (1 + 2 ^ 62))) [false]
        [later]) ∧
    ∃ later, Ordered (twice (-10 ^ 9) 0) later ∧
      (system Bool (twice (-10 ^ 9) 0)).Reachable (spent (1 / 2) (twice (-10 ^ 9) 0)) ∧
      ¬Free (twice (-10 ^ 9) 0) (spent (1 / 2) (twice (-10 ^ 9) 0)) [false] [later] := by
  refine ⟨⟨⟨fun _ _ _ => le_rfl, fun _ => le_rfl⟩, taken_reached _, ?_⟩,
    ⟨1 + 2 ^ 62 + 2 ^ 63, twice_ordered (by decide) (by decide), spent_reached (by norm_num) _, ?_⟩,
    ⟨10 ^ 9, twice_ordered (by decide) (by decide), spent_reached (by norm_num) _, ?_⟩⟩
  · have before : (taken fun _ => 1).leaf false = .rate ⟨1, 1, 1, 0⟩ := by decide +kernel
    have after : ((Limiter.all ([false, true].map .leaf)).tryAcquire (leaves fun _ => 1)
        (taken fun _ => 1)).2.leaf false = .rate ⟨1, 1, 0, 1⟩ := by decide +kernel
    exact not_free (by decide) (by decide +kernel) before after (by decide +kernel)
  · have before : (spent (10 ^ 9 / 2 ^ 63) (twice 1 (1 + 2 ^ 62))).leaf false =
        .rate ⟨10 ^ 9 / 2 ^ 63, 1, 0, 1⟩ := by decide +kernel
    have after : ((Limiter.all ([false].map .leaf)).tryAcquire (leaves (twice 1 (1 + 2 ^ 62)))
        (spent (10 ^ 9 / 2 ^ 63) (twice 1 (1 + 2 ^ 62)))).2.leaf false =
          .rate ⟨10 ^ 9 / 2 ^ 63, 1, 1 / 2, 1 + 2 ^ 62⟩ := by decide +kernel
    exact not_free (by decide) (by decide +kernel) before after (by decide +kernel)
  · have before : (spent (1 / 2) (twice (-10 ^ 9) 0)).leaf false =
        .rate ⟨1 / 2, 1, 0, -10 ^ 9⟩ := by decide +kernel
    have after : ((Limiter.all ([false].map .leaf)).tryAcquire (leaves (twice (-10 ^ 9) 0))
        (spent (1 / 2) (twice (-10 ^ 9) 0))).2.leaf false = .rate ⟨1 / 2, 1, 1 / 2, 0⟩ := by
      decide +kernel
    exact not_free (by decide) (by decide +kernel) before after (by decide +kernel)

end Netx.Limit.Mixed
