import Netx.TokenBucket.Level
import Mathlib.Algebra.Order.Ring.Rat
import Mathlib.Data.Rat.Cast.Order

/-!
# The rate limiter

`Rate` of `limit.go` with exact rational arithmetic, one call at a time as its mutex
makes them. It refills lazily, at each call for the time since the call before, and
follows the token bucket that refills continuously.
-/

set_option autoImplicit false

namespace Netx.Limit

open TokenBucket (Bucket)

/-- Times are nanoseconds since the zero time of package `time`. -/
structure Rate where
  perSec : ℚ
  burst : ℚ
  tokens : ℚ
  last : Int
  deriving DecidableEq

namespace Rate

/-- `NewRate`, with `none` where the source panics. -/
def newRate (perSec : ℚ) (burst : Int) : Option Rate :=
  if perSec ≤ 0 ∨ burst ≤ 0 then none
  else some { perSec, burst, tokens := burst, last := 0 }

/-- `t.Sub(u)`, which saturates. -/
def sub (t u : Int) : Int :=
  max (-2 ^ 63) (min (2 ^ 63 - 1) (t - u))

def seconds (d : Int) : ℚ :=
  d / 10 ^ 9

/-- The refill of `TryAcquire`; a limiter that was not called yet has nothing to add. -/
def refill (now : Int) (r : Rate) : Rate :=
  if r.last = 0 then r
  else
    let tokens := r.tokens + seconds (sub now r.last) * r.perSec
    { r with tokens := if tokens > r.burst then r.burst else tokens }

def tryAcquire (now : Int) (r : Rate) : Bool × Rate :=
  let r := { r.refill now with last := now }
  if r.tokens < 1 then (false, r) else (true, { r with tokens := r.tokens - 1 })

def release (r : Rate) : Rate := r

/-- The limiter after calls at the given times. -/
def after (r : Rate) : List Int → Rate
  | [] => r
  | t :: rest => (r.tryAcquire t).2.after rest

def answers (r : Rate) : List Int → List Bool
  | [] => []
  | t :: rest => (r.tryAcquire t).1 :: (r.tryAcquire t).2.answers rest

/-- The times of the calls that are admitted. -/
def admitted (r : Rate) : List Int → List Int
  | [] => []
  | t :: rest =>
      (if (r.tryAcquire t).1 then [t] else []) ++ (r.tryAcquire t).2.admitted rest

/-- The bucket that the limiter stands for, with times in seconds. -/
def bucket (r : Rate) : Bucket ℚ :=
  ⟨r.perSec, r.burst⟩

/-- Call times do not decrease, are not the zero time and lie within the range of a
`time.Duration`. -/
structure Timely (times : List Int) : Prop where
  nonzero : ∀ t ∈ times, t ≠ 0
  ordered : times.Pairwise fun s t => s ≤ t ∧ t - s < 2 ^ 63

/-- The call times go on from the last call. -/
structure Continues (r : Rate) (times : List Int) : Prop extends Timely times where
  resumes : r.last ≠ 0 → ∀ t ∈ times, r.last ≤ t ∧ t - r.last < 2 ^ 63

/-- The limiter stands at its last call where the bucket stands after these admissions. -/
structure Follows (r : Rate) (paid : List ℚ) : Prop where
  perSec : 0 < r.perSec
  burst : 1 ≤ r.burst
  found : r.bucket.Paid paid
  fresh : r.last = 0 → paid = [] ∧ r.tokens = r.burst
  tokens : r.last ≠ 0 → r.tokens = r.bucket.level paid (seconds r.last)
  past : r.last ≠ 0 → ∀ a ∈ paid, a ≤ seconds r.last

section Times

private theorem sub_eq {t u : Int} (ordered : u ≤ t) (span : t - u < 2 ^ 63) : sub t u = t - u := by
  unfold sub
  omega

private theorem seconds_sub (t u : Int) : seconds (t - u) = seconds t - seconds u := by
  simp only [seconds, Int.cast_sub, sub_div]

private theorem seconds_mono {t u : Int} : seconds u ≤ seconds t ↔ u ≤ t := by
  have unit : (0 : ℚ) < 10 ^ 9 := by norm_num
  rw [seconds, seconds, div_le_div_iff_of_pos_right unit, Int.cast_le]

theorem Timely.tail {t : Int} {rest : List Int} (timely : Timely (t :: rest)) : Timely rest :=
  ⟨fun u member => timely.nonzero u (List.mem_cons_of_mem t member),
    timely.ordered.of_cons⟩

end Times

section Steps

variable {r : Rate} {paid : List ℚ} {now : Int}

theorem newRate_follows {perSec : ℚ} {burst : Int} (created : newRate perSec burst = some r) :
    r.Follows [] ∧ r.perSec = perSec ∧ r.burst = burst ∧ r.last = 0 := by
  simp only [newRate, Option.ite_none_left_eq_some, not_or, not_le, Option.some.injEq] at created
  obtain ⟨⟨rate, size⟩, rfl⟩ := created
  have one : (1 : ℚ) ≤ (burst : ℚ) := by exact_mod_cast size
  exact ⟨⟨rate, one, trivial, fun _ => ⟨rfl, rfl⟩, nofun, nofun⟩, rfl, rfl, rfl⟩

/-- The refill brings the limiter to the level of the bucket. -/
theorem Follows.refill (follows : r.Follows paid)
    (resumes : r.last ≠ 0 → r.last ≤ now ∧ now - r.last < 2 ^ 63) :
    (r.refill now).tokens = r.bucket.level paid (seconds now) := by
  unfold Rate.refill
  by_cases fresh : r.last = 0
  · obtain ⟨rfl, full⟩ := follows.fresh fresh
    rw [if_pos fresh, full]
    rfl
  · obtain ⟨ordered, span⟩ := resumes fresh
    have level := Bucket.level_refill (b := r.bucket) follows.perSec.le (follows.past fresh)
      (seconds_mono.mpr ordered)
    have gained : seconds (sub now r.last) * r.perSec =
        r.bucket.rate * (seconds now - seconds r.last) := by
      rw [sub_eq ordered span, seconds_sub, mul_comm]
      rfl
    rw [if_neg fresh, level, ← follows.tokens fresh, gained]
    simp only [gt_iff_lt]
    split
    · exact (min_eq_left (le_of_lt ‹_›)).symm
    · exact (min_eq_right (not_lt.mp ‹_›)).symm

theorem tryAcquire_eq (now : Int) (r : Rate) : r.tryAcquire now =
    if (r.refill now).tokens < 1 then
      (false, ⟨r.perSec, r.burst, (r.refill now).tokens, now⟩)
    else (true, ⟨r.perSec, r.burst, (r.refill now).tokens - 1, now⟩) := by
  have same : (r.refill now).perSec = r.perSec ∧ (r.refill now).burst = r.burst := by
    unfold Rate.refill
    split <;> exact ⟨rfl, rfl⟩
  unfold tryAcquire
  dsimp only
  rw [same.1, same.2]

private theorem bucket_tryAcquire (now : Int) (r : Rate) :
    (r.tryAcquire now).2.bucket = r.bucket := by
  rw [tryAcquire_eq]
  split <;> rfl

theorem last_tryAcquire (now : Int) (r : Rate) : (r.tryAcquire now).2.last = now := by
  rw [tryAcquire_eq]
  split <;> rfl

theorem Follows.past_now (follows : r.Follows paid) (resumes : r.last ≠ 0 → r.last ≤ now) :
    ∀ a ∈ paid, a ≤ seconds now := by
  intro a member
  have called : r.last ≠ 0 := by
    intro fresh
    rw [(follows.fresh fresh).1] at member
    cases member
  exact (follows.past called a member).trans (seconds_mono.mpr (resumes called))

/-- A call is admitted exactly if the bucket holds a token, and then pays for it. -/
theorem Follows.tryAcquire (follows : r.Follows paid) (nonzero : now ≠ 0)
    (resumes : r.last ≠ 0 → r.last ≤ now ∧ now - r.last < 2 ^ 63) :
    (r.tryAcquire now).1 = decide (1 ≤ r.bucket.level paid (seconds now)) ∧
      (r.tryAcquire now).2.Follows
        (if 1 ≤ r.bucket.level paid (seconds now) then seconds now :: paid else paid) := by
  have past := follows.past_now fun called => (resumes called).1
  rw [tryAcquire_eq, follows.refill resumes]
  by_cases token : 1 ≤ r.bucket.level paid (seconds now)
  · rw [if_neg (not_lt.mpr token), if_pos token]
    refine ⟨(decide_eq_true token).symm, follows.perSec, follows.burst,
      ⟨follows.found, past, token⟩, fun zero => absurd zero nonzero, fun _ => ?_,
      fun _ a member => ?_⟩
    · exact (Bucket.level_pay r.bucket paid (seconds now)).symm
    · rcases List.mem_cons.mp member with rfl | old
      · exact le_rfl
      · exact past a old
  · rw [if_pos (not_le.mp token), if_neg token]
    exact ⟨(decide_eq_false token).symm, follows.perSec, follows.burst, follows.found,
      fun zero => absurd zero nonzero, fun _ => rfl, fun _ => past⟩

theorem Follows.bounded (follows : r.Follows paid) : 0 ≤ r.tokens ∧ r.tokens ≤ r.burst := by
  have size : (0 : ℚ) ≤ r.burst := zero_le_one.trans follows.burst
  by_cases fresh : r.last = 0
  · rw [(follows.fresh fresh).2]
    exact ⟨size, le_rfl⟩
  · rw [follows.tokens fresh]
    exact ⟨Bucket.level_nonneg follows.perSec.le size follows.found (follows.past fresh),
      Bucket.level_le _ _ _⟩

end Steps

section Runs

variable {r : Rate} {paid : List ℚ} {times : List Int}

theorem Continues.head {t : Int} {rest : List Int} (continues : r.Continues (t :: rest)) :
    t ≠ 0 ∧ (r.last ≠ 0 → r.last ≤ t ∧ t - r.last < 2 ^ 63) :=
  ⟨continues.nonzero t List.mem_cons_self,
    fun called => continues.resumes called t List.mem_cons_self⟩

theorem Continues.tail {t : Int} {rest : List Int} (continues : r.Continues (t :: rest)) :
    (r.tryAcquire t).2.Continues rest := by
  refine ⟨continues.toTimely.tail, fun _ u member => ?_⟩
  rw [last_tryAcquire]
  exact List.rel_of_pairwise_cons continues.ordered member

/-- From the same level on, limiter and bucket give the same answers. -/
theorem Follows.answers (follows : r.Follows paid) (continues : r.Continues times) :
    r.answers times = r.bucket.answers paid (times.map seconds) := by
  induction times generalizing r paid with
  | nil => rfl
  | cons t rest ih =>
      obtain ⟨nonzero, resumes⟩ := continues.head
      obtain ⟨answer, later⟩ := follows.tryAcquire nonzero resumes
      have remaining := ih later continues.tail
      rw [bucket_tryAcquire] at remaining
      rw [Rate.answers, answer, remaining, List.map_cons, Bucket.answers]
      by_cases token : 1 ≤ r.bucket.level paid (seconds t)
      · simp only [if_pos token, decide_eq_true token]
      · simp only [if_neg token, decide_eq_false token]

/-- A refused call changes no later answer. -/
theorem Follows.answers_refused {now : Int} (follows : r.Follows paid) (nonzero : now ≠ 0)
    (resumes : r.last ≠ 0 → r.last ≤ now ∧ now - r.last < 2 ^ 63)
    (refused : (r.tryAcquire now).1 = false) (before : r.Continues times)
    (behind : (r.tryAcquire now).2.Continues times) :
    (r.tryAcquire now).2.answers times = r.answers times := by
  obtain ⟨answer, later⟩ := follows.tryAcquire nonzero resumes
  have short := of_decide_eq_false (answer.symm.trans refused)
  rw [if_neg short] at later
  rw [later.answers behind, follows.answers before, bucket_tryAcquire]

/-- The admissions of the limiter are what its bucket has paid for. -/
theorem Follows.after (follows : r.Follows paid) (continues : r.Continues times) :
    (r.after times).Follows (((r.admitted times).map seconds).reverse ++ paid) ∧
      (r.after times).bucket = r.bucket := by
  induction times generalizing r paid with
  | nil => exact ⟨follows, rfl⟩
  | cons t rest ih =>
      obtain ⟨nonzero, resumes⟩ := continues.head
      obtain ⟨answer, later⟩ := follows.tryAcquire nonzero resumes
      obtain ⟨reached, same⟩ := ih later continues.tail
      refine ⟨?_, same.trans (bucket_tryAcquire t r)⟩
      rw [Rate.after, Rate.admitted, answer]
      by_cases token : 1 ≤ r.bucket.level paid (seconds t)
      · simp only [if_pos token] at reached
        simpa [token] using reached
      · simp only [if_neg token] at reached
        simpa [token] using reached

theorem Continues.front {front back : List Int} (continues : r.Continues (front ++ back)) :
    r.Continues front :=
  ⟨⟨fun t member => continues.nonzero t (List.mem_append_left back member),
    (List.pairwise_append.mp continues.ordered).1⟩,
    fun called t member => continues.resumes called t (List.mem_append_left back member)⟩

end Runs

/-- What a limiter promises over calls at the given times. -/
structure Shapes (r : Rate) (times : List Int) : Prop where
  bounded : ∀ front back, times = front ++ back →
    0 ≤ (r.after front).tokens ∧ (r.after front).tokens ≤ r.burst
  /-- No window sees more admissions than a full bucket and what came in during it. -/
  window : ∀ s ∈ times, ∀ t ∈ times, s ≤ t →
    (((r.admitted times).filter fun a => s ≤ a ∧ a ≤ t).length : ℚ) ≤
      r.burst + r.perSec * seconds (t - s)
  /-- Calls are admitted exactly when the bucket that refills continuously has a token. -/
  exact : r.answers times = r.bucket.answers [] (times.map seconds)

section Contract

variable {r : Rate} {times : List Int}

theorem Timely.continues (timely : Timely times) (fresh : r.last = 0) : r.Continues times :=
  ⟨timely, fun called => absurd fresh called⟩

/-- In nanoseconds and in seconds the same admissions lie in a window. -/
theorem length_filter_seconds (admitted : List Int) (s t : Int) :
    (admitted.filter fun a => s ≤ a ∧ a ≤ t).length =
      (((admitted.map seconds).reverse).filter fun a => seconds s ≤ a ∧ a ≤ seconds t).length := by
  rw [List.filter_reverse, List.length_reverse, List.filter_map, List.length_map]
  simp only [Function.comp_def, seconds_mono]

/-- A new limiter is a token bucket: it stays within its bounds, no window sees more
than the bucket can pay for, and no call is refused while there is a token. -/
theorem rate_is_token_bucket {perSec : ℚ} {burst : Int}
    (created : newRate perSec burst = some r) (timely : Timely times) :
    r.perSec = perSec ∧ r.burst = burst ∧ r.Shapes times := by
  obtain ⟨follows, rate, size, fresh⟩ := newRate_follows created
  have continues := timely.continues fresh
  refine ⟨rate, size, ?_, ?_, follows.answers continues⟩
  · rintro front back rfl
    obtain ⟨reached, same⟩ := follows.after continues.front
    have burst : (r.after front).burst = r.burst := congrArg Bucket.capacity same
    rw [← burst]
    exact reached.bounded
  · intro s _ t _ ordered
    obtain ⟨reached, same⟩ := follows.after continues
    have found := reached.found
    rw [same, List.append_nil] at found
    have capacity : (0 : ℚ) ≤ r.bucket.capacity := zero_le_one.trans follows.burst
    rw [length_filter_seconds, seconds_sub]
    exact Bucket.window_le (b := r.bucket) follows.perSec.le capacity found
      (seconds_mono.mpr ordered)

end Contract

/-- Two tokens are spent at once, a third call is refused, and a token has come in half a
second later. -/
def spending : List Int :=
  [1, 1, 1, 500000001]

theorem rate_is_token_bucket_spending :
    ∃ r, newRate 2 2 = some r ∧ r.answers spending = [true, true, false, true] ∧
      r.Shapes spending := by
  have created : newRate 2 2 = some ⟨2, 2, 2, 0⟩ := by decide +kernel
  have timely : Timely spending := ⟨by decide, by decide⟩
  exact ⟨_, created, by decide +kernel, (rate_is_token_bucket created timely).2.2⟩

end Rate

end Netx.Limit
