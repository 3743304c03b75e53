import Kinglet.Library.Doubles
import Kinglet.Tasks.Engine
import Mathlib.Tactic.FieldSimp

/-!
# The law of a token bucket

Three promises of a bucket, over every sequence of calls: no more than `maxConcurrentDispatches` of
its dispatches at once, from none to `maxBurstSize` tokens, and after `n` refills no more acquisitions
than `maxBurstSize + n * maxDispatchesPerSecond`.

Tokens are counted in doubles, and `acquire` asks for more than none of them, not for one. A rate
that is a fraction therefore leaves a part of a token behind, which buys a whole dispatch: the law
holds when every refill adds whole tokens, or always fills the bucket, or nothing can be acquired.
-/

namespace Kinglet.Tasks

open Js Library
open Doubles (floatUnits lt_bound one one_pos)

/-- What `RateLimitsSchema` accepts. -/
structure RateLimits.Accepted (limits : RateLimits) : Prop where
  le_rate : 0.01 ≤ limits.maxDispatchesPerSecond
  rate_le : limits.maxDispatchesPerSecond ≤ 500
  burst : ∃ burst : ℕ, burst < 2 ^ 53 ∧ Doubles.value limits.maxBurstSize = some (burst : ℚ)
  concurrent : limits.maxConcurrentDispatches ≤ 5000

/-- The rate is a whole number. -/
def RateLimits.WholeRate (limits : RateLimits) : Prop :=
  ∃ rate : ℕ, Doubles.value limits.maxDispatchesPerSecond = some (rate : ℚ)

inductive BucketCall
  | acquire
  | release
  | refill

/-- A bucket with the acquisitions it granted and the refills it had. -/
structure Tally where
  bucket : TokenBucket
  granted : ℕ
  refills : ℕ

namespace Tally

def start (limits : RateLimits) : Tally := ⟨.new limits, 0, 0⟩

def call (tally : Tally) : BucketCall → Tally
  | .acquire =>
      match tally.bucket.acquire with
      | none => tally
      | some bucket => { tally with bucket, granted := tally.granted + 1 }
  | .release => { tally with bucket := tally.bucket.release }
  | .refill => { tally with bucket := tally.bucket.refill, refills := tally.refills + 1 }

/-- What a sequence of calls makes of a new bucket. -/
def after (limits : RateLimits) (calls : List BucketCall) : Tally :=
  calls.foldl call (start limits)

structure Lawful (limits : RateLimits) (tally : Tally) : Prop where
  concurrent_le : tally.bucket.concurrent ≤ limits.maxConcurrentDispatches
  tokens_nonneg : 0 ≤ tally.bucket.tokens
  tokens_le : tally.bucket.tokens ≤ limits.maxBurstSize
  granted_le : ∀ burst ∈ Doubles.value limits.maxBurstSize,
    ∀ rate ∈ Doubles.value limits.maxDispatchesPerSecond,
      (tally.granted : ℚ) ≤ burst + tally.refills * rate

end Tally

/-! ### Calls on the numbers -/

theorem floatUnits_zero : floatUnits 0 = some 0 := by decide +kernel

theorem floatUnits_one : floatUnits 1 = some (one : ℤ) := by decide +kernel

theorem mathMin_units {x y : Float} {a b : ℤ} (ha : floatUnits x = some a)
    (hb : floatUnits y = some b) : floatUnits (mathMin x y) = some (min a b) := by
  unfold mathMin
  rw [Doubles.isNaN_eq_false ha, Doubles.isNaN_eq_false hb, if_neg (by decide)]
  split_ifs with h
  · rw [hb, min_eq_right ((Doubles.lt_iff_units hb ha).1 h).le]
  · rw [ha, min_eq_left (not_lt.1 (mt (Doubles.lt_iff_units hb ha).2 h))]

namespace TokenBucket

variable {bucket : TokenBucket} {n : ℕ}

/-- Any part of a token is enough. -/
theorem acquire_of_pos (hn : floatUnits bucket.tokens = some (n : ℤ)) (hpos : 0 < n)
    (hconcurrent : bucket.concurrent < bucket.limits.maxConcurrentDispatches) :
    bucket.acquire =
      some { bucket with tokens := bucket.tokens - 1, concurrent := bucket.concurrent + 1 } := by
  have hsome : ¬bucket.tokens ≤ 0 := by
    rw [Doubles.le_iff_units hn floatUnits_zero]
    omega
  exact if_neg (not_or.2 ⟨hsome, not_le.2 hconcurrent⟩)

/-- Acquiring takes a token from a bucket that has one. -/
theorem acquire_units (hn : floatUnits bucket.tokens = some (n : ℤ)) (hone : one ≤ n)
    (hbound : n < 2 ^ 54 * one) (hdigits : ∃ m p, m < 2 ^ 53 ∧ n - one = m * 2 ^ p)
    (hconcurrent : bucket.concurrent < bucket.limits.maxConcurrentDispatches) :
    ∃ tokens, bucket.acquire =
        some { bucket with tokens, concurrent := bucket.concurrent + 1 } ∧
      floatUnits tokens = some ((n - one : ℕ) : ℤ) := by
  have hpos := one_pos
  have hdiff : (n : ℤ) - one = (n - one : ℕ) := by omega
  obtain ⟨r, hr, hunits⟩ := Doubles.floatUnits_sub hn floatUnits_one (by omega)
    (hdiff ▸ lt_bound (by omega))
  obtain ⟨m, p, hm, hdigits⟩ := hdigits
  rw [hdiff, Int.toNat_natCast] at hr
  refine ⟨bucket.tokens - 1, acquire_of_pos hn (by omega) hconcurrent, ?_⟩
  rw [hunits, hr.eq_of_digits hm hdigits]

/-- Refilling adds the rate up to the size of a burst, also where their sum is rounded: the size of
a burst is a number of 53 digits. -/
theorem refill_units {rate burst : ℕ} (hn : floatUnits bucket.tokens = some (n : ℤ))
    (hrate : floatUnits bucket.limits.maxDispatchesPerSecond = some (rate : ℤ))
    (hburst : floatUnits bucket.limits.maxBurstSize = some ((burst * one : ℕ) : ℤ))
    (hbound : n + rate < 2 ^ 54 * one) (hburst53 : burst < 2 ^ 53)
    (hdigits : n + rate < burst * one → ∃ m p, m < 2 ^ 53 ∧ n + rate = m * 2 ^ p) :
    floatUnits bucket.refill.tokens = some ((min (n + rate) (burst * one) : ℕ) : ℤ) := by
  have hsum : (n : ℤ) + rate = (n + rate : ℕ) := by push_cast; rfl
  obtain ⟨r, hr, hunits⟩ := Doubles.floatUnits_add hn hrate (by omega) (hsum ▸ lt_bound hbound)
  rw [hsum, Int.toNat_natCast] at hr
  have hmin := mathMin_units hunits hburst
  rw [← Nat.cast_min] at hmin
  refine hmin.trans ?_
  rcases lt_or_ge (n + rate) (burst * one) with hlt | hge
  · obtain ⟨m, p, hm, hdigits⟩ := hdigits hlt
    rw [hr.eq_of_digits hm hdigits]
  · rw [min_eq_right hge, min_eq_right (hr.whole_le hburst53 hge)]

end TokenBucket

/-! ### Whole tokens -/

namespace Tally

/-- A bucket with `n` tokens, where the acquisitions so far and those still possible are no more
than the law allows. -/
structure Whole (limits : RateLimits) (burst rate : ℕ) (n : ℕ) (tally : Tally) : Prop where
  limits_eq : tally.bucket.limits = limits
  concurrent_le : tally.bucket.concurrent ≤ limits.maxConcurrentDispatches
  tokens : floatUnits tally.bucket.tokens = some ((n * one : ℕ) : ℤ)
  le_burst : n ≤ burst
  granted_le : (tally.granted + n) * one ≤ burst * one + tally.refills * rate
  full : limits.maxConcurrentDispatches = 0 → n = burst

variable {limits : RateLimits} {burst rate n : ℕ} {tally : Tally}

theorem call_acquire {bucket bucket' : TokenBucket} (h : bucket.acquire = some bucket')
    (granted refills : ℕ) :
    call ⟨bucket, granted, refills⟩ .acquire = ⟨bucket', granted + 1, refills⟩ := by
  unfold call
  rw [h]

theorem Whole.acquire (h : Whole limits burst rate n tally) (hburst : burst < 2 ^ 53) :
    ∃ n', Whole limits burst rate n' (tally.call .acquire) := by
  have hpos := one_pos
  by_cases hnone : tally.bucket.tokens ≤ 0 ∨
      tally.bucket.limits.maxConcurrentDispatches ≤ tally.bucket.concurrent
  · refine ⟨n, ?_⟩
    unfold Tally.call TokenBucket.acquire
    rw [if_pos hnone]
    exact h
  · obtain ⟨htokens, hconcurrent⟩ := not_or.1 hnone
    rw [Doubles.le_iff_units h.tokens floatUnits_zero] at htokens
    obtain ⟨k, rfl⟩ : ∃ k, n = k + 1 := by
      refine ⟨n - 1, (Nat.sub_add_cancel (Nat.one_le_iff_ne_zero.2 ?_)).symm⟩
      rintro rfl
      exact htokens (by simp only [Nat.zero_mul, Nat.cast_zero, le_refl])
    have hle := h.le_burst
    have htake : (k + 1) * one - one = k * one := by rw [Nat.succ_mul, Nat.add_sub_cancel]
    obtain ⟨tokens, hacquire, hunits⟩ := TokenBucket.acquire_units h.tokens
      (Nat.le_mul_of_pos_left _ k.succ_pos) (Nat.mul_lt_mul_of_pos_right (by omega) hpos)
      ⟨k, 1074, by omega, by rw [htake, Doubles.one_eq]⟩ (not_le.1 hconcurrent)
    refine ⟨k, ?_⟩
    unfold Tally.call
    rw [hacquire]
    rw [htake] at hunits
    refine ⟨h.limits_eq, ?_, hunits, by omega, ?_, ?_⟩
    · rw [h.limits_eq] at hconcurrent
      exact Nat.succ_le_of_lt (not_le.1 hconcurrent)
    · have hgranted := h.granted_le
      rwa [show tally.granted + (k + 1) = tally.granted + 1 + k by omega] at hgranted
    · intro hzero
      rw [h.limits_eq] at hconcurrent
      omega

theorem Whole.refill (h : Whole limits burst rate n tally) (hburst : burst < 2 ^ 53)
    (hB : floatUnits limits.maxBurstSize = some ((burst * one : ℕ) : ℤ))
    (hrate : floatUnits limits.maxDispatchesPerSecond = some (rate : ℤ))
    (hbound : rate ≤ 500 * one)
    (hlimits : one ∣ rate ∨ burst * one ≤ rate ∨ limits.maxConcurrentDispatches = 0) :
    ∃ n', Whole limits burst rate n' (tally.call .refill) := by
  have hpos := one_pos
  have hn : n * one ≤ burst * one := Nat.mul_le_mul_right _ h.le_burst
  have hsmall : burst * one < 2 ^ 53 * one := Nat.mul_lt_mul_of_pos_right hburst hpos
  have hgranted := h.granted_le
  rw [add_mul] at hgranted
  -- a whole number of tokens is added, or the bucket is full
  obtain ⟨n', hn', hle, hfull⟩ : ∃ n', min (n * one + rate) (burst * one) = n' * one ∧
      n' * one ≤ n * one + rate ∧ (limits.maxConcurrentDispatches = 0 → n' = burst) := by
    rcases hlimits with ⟨k, rfl⟩ | hlarge | hzero
    · refine ⟨min (n + k) burst, ?_, ?_, ?_⟩
      · rw [Nat.mul_comm one k, ← Nat.add_mul, Nat.mul_min_mul_right]
      · rw [Nat.mul_comm one k, ← Nat.add_mul]
        exact Nat.mul_le_mul_right _ (min_le_left _ _)
      · intro hzero
        rw [h.full hzero]
        exact min_eq_right (Nat.le_add_right _ _)
    · exact ⟨burst, min_eq_right (by omega), by omega, fun _ => rfl⟩
    · obtain rfl := h.full hzero
      exact ⟨n, min_eq_right (by omega), by omega, fun _ => rfl⟩
  have hunits := @TokenBucket.refill_units tally.bucket _ _ _ h.tokens
    (by rw [h.limits_eq]; exact hrate) (by rw [h.limits_eq]; exact hB) (by omega) hburst (by
      intro hlt
      rw [min_eq_left hlt.le] at hn'
      refine ⟨n', 1074, ?_, by rw [hn', Doubles.one_eq]⟩
      exact lt_of_mul_lt_mul_right (by omega) (Nat.zero_le one))
  rw [hn'] at hunits
  refine ⟨n', h.limits_eq, h.concurrent_le, hunits, ?_, ?_, hfull⟩
  · exact le_of_mul_le_mul_right (hn' ▸ min_le_right _ _) hpos
  · change (tally.granted + n') * one ≤ burst * one + (tally.refills + 1) * rate
    rw [add_mul, add_mul]
    omega

theorem Whole.call (h : Whole limits burst rate n tally) (hburst : burst < 2 ^ 53)
    (hB : floatUnits limits.maxBurstSize = some ((burst * one : ℕ) : ℤ))
    (hrate : floatUnits limits.maxDispatchesPerSecond = some (rate : ℤ))
    (hbound : rate ≤ 500 * one)
    (hlimits : one ∣ rate ∨ burst * one ≤ rate ∨ limits.maxConcurrentDispatches = 0)
    (c : BucketCall) : ∃ n', Whole limits burst rate n' (tally.call c) := by
  cases c with
  | acquire => exact h.acquire hburst
  | release =>
      exact ⟨n, { h with concurrent_le := (Nat.sub_le _ _).trans h.concurrent_le }⟩
  | refill => exact h.refill hburst hB hrate hbound hlimits

/-- The bound on acquisitions, multiplied out. -/
theorem granted_le_iff (granted refills : ℕ) :
    (granted : ℚ) ≤ ((burst * one : ℕ) : ℤ) / one + refills * ((rate : ℤ) / one) ↔
      granted * one ≤ burst * one + refills * rate := by
  have hone : (0 : ℚ) < one := Nat.cast_pos.2 one_pos
  have hsum : ((burst * one : ℕ) : ℤ) / one + refills * ((rate : ℤ) / one : ℚ) =
      (burst * one + refills * rate : ℕ) / one := by
    push_cast
    rw [add_div, mul_div_assoc (refills : ℚ)]
  rw [hsum, le_div_iff₀ hone]
  exact_mod_cast Iff.rfl

theorem Whole.lawful (h : Whole limits burst rate n tally)
    (hB : floatUnits limits.maxBurstSize = some ((burst * one : ℕ) : ℤ))
    (hrate : floatUnits limits.maxDispatchesPerSecond = some (rate : ℤ)) :
    Lawful limits tally := by
  refine ⟨h.concurrent_le, ?_, ?_, ?_⟩
  · rw [Doubles.le_iff_units floatUnits_zero h.tokens]
    omega
  · rw [Doubles.le_iff_units h.tokens hB]
    exact_mod_cast Nat.mul_le_mul_right _ h.le_burst
  · intro b hb r hr
    rw [Doubles.value_eq_of_units hB] at hb
    rw [Doubles.value_eq_of_units hrate] at hr
    cases hb
    cases hr
    rw [granted_le_iff]
    exact (Nat.mul_le_mul_right _ (Nat.le_add_right _ n)).trans h.granted_le

theorem Whole.foldl (h : Whole limits burst rate n tally) (hburst : burst < 2 ^ 53)
    (hB : floatUnits limits.maxBurstSize = some ((burst * one : ℕ) : ℤ))
    (hrate : floatUnits limits.maxDispatchesPerSecond = some (rate : ℤ))
    (hbound : rate ≤ 500 * one)
    (hlimits : one ∣ rate ∨ burst * one ≤ rate ∨ limits.maxConcurrentDispatches = 0)
    (calls : List BucketCall) : ∃ n', Whole limits burst rate n' (calls.foldl Tally.call tally) := by
  induction calls generalizing tally n with
  | nil => exact ⟨n, h⟩
  | cons c calls ih =>
      obtain ⟨n', h'⟩ := h.call hburst hB hrate hbound hlimits c
      exact ih h'

theorem whole_start (hB : floatUnits limits.maxBurstSize = some ((burst * one : ℕ) : ℤ)) :
    Whole limits burst rate burst (start limits) where
  limits_eq := rfl
  concurrent_le := Nat.zero_le _
  tokens := hB
  le_burst := le_rfl
  granted_le := by
    change (0 + burst) * one ≤ burst * one + 0 * rate
    rw [Nat.zero_add]
    exact Nat.le_add_right _ _
  full _ := rfl

/-! ### A part of a token -/

/-- As many dispatches as there are whole tokens, one after the other. -/
def drain (n : ℕ) : List BucketCall := (List.replicate n [.acquire, .release]).flatten

theorem drain_succ (n : ℕ) : drain (n + 1) = .acquire :: .release :: drain n := rfl

/-- A number of 53 digits keeps them when whole tokens are taken from it. -/
theorem digits_sub_one {n : ℕ} (hdigits : ∃ m p, m < 2 ^ 53 ∧ n = m * 2 ^ p)
    (hbound : n < 2 ^ 53 * one) : ∃ m p, m < 2 ^ 53 ∧ n - one = m * 2 ^ p := by
  obtain ⟨m, p, hm, rfl⟩ := hdigits
  rw [Doubles.one_eq] at hbound ⊢
  rcases le_total p 1074 with hp | hp
  · refine ⟨m - 2 ^ (1074 - p), p, (Nat.sub_le _ _).trans_lt hm, ?_⟩
    rw [Nat.sub_mul, ← pow_add, Nat.sub_add_cancel hp]
  · obtain ⟨i, rfl⟩ := Nat.exists_eq_add_of_le' hp
    rw [pow_add, ← mul_assoc] at hbound ⊢
    have hlt := lt_of_mul_lt_mul_right hbound (by positivity)
    exact ⟨m * 2 ^ i - 1, 1074, by omega, by rw [Nat.sub_mul, Nat.one_mul]⟩

theorem foldl_drain (k : ℕ) {bucket : TokenBucket} (granted refills : ℕ) {n : ℕ}
    (hn : floatUnits bucket.tokens = some (n : ℤ)) (hk : k * one ≤ n)
    (hbound : n < 2 ^ 53 * one) (hdigits : ∃ m p, m < 2 ^ 53 ∧ n = m * 2 ^ p)
    (hconcurrent : bucket.concurrent < bucket.limits.maxConcurrentDispatches) :
    ∃ drained : TokenBucket, (drain k).foldl call ⟨bucket, granted, refills⟩ =
        ⟨drained, granted + k, refills⟩ ∧
      drained.concurrent = bucket.concurrent ∧ drained.limits = bucket.limits ∧
      floatUnits drained.tokens = some ((n - k * one : ℕ) : ℤ) := by
  induction k generalizing bucket granted n with
  | zero => exact ⟨bucket, rfl, rfl, rfl, by rwa [Nat.zero_mul, Nat.sub_zero]⟩
  | succ k ih =>
      rw [Nat.succ_mul] at hk
      have hdigits' := digits_sub_one hdigits hbound
      obtain ⟨tokens, hacquire, hunits⟩ :=
        TokenBucket.acquire_units hn (by omega) (by omega) hdigits' hconcurrent
      obtain ⟨drained, hrest, hconcurrent', hlimits, hunits'⟩ :=
        @ih { bucket with tokens } (granted + 1) _ hunits (by omega) (by omega) hdigits'
          hconcurrent
      refine ⟨drained, ?_, hconcurrent', hlimits, ?_⟩
      · rw [show granted + (k + 1) = granted + 1 + k by omega, ← hrest, drain_succ, List.foldl_cons,
          List.foldl_cons]
        congr 1
        rw [call_acquire hacquire]
        rfl
      · rw [hunits', Nat.succ_mul, Nat.sub_sub, Nat.add_comm one]

end Tally

theorem RateLimits.Accepted.units {limits : RateLimits} (h : limits.Accepted) :
    ∃ burst rate : ℕ, burst < 2 ^ 53 ∧ rate ≤ 500 * one ∧
      floatUnits limits.maxBurstSize = some ((burst * one : ℕ) : ℤ) ∧
      floatUnits limits.maxDispatchesPerSecond = some (rate : ℤ) := by
  obtain ⟨burst, hburst, hvalue⟩ := h.burst
  have hlow : ∃ low : ℕ, floatUnits 0.01 = some (low : ℤ) :=
    ⟨5764607523034235 * 2 ^ 1015, by decide +kernel⟩
  have hhigh : floatUnits 500 = some ((500 * one : ℕ) : ℤ) := by decide +kernel
  obtain ⟨low, hlow⟩ := hlow
  obtain ⟨rate, hrate⟩ := Doubles.exists_units_of_le h.le_rate h.rate_le hlow hhigh
  have hle := (Doubles.le_iff_units hlow hrate).1 h.le_rate
  have hle' := (Doubles.le_iff_units hrate hhigh).1 h.rate_le
  obtain ⟨rate, rfl⟩ := Int.eq_ofNat_of_zero_le ((Int.natCast_nonneg low).trans hle)
  exact ⟨burst, rate, hburst, Int.ofNat_le.1 hle', Doubles.value_eq_natCast.1 hvalue, hrate⟩

/-- All tokens of the start, then those of one refill, then a dispatch for the rest of it. -/
theorem exists_overspent {limits : RateLimits} {burst rate : ℕ} (hburst : burst < 2 ^ 53)
    (hB : floatUnits limits.maxBurstSize = some ((burst * one : ℕ) : ℤ))
    (hrate : floatUnits limits.maxDispatchesPerSecond = some (rate : ℤ))
    (hlt : rate < burst * one) (hrest : 0 < rate - rate / one * one)
    (hsome : 0 < limits.maxConcurrentDispatches) :
    ∃ calls bucket, Tally.after limits calls = ⟨bucket, burst + rate / one + 1, 1⟩ := by
  have hsmall : burst * one < 2 ^ 53 * one := Nat.mul_lt_mul_of_pos_right hburst one_pos
  obtain ⟨empty, hfirst, hidle, hlimits, hempty⟩ := @Tally.foldl_drain burst
    (.new limits) 0 0 _ hB le_rfl hsmall ⟨burst, 1074, hburst, by rw [Doubles.one_eq]⟩ hsome
  have hconcurrent : empty.concurrent < empty.limits.maxConcurrentDispatches := by
    rw [hidle, hlimits]
    exact hsome
  rw [Nat.sub_self] at hempty
  obtain ⟨m, p, hm, hdigits⟩ := Doubles.exists_digits hrate (Int.natCast_nonneg rate)
  have hdigits : ∃ m p, m < 2 ^ 53 ∧ rate = m * 2 ^ p := ⟨m, p, hm, Int.natCast_inj.1 hdigits⟩
  have hrefill := TokenBucket.refill_units hempty (by rw [hlimits]; exact hrate)
    (by rw [hlimits]; exact hB) (by omega) hburst (fun _ => by rwa [Nat.zero_add])
  rw [Nat.zero_add, min_eq_left hlt.le] at hrefill
  obtain ⟨part, hsecond, hidle', hlimits', hunits⟩ := Tally.foldl_drain (rate / one) burst 1
    hrefill (Nat.div_mul_le_self _ _) (by omega) hdigits hconcurrent
  have hacquire := TokenBucket.acquire_of_pos hunits hrest (by
    rw [hidle', hlimits']
    exact hconcurrent)
  refine ⟨Tally.drain burst ++ .refill :: (Tally.drain (rate / one) ++ [.acquire]),
    { part with tokens := part.tokens - 1, concurrent := part.concurrent + 1 }, ?_⟩
  rw [Nat.zero_add] at hfirst
  unfold Tally.after Tally.start
  rw [List.foldl_append, hfirst, List.foldl_cons, List.foldl_append]
  change [_].foldl Tally.call (List.foldl _ ⟨empty.refill, _, _⟩ _) = _
  rw [hsecond]
  exact Tally.call_acquire hacquire _ _

/-- **The law of a token bucket** holds for the limits whose refills leave no part of a token, and
for no others. -/
theorem after_lawful_iff {limits : RateLimits} (h : limits.Accepted) :
    (∀ calls, (Tally.after limits calls).Lawful limits) ↔
      limits.WholeRate ∨ limits.maxBurstSize ≤ limits.maxDispatchesPerSecond ∨
        limits.maxConcurrentDispatches = 0 := by
  obtain ⟨burst, rate, hburst, hbound, hB, hrate⟩ := h.units
  have hpos := one_pos
  constructor
  · intro hlaw
    by_contra hnone
    obtain ⟨hwhole, hnone⟩ := not_or.1 hnone
    obtain ⟨hlarge, hzero⟩ := not_or.1 hnone
    have hlt : rate < burst * one := by
      rw [Doubles.le_iff_units hB hrate] at hlarge
      omega
    have hrest : 0 < rate - rate / one * one := by
      apply Nat.sub_pos_of_lt
      refine lt_of_le_of_ne (Nat.div_mul_le_self _ _) fun heq => hwhole ⟨rate / one, ?_⟩
      rw [Doubles.value_eq_natCast, heq]
      exact hrate
    obtain ⟨calls, bucket, hcalls⟩ :=
      exists_overspent hburst hB hrate hlt hrest (Nat.pos_of_ne_zero hzero)
    have hgranted := (hcalls ▸ hlaw calls).granted_le _ (Doubles.value_eq_of_units hB) _
      (Doubles.value_eq_of_units hrate)
    rw [Tally.granted_le_iff, Nat.one_mul, add_assoc, add_mul, Nat.succ_mul] at hgranted
    have hdiv := Nat.lt_div_mul_add (a := rate) hpos
    omega
  · intro hlimits calls
    have hcases : one ∣ rate ∨ burst * one ≤ rate ∨ limits.maxConcurrentDispatches = 0 := by
      refine hlimits.imp ?_ (Or.imp_left fun hle => ?_)
      · rintro ⟨k, hk⟩
        have hunits := Doubles.value_eq_natCast.1 hk
        rw [hrate, Option.some_inj] at hunits
        exact ⟨k, by rw [Nat.mul_comm]; exact_mod_cast hunits⟩
      · exact_mod_cast (Doubles.le_iff_units hB hrate).1 hle
    obtain ⟨n, hn⟩ := (Tally.whole_start hB).foldl hburst hB hrate hbound hcases calls
    exact hn.lawful hB hrate

/-- A queue with one token, dispatching one task at a time, every two seconds. -/
def halfRate : RateLimits := ⟨0.5, 1, 1⟩

theorem halfRate_accepted : halfRate.Accepted where
  le_rate := by decide +kernel
  rate_le := by decide +kernel
  burst := ⟨1, by norm_num, Doubles.value_eq_natCast.2 (by decide +kernel)⟩
  concurrent := by decide

theorem not_after_lawful :
    halfRate.Accepted ∧
      ¬(Tally.after halfRate [.acquire, .release, .refill, .acquire]).Lawful halfRate := by
  refine ⟨halfRate_accepted, fun h => ?_⟩
  have htokens : ¬0 ≤ (Tally.after halfRate [.acquire, .release, .refill, .acquire]).bucket.tokens :=
    by decide +kernel
  exact htokens h.tokens_nonneg

theorem after_lawful_iff_halfRate :
    halfRate.Accepted ∧ ((∀ calls, (Tally.after halfRate calls).Lawful halfRate) ↔
      halfRate.WholeRate ∨ halfRate.maxBurstSize ≤ halfRate.maxDispatchesPerSecond ∨
        halfRate.maxConcurrentDispatches = 0) :=
  ⟨halfRate_accepted, after_lawful_iff halfRate_accepted⟩

end Kinglet.Tasks
