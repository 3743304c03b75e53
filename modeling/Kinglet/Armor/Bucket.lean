import Kinglet.Armor.RateLimit

/-!
# One bucket of the rate limiter

What a charge does, seen from one bucket: the counters of its own bucket move as
`BucketState.charge` says, and those of every other bucket stay. All later results about the
limiter rest on these two facts and on the shape of bucket keys.
-/

namespace Kinglet.Armor

open Js Library

/-! ## Bucket keys -/

/-- Within one policy the key determines the rule and the client. -/
theorem bucketKey_right_inj {name : JsString} {p q : ℕ} {j k : JsString}
    (h : bucketKey name p j = bucketKey name q k) : p = q ∧ j = k := by
  have htail : decimal p ++ 0 :: j = decimal q ++ 0 :: k :=
    (List.cons.inj (List.append_cancel_left h)).2
  obtain ⟨hpq, hjk⟩ := append_cons_inj (zero_notMem_decimal p) (zero_notMem_decimal q) htail
  exact ⟨decimal_injective hpq, hjk⟩

/-- The key determines the policy name too, when names contain no NUL. -/
theorem bucketKey_left_inj {m n : JsString} (hm : (0 : UInt16) ∉ m) (hn : (0 : UInt16) ∉ n)
    {p q : ℕ} {j k : JsString} (h : bucketKey m p j = bucketKey n q k) : m = n :=
  (append_cons_inj hm hn h).1

theorem banThresholdKey_injective : Function.Injective banThresholdKey := fun _ _ h =>
  (List.cons.inj (List.append_cancel_left h)).2

/-! ## The state of a bucket -/

structure BucketState where
  rate : Option WindowCount
  ban : Option WindowCount
  banUntil : Option ℕ
deriving DecidableEq

def RateLimitStore.bucket (store : RateLimitStore) (key : JsString) : BucketState :=
  ⟨store.rateWindows key, store.banWindows (banThresholdKey key), store.bans key⟩

theorem nextCount_eq (windows : Table WindowCount) (key : JsString) (windowId : ℕ) :
    nextCount windows key windowId = countIn (windows key) windowId + 1 := by
  unfold nextCount countIn
  cases windows key with
  | none => rfl
  | some entry => simp only; split <;> rfl

namespace BucketState

variable (action : RateAction) (options : RateLimitOptions) (now : ℕ) (state : BucketState)

def banned : Bool := now < state.banUntil.getD 0

/-- Whether the next request is one too many for the ban window or, without a ban threshold, for
the rate window. -/
def overBan : Bool :=
  match action, options.ban with
  | .throttle, _ => false
  | .rateBasedBan, some (count, intervalSec) => count ≤ countIn state.ban (windowOf now intervalSec)
  | .rateBasedBan, none => options.limit ≤ countIn state.rate (windowOf now options.interval)

/-- Whether the next request is one too many for the rate window. -/
def overLimit : Bool := options.limit ≤ countIn state.rate (windowOf now options.interval)

/-- The state after a request that is not banned. -/
def counted (mode : RateMode) : BucketState where
  rate := countOne state.rate (windowOf now options.interval)
  ban := match action, options.ban with
    | .rateBasedBan, some (_, intervalSec) => countOne state.ban (windowOf now intervalSec)
    | _, _ => state.ban
  banUntil :=
    if mode = .commit ∧ state.overBan action options now then
      some (now + options.banDuration * 1000)
    else state.banUntil

theorem counted_ban {options : RateLimitOptions} {count intervalSec : ℕ}
    (hban : options.ban = some (count, intervalSec)) (mode : RateMode) :
    (state.counted .rateBasedBan options now mode).ban =
      countOne state.ban (windowOf now intervalSec) := by
  simp only [counted, hban]

/-- The answer to a request and the state after it. -/
def charge (mode : RateMode) : JsString × BucketState :=
  if state.banned now then (options.exceed, state)
  else
    (if state.overBan action options now || state.overLimit options now then options.exceed
      else options.conform,
      state.counted action options now mode)

end BucketState

/-! ## What a charge does -/

section Charge

variable (action : RateAction) (options : RateLimitOptions) (mode : RateMode) (now : ℕ)
  (store : RateLimitStore) {key other : JsString}

theorem isBanned_eq : isBanned store key now = (store.bucket key).banned now := rfl

theorem wouldBan_eq : wouldBan action options store key now =
    (store.bucket key).overBan action options now := by
  unfold wouldBan BucketState.overBan
  cases action with
  | throttle => rfl
  | rateBasedBan =>
      cases options.ban with
      | none => exact decide_eq_decide.2 (by rw [nextCount_eq, Nat.lt_succ_iff]; rfl)
      | some threshold => exact decide_eq_decide.2 (by rw [nextCount_eq, Nat.lt_succ_iff]; rfl)

/-- A charge answers what its bucket says. -/
theorem chargeBucket_fst : (chargeBucket action options mode key now store).1 =
    ((store.bucket key).charge action options now mode).1 := by
  unfold chargeBucket BucketState.charge
  rw [isBanned_eq]
  by_cases hbanned : (store.bucket key).banned now = true
  · rw [if_pos hbanned, if_pos hbanned]
  · rw [if_neg hbanned, if_neg hbanned]
    have hlimit : options.limit < nextCount store.rateWindows key (windowOf now options.interval) ↔
        (store.bucket key).overLimit options now = true := by
      rw [nextCount_eq, Nat.lt_succ_iff]
      exact decide_eq_true_iff.symm
    simp only [wouldBan_eq, Bool.or_eq_true, decide_eq_true_eq, hlimit]

/-- A charge moves its own bucket. -/
theorem chargeBucket_bucket : (chargeBucket action options mode key now store).2.bucket key =
    ((store.bucket key).charge action options now mode).2 := by
  unfold chargeBucket BucketState.charge
  rw [isBanned_eq]
  by_cases hbanned : (store.bucket key).banned now = true
  · rw [if_pos hbanned, if_pos hbanned]
  · rw [if_neg hbanned, if_neg hbanned]
    simp only [BucketState.counted, wouldBan_eq]
    unfold RateLimitStore.bucket
    simp only [BucketState.mk.injEq]
    refine ⟨?_, ?_, ?_⟩
    · simp [bump, nextCount_eq, countOne]
    · cases action with
      | throttle => rfl
      | rateBasedBan =>
          cases options.ban <;> simp [bump, nextCount_eq, countOne]
    · split <;> simp

/-- **Frame.** A charge leaves every other bucket alone. -/
theorem chargeBucket_bucket_of_ne (hne : other ≠ key) :
    (chargeBucket action options mode key now store).2.bucket other = store.bucket other := by
  unfold chargeBucket
  by_cases hbanned : isBanned store key now = true
  · rw [if_pos hbanned]
  · rw [if_neg hbanned]
    unfold RateLimitStore.bucket
    simp only [BucketState.mk.injEq]
    have hban : banThresholdKey other ≠ banThresholdKey key := banThresholdKey_injective.ne hne
    refine ⟨?_, ?_, ?_⟩
    · simp [bump, hne]
    · cases action with
      | throttle => rfl
      | rateBasedBan => cases options.ban <;> simp [bump, hban]
    · split <;> simp [hne]

end Charge

end Kinglet.Armor
