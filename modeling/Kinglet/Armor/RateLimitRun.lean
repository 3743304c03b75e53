import Kinglet.Armor.Bucket
import Kinglet.Library.Purge

/-!
# Runs of the rate limiter

A run is a list of `applyRateLimit` calls with a clock that never goes back. Its ledger notes for
each call whether it was counted and until when it bans its bucket, and a verdict is reached from
the ledger alone: denied while a ban noted there lasts, else by the numbers of counted requests in
the rate window and the ban window of the call. `rate_limit_run_law` shows that the counters answer
every call by its verdict.
-/

namespace Kinglet.Armor

open Js Library

/-- The arguments of one call of `applyRateLimit`, and the reading of the clock. -/
structure RateCall where
  policyName : JsString
  priority : ℕ
  action : RateAction
  options : RateLimitOptions
  attributes : RequestAttributes
  mode : RateMode
  now : ℕ

namespace RateCall

variable (host : Host) (call : RateCall)

def bucket : JsString :=
  bucketKey call.policyName call.priority (buildClientKey host call.options call.attributes)

def apply (store : RateLimitStore) : JsString × RateLimitStore :=
  applyRateLimit host call.policyName call.priority call.action call.options call.attributes
    call.mode call.now store

end RateCall

/-- The counters after a run. -/
def runCalls (host : Host) (store : RateLimitStore) (calls : List RateCall) : RateLimitStore :=
  runEvents (fun store call => call.apply host store) store calls

/-! ## The ledger -/

/-- What is noted about a call. -/
structure Entry where
  bucket : JsString
  now : ℕ
  counted : Bool
  bansUntil : Option ℕ

/-- The times of the counted requests of a bucket. -/
def countedTimes (past : List Entry) (bucket : JsString) : List ℕ :=
  (past.filter fun e => e.counted && decide (e.bucket = bucket)).map Entry.now

/-- How many requests of a bucket were counted in the window of `intervalSec` seconds around
`now`. -/
def requestsIn (past : List Entry) (bucket : JsString) (intervalSec now : ℕ) : ℕ :=
  (countedTimes past bucket).countP fun s =>
    decide (windowOf s intervalSec = windowOf now intervalSec)

/-- Whether a ban of the bucket lasts beyond `now`. -/
def bannedAt (past : List Entry) (bucket : JsString) (now : ℕ) : Bool :=
  past.any fun e => decide (e.bucket = bucket) && e.bansUntil.any (now < ·)

section Verdict

variable (host : Host) (past : List Entry) (call : RateCall)

/-- The call is not among the first requests of its rate window. -/
def overRate : Bool :=
  call.options.limit ≤ requestsIn past (call.bucket host) call.options.interval call.now

/-- The call is not among the first requests of its ban window or, without a ban threshold, of its
rate window. -/
def overThreshold : Bool :=
  match call.action, call.options.ban with
  | .throttle, _ => false
  | .rateBasedBan, some (count, intervalSec) =>
      count ≤ requestsIn past (call.bucket host) intervalSec call.now
  | .rateBasedBan, none => overRate host past call

def verdict : JsString :=
  if bannedAt past (call.bucket host) call.now then call.options.exceed
  else if overThreshold host past call || overRate host past call then call.options.exceed
  else call.options.conform

/-- Only a committed call beyond the threshold bans, and only when it is counted. -/
def note : Entry where
  bucket := call.bucket host
  now := call.now
  counted := !bannedAt past (call.bucket host) call.now
  bansUntil :=
    if bannedAt past (call.bucket host) call.now = false ∧ call.mode = .commit ∧
        overThreshold host past call then
      some (call.now + call.options.banDuration * 1000)
    else none

end Verdict

/-- The ledger of a run. -/
def ledger (host : Host) (calls : List RateCall) : List Entry :=
  calls.foldl (fun past call => past ++ [note host past call]) []

/-! ## The counters follow the ledger -/

theorem windowOf_monotone (intervalSec : ℕ) : Monotone (windowOf · intervalSec) := fun _ _ h =>
  Nat.div_le_div_right h

/-- What the state of a bucket holds of the ledger, when all calls of the bucket have these action
and options. -/
structure Follows (action : RateAction) (options : RateLimitOptions) (bucket : JsString)
    (past : List Entry) (state : BucketState) : Prop where
  rate : Tracks (windowOf · options.interval) (countedTimes past bucket) state.rate
  ban : ∀ count intervalSec, action = .rateBasedBan → options.ban = some (count, intervalSec) →
    Tracks (windowOf · intervalSec) (countedTimes past bucket) state.ban
  untilLast : ∀ e ∈ past, e.bucket = bucket → ∀ u ∈ e.bansUntil, u ≤ state.banUntil.getD 0
  untilNoted : ∀ u ∈ state.banUntil, ∃ e ∈ past, e.bucket = bucket ∧ u ∈ e.bansUntil

section Follows

variable {host : Host} {action : RateAction} {options : RateLimitOptions} {bucket : JsString}
  {past : List Entry} {state : BucketState} {call : RateCall}

/-- The bucket is banned exactly while a noted ban lasts. -/
theorem Follows.banned_eq (h : Follows action options bucket past state) (now : ℕ) :
    state.banned now = bannedAt past bucket now := by
  rw [Bool.eq_iff_iff]
  simp only [BucketState.banned, bannedAt, List.any_eq_true, Bool.and_eq_true, decide_eq_true_eq,
    Option.any_eq_true]
  constructor
  · intro hlt
    cases huntil : state.banUntil with
    | none => rw [huntil] at hlt; exact absurd hlt (Nat.not_lt_zero now)
    | some u =>
        obtain ⟨e, he, hbucket, hu⟩ := h.untilNoted u huntil
        rw [huntil] at hlt
        exact ⟨e, he, hbucket, u, hu, hlt⟩
  · rintro ⟨e, he, hbucket, u, hu, hlt⟩
    exact hlt.trans_le (h.untilLast e he hbucket u hu)

theorem Follows.overLimit_eq (h : Follows action options bucket past state) {now : ℕ}
    (hnow : ∀ s ∈ countedTimes past bucket, s ≤ now) :
    state.overLimit options now =
      decide (options.limit ≤ requestsIn past bucket options.interval now) := by
  rw [BucketState.overLimit, h.rate now hnow]
  rfl

theorem Follows.overBan_eq (h : Follows call.action call.options (call.bucket host) past state)
    (hnow : ∀ s ∈ countedTimes past (call.bucket host), s ≤ call.now) :
    state.overBan call.action call.options call.now = overThreshold host past call := by
  unfold BucketState.overBan overThreshold
  cases haction : call.action with
  | throttle => rfl
  | rateBasedBan =>
      cases hban : call.options.ban with
      | none => exact h.overLimit_eq hnow
      | some threshold =>
          simp only
          rw [h.ban threshold.1 threshold.2 haction hban call.now hnow]
          rfl

/-- A charge answers by the verdict of the ledger. -/
theorem Follows.charge_eq_verdict
    (h : Follows call.action call.options (call.bucket host) past state)
    (hnow : ∀ s ∈ countedTimes past (call.bucket host), s ≤ call.now) :
    (state.charge call.action call.options call.now call.mode).1 = verdict host past call := by
  unfold BucketState.charge verdict
  rw [h.banned_eq, h.overBan_eq hnow, h.overLimit_eq hnow]
  split <;> rfl

/-- A charge sets the ban that is noted, and keeps the one before when none is. -/
theorem Follows.charge_banUntil
    (h : Follows call.action call.options (call.bucket host) past state)
    (hnow : ∀ s ∈ countedTimes past (call.bucket host), s ≤ call.now) :
    (state.charge call.action call.options call.now call.mode).2.banUntil =
      (note host past call).bansUntil.or state.banUntil := by
  unfold BucketState.charge
  rw [h.banned_eq]
  by_cases hbanned : bannedAt past (call.bucket host) call.now = true
  · simp [note, hbanned]
  · rw [Bool.not_eq_true] at hbanned
    simp only [hbanned, note, BucketState.counted, h.overBan_eq hnow, true_and, Bool.false_eq_true,
      if_false]
    split <;> rfl

theorem countedTimes_append (past : List Entry) (e : Entry) (bucket : JsString) :
    countedTimes (past ++ [e]) bucket =
      countedTimes past bucket ++
        if e.counted = true ∧ e.bucket = bucket then [e.now] else [] := by
  simp only [countedTimes, List.filter_append, List.map_append]
  by_cases h : e.counted = true ∧ e.bucket = bucket
  · simp [h.1, h.2]
  · rw [if_neg h, List.filter_cons_of_neg (by simpa using h)]
    rfl

/-- A call of another bucket leaves the state and what it holds alone. -/
theorem Follows.append_other (h : Follows action options bucket past state)
    (hne : call.bucket host ≠ bucket) :
    Follows action options bucket (past ++ [note host past call]) state := by
  have htimes : countedTimes (past ++ [note host past call]) bucket = countedTimes past bucket := by
    rw [countedTimes_append, if_neg fun hb => hne hb.2, List.append_nil]
  refine ⟨htimes ▸ h.rate, fun n i ha hb => htimes ▸ h.ban n i ha hb, ?_, ?_⟩
  · intro e he hbucket u hu
    rcases List.mem_append.1 he with hmem | hmem
    · exact h.untilLast e hmem hbucket u hu
    · rw [List.mem_singleton.1 hmem] at hbucket
      exact absurd hbucket hne
  · intro u hu
    obtain ⟨e, he, hbucket, hu⟩ := h.untilNoted u hu
    exact ⟨e, List.mem_append_left _ he, hbucket, hu⟩

/-- A denied call is noted and changes nothing. -/
theorem Follows.append_banned
    (h : Follows call.action call.options (call.bucket host) past state)
    (hbanned : bannedAt past (call.bucket host) call.now = true) :
    Follows call.action call.options (call.bucket host) (past ++ [note host past call]) state := by
  have htimes : countedTimes (past ++ [note host past call]) (call.bucket host) =
      countedTimes past (call.bucket host) := by
    rw [countedTimes_append, if_neg (by simp [note, hbanned]), List.append_nil]
  refine ⟨htimes ▸ h.rate, fun n i ha hb => htimes ▸ h.ban n i ha hb, ?_, ?_⟩
  · intro e he hbucket u hu
    rcases List.mem_append.1 he with hmem | hmem
    · exact h.untilLast e hmem hbucket u hu
    · rw [List.mem_singleton.1 hmem] at hu
      simp [note, hbanned] at hu
  · intro u hu
    obtain ⟨e, he, hbucket, hu⟩ := h.untilNoted u hu
    exact ⟨e, List.mem_append_left _ he, hbucket, hu⟩

/-- A counted call moves both windows on and may set a ban, which outlasts every earlier one. -/
theorem Follows.append_counted
    (h : Follows call.action call.options (call.bucket host) past state)
    (hnow : ∀ s ∈ countedTimes past (call.bucket host), s ≤ call.now)
    (hbanned : bannedAt past (call.bucket host) call.now = false) :
    Follows call.action call.options (call.bucket host) (past ++ [note host past call])
      (state.counted call.action call.options call.now call.mode) := by
  have htimes : countedTimes (past ++ [note host past call]) (call.bucket host) =
      countedTimes past (call.bucket host) ++ [call.now] := by
    rw [countedTimes_append, if_pos ⟨by simp [note, hbanned], rfl⟩]
    rfl
  have hover := h.overBan_eq hnow
  have hexpired : state.banUntil.getD 0 ≤ call.now := by
    have := h.banned_eq call.now
    rw [hbanned, BucketState.banned, decide_eq_false_iff_not] at this
    omega
  refine ⟨?_, ?_, ?_, ?_⟩
  · rw [htimes]
    exact h.rate.countOne (windowOf_monotone _) hnow
  · intro count intervalSec haction hban
    rw [htimes, haction, BucketState.counted_ban _ _ hban]
    exact (h.ban count intervalSec haction hban).countOne (windowOf_monotone _) hnow
  · intro e he hbucket u hu
    simp only [BucketState.counted, hover]
    rcases List.mem_append.1 he with hmem | hmem
    · have hle := h.untilLast e hmem hbucket u hu
      split
      · simp only [Option.getD_some]
        omega
      · exact hle
    · rw [List.mem_singleton.1 hmem] at hu
      simp only [note, hbanned, true_and] at hu
      split at hu
      · rename_i hban
        rw [if_pos hban, ← Option.some.inj hu]
        exact le_rfl
      · exact absurd hu (Option.not_mem_none u)
  · intro u hu
    simp only [BucketState.counted, hover] at hu
    split at hu
    · rename_i hban
      refine ⟨note host past call, by simp, rfl, ?_⟩
      rw [← Option.some.inj hu]
      simp only [note, if_pos (And.intro hbanned hban)]
      exact rfl
    · obtain ⟨e, he, hbucket, hu⟩ := h.untilNoted u hu
      exact ⟨e, List.mem_append_left _ he, hbucket, hu⟩

/-- **Step.** A call of the bucket keeps its state in step with the ledger. -/
theorem Follows.append_own
    (h : Follows call.action call.options (call.bucket host) past state)
    (hnow : ∀ s ∈ countedTimes past (call.bucket host), s ≤ call.now) :
    Follows call.action call.options (call.bucket host) (past ++ [note host past call])
      (state.charge call.action call.options call.now call.mode).2 := by
  unfold BucketState.charge
  rw [h.banned_eq]
  split
  · rename_i hbanned
    exact h.append_banned hbanned
  · rename_i hbanned
    exact h.append_counted hnow (by simpa using hbanned)

end Follows

/-! ## Runs -/

section Run

variable {host : Host}

theorem runCalls_concat (store : RateLimitStore) (calls : List RateCall) (call : RateCall) :
    runCalls host store (calls ++ [call]) = (call.apply host (runCalls host store calls)).2 := by
  simp [runCalls, runEvents]

theorem ledger_concat (calls : List RateCall) (call : RateCall) :
    ledger host (calls ++ [call]) = ledger host calls ++ [note host (ledger host calls) call] := by
  simp [ledger]

theorem ledger_now (calls : List RateCall) :
    (ledger host calls).map Entry.now = calls.map (·.now) := by
  induction calls using List.reverseRecOn with
  | nil => rfl
  | append_singleton calls call ih => simp [ledger_concat, ih, note]

/-- Every time noted is the time of a call. -/
theorem countedTimes_le {calls : List RateCall} {bucket : JsString} {now : ℕ}
    (hclock : ∀ c ∈ calls, c.now ≤ now) :
    ∀ s ∈ countedTimes (ledger host calls) bucket, s ≤ now := by
  intro s hs
  obtain ⟨e, he, rfl⟩ := List.mem_map.1 hs
  have hmem : e.now ∈ calls.map (·.now) := by
    rw [← @ledger_now host]
    exact List.mem_map_of_mem (List.mem_filter.1 he).1
  obtain ⟨c, hc, hnow⟩ := List.mem_map.1 hmem
  exact hnow ▸ hclock c hc

theorem apply_bucket_of_ne {call : RateCall} {key : JsString} (hne : call.bucket host ≠ key)
    (store : RateLimitStore) : (call.apply host store).2.bucket key = store.bucket key :=
  chargeBucket_bucket_of_ne _ _ _ _ _ hne.symm

/-- **Run.** After any run the state of a bucket follows the ledger. -/
theorem runCalls_follows {action : RateAction} {options : RateLimitOptions} {bucket : JsString}
    {calls : List RateCall} (hclock : calls.Pairwise fun a b => a.now ≤ b.now)
    (hfixed : ∀ c ∈ calls, c.bucket host = bucket → c.action = action ∧ c.options = options) :
    Follows action options bucket (ledger host calls) ((runCalls host emptyStore calls).bucket bucket) := by
  induction calls using List.reverseRecOn with
  | nil =>
      refine ⟨tracks_nil _, fun _ _ _ _ => tracks_nil _, ?_, ?_⟩
      · intro e he
        exact absurd he List.not_mem_nil
      · intro u hu
        exact absurd hu (Option.not_mem_none u)
  | append_singleton calls call ih =>
      obtain ⟨hbefore, -, hlast⟩ := List.pairwise_append.1 hclock
      have hfollows := ih hbefore fun c hc => hfixed c (List.mem_append_left _ hc)
      rw [runCalls_concat, ledger_concat]
      by_cases hbucket : call.bucket host = bucket
      · obtain ⟨rfl, rfl⟩ := hfixed call (by simp) hbucket
        subst hbucket
        have hnow : ∀ s ∈ countedTimes (ledger host calls) (call.bucket host), s ≤ call.now :=
          countedTimes_le fun c hc => hlast c hc call List.mem_cons_self
        have hown := hfollows.append_own hnow
        rw [← chargeBucket_bucket] at hown
        exact hown
      · rw [apply_bucket_of_ne hbucket]
        exact hfollows.append_other hbucket

/-! ## Calls of other buckets -/

theorem apply_fst (call : RateCall) (store : RateLimitStore) : (call.apply host store).1 =
    ((store.bucket (call.bucket host)).charge call.action call.options call.now call.mode).1 :=
  chargeBucket_fst _ _ _ _ _

theorem apply_bucket (call : RateCall) (store : RateLimitStore) :
    (call.apply host store).2.bucket (call.bucket host) =
      ((store.bucket (call.bucket host)).charge call.action call.options call.now call.mode).2 :=
  chargeBucket_bucket _ _ _ _ _

/-- The calls of different buckets are separated by the states of the buckets. -/
theorem calls_separate : Separates (fun store (call : RateCall) => call.apply host store)
    (RateCall.bucket host) (fun _ => True) fun key s t => s.bucket key = t.bucket key where
  own call s t _ hagree := by
    rw [apply_fst, apply_fst, apply_bucket, apply_bucket, hagree]
    exact ⟨rfl, rfl⟩
  other call key s t _ hne hagree := by rw [apply_bucket_of_ne hne, hagree]

/-- **A call of another bucket can be left out.** -/
theorem apply_of_removed {front back : List RateCall} {other call : RateCall}
    (hne : other.bucket host ≠ call.bucket host) (store : RateLimitStore) :
    (call.apply host (runCalls host store (front ++ back))).1 =
      (call.apply host (runCalls host store (front ++ other :: back))).1 := by
  have hpurge := fun calls : List RateCall =>
    calls_separate.output_filter (fun _ (_ : _ ∈ calls) => trivial) trivial
      (rfl : store.bucket (call.bucket host) = store.bucket (call.bucket host))
  have hleft := hpurge (front ++ back)
  have hright := hpurge (front ++ other :: back)
  rw [List.filter_append, List.filter_cons_of_neg (by simpa using hne),
    ← List.filter_append] at hright
  exact hleft.trans hright.symm

/-! ## The law -/

/-- **Rate-limit run law.** Every call is answered from the ledger of the calls before it: denied
and not counted while a ban lasts, else by its place in its rate window and ban window. Only a
committed call beyond the threshold bans, and no call of another bucket matters. -/
theorem rate_limit_run_law (host : Host) (earlier : List RateCall) (call : RateCall)
    (hclock : (earlier ++ [call]).Pairwise fun a b => a.now ≤ b.now)
    (hfixed : ∀ c ∈ earlier, c.bucket host = call.bucket host →
      c.action = call.action ∧ c.options = call.options) :
    let store := runCalls host emptyStore earlier
    let past := ledger host earlier
    (bannedAt past (call.bucket host) call.now = true →
        call.apply host store = (call.options.exceed, store)) ∧
      (bannedAt past (call.bucket host) call.now = false →
        (call.apply host store).1 =
          if overThreshold host past call || overRate host past call then call.options.exceed
          else call.options.conform) ∧
      (call.apply host store).2.bans (call.bucket host) =
        (note host past call).bansUntil.or (store.bans (call.bucket host)) ∧
      (call.mode = .preview → (call.apply host store).2.bans = store.bans) ∧
      ∀ front other back, earlier = front ++ other :: back →
        other.bucket host ≠ call.bucket host →
        (call.apply host (runCalls host emptyStore (front ++ back))).1 =
          (call.apply host store).1 := by
  intro store past
  obtain ⟨hbefore, -, hlast⟩ := List.pairwise_append.1 hclock
  have hfollows := runCalls_follows hbefore hfixed
  have hnow : ∀ s ∈ countedTimes past (call.bucket host), s ≤ call.now :=
    countedTimes_le fun c hc => hlast c hc call List.mem_cons_self
  have hbanned := hfollows.banned_eq call.now
  have hcharge := hfollows.charge_eq_verdict hnow
  refine ⟨fun hban => ?_, fun hban => ?_, ?_, fun hpreview => ?_, ?_⟩
  · rw [hban] at hbanned
    exact if_pos hbanned
  · rw [apply_fst, hcharge, verdict, hban]
    rfl
  · have hstate := congrArg BucketState.banUntil (@apply_bucket host call store)
    exact hstate.trans (hfollows.charge_banUntil hnow)
  · unfold RateCall.apply applyRateLimit chargeBucket
    rw [hpreview]
    split
    · rfl
    · simp
  · rintro front other back rfl hne
    exact apply_of_removed hne emptyStore

end Run

/-! ## After a ban -/

/-- The first request of a bucket at or after the end of a ban is answered as by fresh counters. -/
def FreshAfterBan (host : Host) : Prop :=
  ∀ (earlier : List RateCall) (call : RateCall),
    ((earlier ++ [call]).Pairwise fun a b => a.now ≤ b.now) →
    (∀ c ∈ earlier, c.bucket host = call.bucket host →
      c.action = call.action ∧ c.options = call.options) →
    ∀ e ∈ ledger host earlier, e.bucket = call.bucket host → ∀ u ∈ e.bansUntil, u ≤ call.now →
      (∀ c ∈ earlier, c.bucket host = call.bucket host → c.now < u) →
      (call.apply host (runCalls host emptyStore earlier)).1 = (call.apply host emptyStore).1

/-- One request an hour, and a ban of a minute for a second one. -/
def hourlyOptions : RateLimitOptions where
  rateLimitThreshold := some ⟨some 1, some 3600⟩
  banThreshold := none
  banDurationSec := some 60
  conformAction := none
  exceedAction := none
  enforceOnKey := none
  enforceOnKeyName := none
  enforceOnKeyConfigs := none

def hourlyCall (now : ℕ) : RateCall :=
  ⟨"edge", 1000, .rateBasedBan, hourlyOptions, sampleRequest, .commit, now⟩

/-- The rate window outlasts the ban: a minute later its count is still there. -/
theorem not_freshAfterBan : ¬ FreshAfterBan asciiHost := by
  intro h
  have hbanned : (note asciiHost (ledger asciiHost [hourlyCall 0]) (hourlyCall 1000)).bansUntil =
      some 61000 := by decide +kernel
  have hfresh := h [hourlyCall 0, hourlyCall 1000] (hourlyCall 61000) (by simp [hourlyCall])
    (by simp [hourlyCall]) (note asciiHost (ledger asciiHost [hourlyCall 0]) (hourlyCall 1000))
    (List.mem_append_right _ List.mem_cons_self) rfl 61000 hbanned le_rfl (by simp [hourlyCall])
  have hdiffer : ((hourlyCall 61000).apply asciiHost
      (runCalls asciiHost emptyStore [hourlyCall 0, hourlyCall 1000])).1 ≠
        ((hourlyCall 61000).apply asciiHost emptyStore).1 := by decide +kernel
  exact hdiffer hfresh

theorem rate_limit_run_law_hourly :
    ((hourlyCall 1000).apply asciiHost (runCalls asciiHost emptyStore [hourlyCall 0])).1 =
      if overThreshold asciiHost (ledger asciiHost [hourlyCall 0]) (hourlyCall 1000) ||
          overRate asciiHost (ledger asciiHost [hourlyCall 0]) (hourlyCall 1000) then
        hourlyOptions.exceed
      else hourlyOptions.conform :=
  (rate_limit_run_law asciiHost [hourlyCall 0] (hourlyCall 1000) (by simp [hourlyCall])
    (by simp [hourlyCall])).2.1 (by decide +kernel)

end Kinglet.Armor
