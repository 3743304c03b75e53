import Kinglet.Js.Rfc3339
import Kinglet.Tasks.Engine

/-!
# Which tasks are due

`createTask` stores the `scheduleTime` of a request as it is spelled, and `findDispatchableTasks`
compares that text with the text of the time, unit by unit as SQLite does. The order of the two is
that of a time the spelling reads as: its date and time of day as they are written, whatever the
offset, and for a spelling that ends early in `Z` all that the missing digits could be.

A spelling is misread at the times between that one and the instant it denotes, and from the year
10000 on, whose texts start with a sign.
-/

namespace Kinglet.Tasks

open Js

/-! ## Spellings -/

/-- What `z.string().datetime({ offset: true })` accepts: the spellings of RFC 3339 with capital
letters, and those without seconds. -/
structure Datetime where
  spelling : Spelling
  withoutSeconds : Bool
  capitalT : spelling.smallT = false
  capitalZ : spelling.zone ≠ .utc true
  noSeconds : withoutSeconds = true → spelling.second % 60 = 0 ∧ spelling.fraction = []

namespace Datetime

variable (dt : Datetime)

def text : JsString :=
  if dt.withoutSeconds then
    dateText dt.spelling.day ++
      unit 'T' :: ((clockText dt.spelling.second).take 5 ++ dt.spelling.zone.text)
  else dt.spelling.text

/-- The instant it denotes, in milliseconds. -/
def instant : ℚ := dt.spelling.instant

/-- What the digits that are missing before `Z` could be: a minute, a second, or a part of one. -/
def missing : ℕ :=
  if dt.spelling.zone.isLetter then
    if dt.withoutSeconds then 60000
    else if dt.spelling.fraction.length < 3 then 10 ^ (3 - dt.spelling.fraction.length) else 0
  else 0

/-- The milliseconds that are written, without further digits. -/
def writtenMs : ℕ :=
  Spelling.digitsNumber (dt.spelling.fraction.take 3) * 10 ^ (3 - dt.spelling.fraction.length)

/-- The time the text reads as. -/
def reading : ℤ := instantOf dt.spelling.day dt.spelling.second dt.writtenMs + dt.missing

/-- The time lies between the instant and the reading of a spelling, or past both in a year whose
text has a sign. -/
def Misread (now : ℤ) : Prop :=
  (dt.reading ≤ now ∧ now < year10000 ∧ (now : ℚ) < dt.instant) ∨
    (dt.instant ≤ (now : ℚ) ∧ (now < dt.reading ∨ year10000 ≤ now))

instance (now : ℤ) : Decidable (dt.Misread now) := inferInstanceAs (Decidable (_ ∨ _))

end Datetime

/-! ## The order of the texts -/

theorem le_iff_not_le_or_eq (a b : JsString) : a ≤ b ↔ ¬b ≤ a ∨ a = b := by
  constructor
  · intro h
    rcases List.le_iff_lt_or_eq.1 h with hlt | heq
    · exact .inl (List.not_le.2 hlt)
    · exact .inr heq
  · rintro (h | rfl)
    · exact List.not_lt.1 fun hlt => h (List.not_lt.1 (List.lt_asymm hlt))
    · exact List.le_refl a

theorem length_text_zone (zone : Zone) (h : zone.InRange) :
    zone.text.length = if zone.isLetter then 1 else 6 := by
  cases zone with
  | utc small => rfl
  | offset negative hours minutes =>
      obtain ⟨hhours, hminutes⟩ := h
      have hpart : ∀ n < 100, (padStart 2 (decimal n)).length = 2 := fun n hn =>
        length_padStart (length_decimal_le (by decide) hn)
      simp only [Zone.text, List.length_cons, List.length_append, hpart hours (by omega),
        hpart minutes (by omega)]
      rfl

/-- Only a spelling with milliseconds and `Z` can be the text of a date. -/
theorem length_fraction_of_eq {dt : Datetime} (hlong : dt.withoutSeconds = false) {now : ℤ}
    (h : yearZero ≤ now) (h' : now < year10000) (heq : dt.text = toISOString now) :
    dt.spelling.fraction.length = 3 ∧ dt.spelling.zone.isLetter = true := by
  obtain ⟨day, second, ms, hday, hsecond, hms, rfl⟩ := exists_instantOf h h'
  have hmillis : (millisText ms).length = 4 := by rw [millisText_eq hms]; rfl
  have hlength := congrArg List.length heq
  have hzone := length_text_zone _ dt.spelling.zoneInRange
  rw [Datetime.text, hlong, if_neg Bool.false_ne_true, toISOString_instantOf hday hsecond hms,
    Spelling.text, Spelling.rest] at hlength
  simp only [List.length_append, List.length_cons, length_dateText hday,
    length_dateText dt.spelling.dayInYears, length_clockText hsecond,
    length_clockText dt.spelling.secondInDay, hzone, hmillis] at hlength
  cases hletter : dt.spelling.zone.isLetter <;> cases hfraction : dt.spelling.fraction
  · simp [hletter, hfraction] at hlength
  · simp [hletter, hfraction] at hlength
    omega
  · simp [hletter, hfraction] at hlength
  · simp [hletter, hfraction] at hlength
    exact ⟨by simp only [List.length_cons]; omega, rfl⟩

/-- The spelling with milliseconds and `Z` is the text of its reading. -/
theorem text_eq_toISOString {dt : Datetime} (hlong : dt.withoutSeconds = false)
    (hfraction : dt.spelling.fraction.length = 3) (hletter : dt.spelling.zone.isLetter = true) :
    dt.text = toISOString dt.reading := by
  have hzone : dt.spelling.zone.text = [unit 'Z'] := by
    have hsmall := dt.capitalZ
    cases hz : dt.spelling.zone with
    | utc small =>
        cases small
        · rfl
        · exact absurd hz hsmall
    | offset negative hours minutes =>
        rw [hz] at hletter
        exact absurd hletter Bool.false_ne_true
  obtain ⟨d, e, f, hdef⟩ := List.length_eq_three.1 hfraction
  have hdigits := dt.spelling.digits
  rw [hdef] at hdigits
  have hd := hdigits d (by simp)
  have he := hdigits e (by simp)
  have hf := hdigits f (by simp)
  have hms : dt.writtenMs = 100 * d + 10 * e + f := by
    simp [Datetime.writtenMs, hdef, Spelling.digitsNumber]
    omega
  have hmissing : dt.missing = 0 := by
    simp [Datetime.missing, hlong, hfraction]
  rw [Datetime.reading, hmissing, Nat.cast_zero, add_zero,
    toISOString_instantOf dt.spelling.dayInYears dt.spelling.secondInDay (by omega), hms,
    millisText_eq (by omega), show (100 * d + 10 * e + f) / 100 = d by omega,
    show (100 * d + 10 * e + f) / 10 % 10 = e by omega,
    show (100 * d + 10 * e + f) % 10 = f by omega, Datetime.text, hlong, if_neg Bool.false_ne_true,
    Spelling.text, dt.capitalT, Spelling.rest, hdef, hzone]
  rfl

/-- The reading of a spelling with seconds, by the threshold of the texts that come up to it. -/
theorem reading_eq {dt : Datetime} (hlong : dt.withoutSeconds = false) :
    dt.reading = if dt.spelling.fraction.length = 3 ∧ dt.spelling.zone.isLetter = true
      then dt.spelling.threshold - 1 else dt.spelling.threshold := by
  unfold Datetime.reading Datetime.missing Datetime.writtenMs Spelling.threshold Spelling.thresholdMs
  rw [hlong, dt.capitalT]
  cases hletter : dt.spelling.zone.isLetter
  · simp
  · rcases Nat.lt_trichotomy dt.spelling.fraction.length 3 with hlt | heq | hgt
    · simp [hlt, hlt.le, hlt.ne, instantOf, add_mul]
      ring
    · simp [heq, instantOf]
      ring
    · simp [hgt.not_gt, hgt.ne', Nat.not_le.2 hgt]

theorem Datetime.exists_text_eq (dt : Datetime) :
    ∃ more, dt.text = dateText dt.spelling.day ++ more := by
  unfold Datetime.text
  split
  · exact ⟨_, rfl⟩
  · exact ⟨_, rfl⟩

/-- The texts of the other years start with a sign and come before every spelling. -/
theorem not_text_le_of_sign (dt : Datetime) {now : ℤ} (h : now < yearZero ∨ year10000 ≤ now) :
    ¬dt.text ≤ toISOString now := by
  obtain ⟨more, htext⟩ := dt.exists_text_eq
  obtain ⟨sign, rest, hlow, hnow⟩ := exists_sign_toISOString h
  obtain ⟨digit, more', hdigit, hdate⟩ := exists_digit_dateText dt.spelling.day
  rw [htext, hdate, hnow, List.cons_append, List.cons_le_cons_iff]
  rintro (hlt | ⟨heq, -⟩)
  · exact UInt16.lt_asymm hlt (UInt16.lt_of_lt_of_le hlow hdigit)
  · exact UInt16.lt_irrefl _ (UInt16.lt_of_lt_of_le hlow (heq ▸ hdigit))

theorem yearZero_le_reading (dt : Datetime) : yearZero ≤ dt.reading := by
  have hday := dt.spelling.dayInYears.1
  unfold yearZero Datetime.reading instantOf
  omega

theorem text_le_iff_of_seconds {dt : Datetime} (hlong : dt.withoutSeconds = false) (now : ℤ) :
    dt.text ≤ toISOString now ↔ dt.reading ≤ now ∧ now < year10000 := by
  by_cases hrange : yearZero ≤ now ∧ now < year10000
  · have htext : dt.text = dt.spelling.text := by
      rw [Datetime.text, hlong, if_neg Bool.false_ne_true]
    have hreading := reading_eq hlong
    by_cases hcanonical :
        dt.spelling.fraction.length = 3 ∧ dt.spelling.zone.isLetter = true
    · have hthreshold : dt.spelling.threshold ≤ year10000 := by
        have hday := dt.spelling.dayInYears.2
        have hsecond := dt.spelling.secondInDay
        have hms := dt.spelling.thresholdMs_le
        unfold Spelling.threshold year10000
        rw [dt.capitalT, if_neg Bool.false_ne_true, instantOf]
        omega
      rw [if_pos hcanonical] at hreading
      rw [text_eq_toISOString hlong hcanonical.1 hcanonical.2,
        toISOString_le_iff hrange.1 hrange.2]
      omega
    · rw [if_neg hcanonical] at hreading
      rw [le_iff_not_le_or_eq, or_iff_left fun heq =>
        hcanonical (length_fraction_of_eq hlong hrange.1 hrange.2 heq), htext,
        toISOString_le_text_iff, hreading]
      omega
  · refine iff_of_false (not_text_le_of_sign dt (by omega)) ?_
    have hzero := yearZero_le_reading dt
    omega

/-! ## Spellings without seconds -/

/-- `HH:MM`. -/
def minuteText (minute : ℕ) : JsString :=
  padStart 2 (decimal (minute / 60)) ++ js ":" ++ padStart 2 (decimal (minute % 60))

theorem clockText_eq (second : ℕ) :
    clockText second =
      minuteText (second / 60) ++ (unit ':' :: padStart 2 (decimal (second % 60))) := by
  have hcolon : js ":" = [unit ':'] := rfl
  rw [clockText, minuteText, Nat.div_div_eq_div_mul]
  simp only [hcolon, List.append_assoc, List.cons_append, List.nil_append]

theorem length_minuteText {minute : ℕ} (h : minute < 1440) : (minuteText minute).length = 5 := by
  have hpart : ∀ n < 100, (padStart 2 (decimal n)).length = 2 := fun n hn =>
    length_padStart (length_decimal_le (by decide) hn)
  have hcolon : (js ":").length = 1 := rfl
  simp only [minuteText, List.length_append, hcolon, hpart (minute / 60) (by omega),
    hpart (minute % 60) (by omega)]

theorem take_clockText {second : ℕ} (h : second < 86400) :
    (clockText second).take 5 = minuteText (second / 60) := by
  rw [clockText_eq, List.take_left' (length_minuteText (by omega))]

theorem minuteText_lt {minute minute' : ℕ} (h' : minute' < 1440) (h : minute < minute') :
    minuteText minute < minuteText minute' := by
  have hclock := @clockText_lt (minute * 60) (minute' * 60) (by omega) (by omega)
  rw [clockText_eq, clockText_eq, Nat.mul_div_cancel _ (by decide), Nat.mul_div_cancel _ (by decide),
    Nat.mul_mod_left, Nat.mul_mod_left] at hclock
  exact lt_of_append_lt ((length_minuteText (h.trans h')).trans (length_minuteText h').symm) hclock

theorem minuteText_le_iff {minute minute' : ℕ} (h : minute < 1440) (h' : minute' < 1440)
    (a b : JsString) :
    minuteText minute ++ a ≤ minuteText minute' ++ b ↔
      minute < minute' ∨ minute = minute' ∧ a ≤ b := by
  rw [append_le_append_iff ((length_minuteText h).trans (length_minuteText h').symm)]
  rcases lt_trichotomy minute minute' with hlt | rfl | hgt
  · exact iff_of_true (.inl (minuteText_lt h' hlt)) (.inl hlt)
  · simp [List.lt_irrefl]
  · have htext := minuteText_lt h hgt
    refine iff_of_false ?_ (by omega)
    rintro (hlt | ⟨heq, -⟩)
    · exact List.lt_asymm htext hlt
    · exact List.lt_irrefl _ (heq ▸ htext)

/-- A colon comes after the signs and before `Z`. -/
theorem zone_le_colon_iff {zone : Zone} (h : zone ≠ .utc true) (more : JsString) :
    zone.text ≤ unit ':' :: more ↔ zone.isLetter = false := by
  cases zone with
  | utc small =>
      cases small
      · refine iff_of_false (fun hle => ?_) (by decide)
        rcases List.cons_le_cons_iff.1 hle with hlt | ⟨heq, -⟩
        · exact absurd hlt (by decide)
        · exact absurd heq (by decide)
      · exact absurd rfl h
  | offset negative hours minutes =>
      refine iff_of_true (List.cons_le_cons_iff.2 (.inl ?_)) rfl
      cases negative <;> decide

theorem text_le_iff_of_minutes {dt : Datetime} (hshort : dt.withoutSeconds = true) (now : ℤ) :
    dt.text ≤ toISOString now ↔ dt.reading ≤ now ∧ now < year10000 := by
  by_cases hrange : yearZero ≤ now ∧ now < year10000
  · obtain ⟨day, second, ms, hday, hsecond, hms, rfl⟩ := exists_instantOf hrange.1 hrange.2
    obtain ⟨hminute, hfraction⟩ := dt.noSeconds hshort
    have hsecond' := dt.spelling.secondInDay
    have hms' : dt.writtenMs = 0 := by simp [Datetime.writtenMs, hfraction, Spelling.digitsNumber]
    have hcolon := zone_le_colon_iff dt.capitalZ
      (padStart 2 (decimal (second % 60)) ++ (unit '.' :: millisText ms))
    rw [Datetime.text, hshort, if_pos rfl, take_clockText hsecond',
      toISOString_instantOf hday hsecond hms, clockText_eq second,
      dateText_le_iff dt.spelling.dayInYears hday, List.cons_le_cons_iff, List.append_assoc,
      List.cons_append, minuteText_le_iff (by omega) (by omega), hcolon]
    simp only [UInt16.lt_irrefl, false_or, true_and]
    unfold Datetime.reading Datetime.missing
    rw [hms', hshort]
    unfold instantOf at hrange ⊢
    cases dt.spelling.zone.isLetter
    · simp only [if_false, Bool.false_eq_true, and_true]
      omega
    · simp only [if_true, Bool.true_eq_false, and_false, or_false]
      omega
  · refine iff_of_false (not_text_le_of_sign dt (by omega)) ?_
    have hzero := yearZero_le_reading dt
    omega

/-- **The texts a spelling comes up to** are those of the times from its reading on. -/
theorem text_le_toISOString_iff (dt : Datetime) (now : ℤ) :
    dt.text ≤ toISOString now ↔ dt.reading ≤ now ∧ now < year10000 := by
  cases hshort : dt.withoutSeconds with
  | true => exact text_le_iff_of_minutes hshort now
  | false => exact text_le_iff_of_seconds hshort now

/-! ## The selection -/

variable {s : State} {task : Task}

/-- A pending task with an HTTP request is found by its text alone, when no limit cuts it off. -/
theorem mem_findDispatchableTasks_iff (hmem : task ∈ s.tasks) (hpending : task.status = .pending)
    (hrequest : task.httpRequest.isSome) (now : ℤ) :
    task ∈ findDispatchableTasks textLe s task.queueName s.tasks.length now ↔
      task.scheduleTime ≤ toISOString now := by
  have hle : textLe task.scheduleTime (toISOString now) = true ↔
      task.scheduleTime ≤ toISOString now := by
    unfold textLe
    rw [Bool.not_eq_true', decide_eq_false_iff_not, List.not_lt]
  unfold findDispatchableTasks
  rw [List.take_of_length_le (by
    rw [List.length_insertionSort]
    exact List.length_filter_le _ _), List.mem_insertionSort, List.mem_filter, ← hle]
  simp [hmem, hpending, hrequest]

theorem noon_digits : ∀ d ∈ ([] : List ℕ), d < 10 := fun _ h => absurd h List.not_mem_nil

/-- Noon of 2026-01-01, five hours behind UTC. -/
def noon : Datetime where
  spelling := {
    day := 20454
    second := 43200
    smallT := false
    fraction := []
    zone := .offset true 5 0
    dayInYears := by decide
    secondInDay := by decide
    digits := noon_digits
    zoneInRange := ⟨by decide, by decide⟩ }
  withoutSeconds := false
  capitalT := rfl
  capitalZ := by decide
  noSeconds := by decide

example : noon.text = js "2026-01-01T12:00:00-05:00" := by decide +kernel

def noonTask : Task where
  name := js "projects/p/locations/l/queues/q/tasks/t"
  queueName := js "projects/p/locations/l/queues/q"
  httpRequest := some (js "\x7b\x7d")
  scheduleTime := noon.text
  dispatchCount := 0
  responseCount := 0
  firstAttempt := none
  lastAttempt := none
  status := .pending
  tombstoneExpiry := none

def noonStore : State := ⟨[noonTask], [], fun _ => none, false, 0, [], []⟩

end Kinglet.Tasks
