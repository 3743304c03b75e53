import Kinglet.Js.DateOrder
import Mathlib.Data.Rat.Cast.Order
import Mathlib.Tactic.IntervalCases
import Mathlib.Tactic.Ring

/-!
# Timestamps of RFC 3339

The spellings of an instant as a text of RFC 3339: a date and a time of day, any number of
fractional digits, and `Z` or an offset from UTC. The two letters may be small.

The text of a date made by `toISOString` is one of these spellings, and the order of such a text and
a spelling is settled at the first place where they differ. `toISOString_le_text_iff` turns that
place into an instant, the threshold of the spelling: the texts up to the spelling are those of the
dates before the threshold. It is in general not the instant the spelling denotes.
-/

namespace Kinglet.Js

/-! ## The parts of a date -/

/-- `YYYY-MM-DD`. -/
def dateText (day : ℤ) : JsString :=
  let (year, month, day) := civilDate day
  padStart 4 (decimal year.toNat) ++ js "-" ++ padStart 2 (decimal month) ++ js "-" ++
    padStart 2 (decimal day)

/-- `HH:MM:SS`. -/
def clockText (second : ℕ) : JsString :=
  padStart 2 (decimal (second / 3600)) ++ js ":" ++ padStart 2 (decimal (second / 60 % 60)) ++
    js ":" ++ padStart 2 (decimal (second % 60))

/-- `mmmZ`. -/
def millisText (ms : ℕ) : JsString := padStart 3 (decimal ms) ++ js "Z"

/-- A day of the years 0 to 9999. -/
def DayInYears (day : ℤ) : Prop := -719528 ≤ day ∧ day < 2932897

instance (day : ℤ) : Decidable (DayInYears day) := inferInstanceAs (Decidable (_ ∧ _))

/-- The instant of a day, a second of the day and a millisecond of the second. -/
def instantOf (day : ℤ) (second ms : ℕ) : ℤ := (day * 86400 + second) * 1000 + ms

theorem toISOString_instantOf {day : ℤ} {second ms : ℕ} (hday : DayInYears day)
    (hsecond : second < 86400) (hms : ms < 1000) :
    toISOString (instantOf day second ms) =
      dateText day ++ (unit 'T' :: (clockText second ++ (unit '.' :: millisText ms))) := by
  have hdiv : instantOf day second ms / 86400000 = day := by
    unfold instantOf
    omega
  have hmod : (instantOf day second ms % 86400000).toNat = second * 1000 + ms := by
    unfold instantOf
    omega
  obtain ⟨hle, hge⟩ := civilDate_year day hday.1 hday.2
  unfold toISOString dateText clockText millisText
  rw [hdiv, hmod]
  generalize civilDate day = date at hle hge ⊢
  obtain ⟨year, month, dayOfMonth⟩ := date
  dsimp only at hle hge ⊢
  rw [if_pos ⟨hle, hge⟩, show (second * 1000 + ms) / 3600000 = second / 3600 by omega,
    show (second * 1000 + ms) / 60000 % 60 = second / 60 % 60 by omega,
    show (second * 1000 + ms) / 1000 % 60 = second % 60 by omega,
    show (second * 1000 + ms) % 1000 = ms by omega]
  have hT : js "T" = [unit 'T'] := rfl
  have hdot : js "." = [unit '.'] := rfl
  simp only [hT, hdot, List.append_assoc, List.cons_append, List.nil_append]

/-- Every instant of the years 0 to 9999 has its parts. -/
theorem exists_instantOf {time : ℤ} (h : yearZero ≤ time) (h' : time < year10000) :
    ∃ day second ms, DayInYears day ∧ second < 86400 ∧ ms < 1000 ∧
      time = instantOf day second ms := by
  unfold yearZero at h
  unfold year10000 at h'
  refine ⟨time / 86400000, (time / 1000 % 86400).toNat, (time % 1000).toNat, ⟨?_, ?_⟩, ?_, ?_, ?_⟩
  · omega
  · omega
  · omega
  · omega
  · unfold instantOf
    omega

/-! ## The order of the parts -/

/-- Two texts with fronts of one length are compared by the fronts first. -/
theorem append_le_append_iff {a b c d : JsString} (hlength : a.length = b.length) :
    a ++ c ≤ b ++ d ↔ a < b ∨ a = b ∧ c ≤ d := by
  induction a generalizing b with
  | nil =>
    obtain rfl := List.length_eq_zero_iff.1 hlength.symm
    simp
  | cons x a ih =>
    obtain ⟨y, b, rfl⟩ := List.exists_cons_of_length_eq_add_one hlength.symm
    have hrest := ih (Nat.succ.inj hlength)
    rw [List.cons_append, List.cons_append, List.cons_le_cons_iff, hrest,
      List.cons_lt_cons_iff, List.cons.injEq]
    constructor
    · rintro (hxy | ⟨hxy, hab | ⟨hab, hcd⟩⟩)
      · exact .inl (.inl hxy)
      · exact .inl (.inr ⟨hxy, hab⟩)
      · exact .inr ⟨⟨hxy, hab⟩, hcd⟩
    · rintro ((hxy | ⟨hxy, hab⟩) | ⟨⟨hxy, hab⟩, hcd⟩)
      · exact .inl hxy
      · exact .inr ⟨hxy, .inl hab⟩
      · exact .inr ⟨hxy, .inr ⟨hab, hcd⟩⟩

theorem length_dateText {day : ℤ} (hday : DayInYears day) : (dateText day).length = 10 := by
  obtain ⟨hle, hge⟩ := civilDate_year day hday.1 hday.2
  have hfits := civilDate_fits day
  unfold dateText
  generalize civilDate day = date at hle hge hfits ⊢
  obtain ⟨year, month, dayOfMonth⟩ := date
  dsimp only at hle hge hfits ⊢
  have hyear : (padStart 4 (decimal year.toNat)).length = 4 :=
    length_padStart (length_decimal_le (by decide) (by omega))
  have hmonth : (padStart 2 (decimal month)).length = 2 :=
    length_padStart (length_decimal_le (by decide) (by omega))
  have hday : (padStart 2 (decimal dayOfMonth)).length = 2 :=
    length_padStart (length_decimal_le (by decide) (by omega))
  have hdash : (js "-").length = 1 := rfl
  simp only [List.length_append, hyear, hmonth, hday, hdash]

theorem length_clockText {second : ℕ} (hsecond : second < 86400) :
    (clockText second).length = 8 := by
  have hpart : ∀ n < 100, (padStart 2 (decimal n)).length = 2 := fun n hn =>
    length_padStart (length_decimal_le (by decide) hn)
  have hcolon : (js ":").length = 1 := rfl
  simp only [clockText, List.length_append, hcolon, hpart (second / 3600) (by omega),
    hpart (second / 60 % 60) (by omega), hpart (second % 60) (by omega)]

theorem lt_of_append_lt {a b c : JsString} (hlength : a.length = b.length)
    (h : a ++ c < b ++ c) : a < b := by
  by_contra hnot
  refine absurd h (List.not_lt.2 ((append_le_append_iff hlength.symm).2 ?_))
  rcases List.le_iff_lt_or_eq.1 (List.not_lt.1 hnot) with hback | heq
  · exact .inl hback
  · exact .inr ⟨heq, List.le_refl c⟩

theorem lt_of_append_left_lt {a b c : JsString} (h : a ++ b < a ++ c) : b < c := by
  by_contra hnot
  exact absurd h (List.not_lt.2 ((append_le_append_iff rfl).2 (.inr ⟨rfl, List.not_lt.1 hnot⟩)))

/-- Dates are in the order of their texts: whole instants are, and the rest of their texts agrees. -/
theorem dateText_lt {day day' : ℤ} (hday : DayInYears day) (hday' : DayInYears day')
    (h : day < day') : dateText day < dateText day' := by
  have hlt : toISOString (instantOf day 0 0) < toISOString (instantOf day' 0 0) := by
    refine toISOString_lt ?_ ?_ ?_
    · unfold yearZero instantOf
      have := hday.1
      omega
    · unfold instantOf
      omega
    · unfold year10000 instantOf
      have := hday'.2
      omega
  rw [toISOString_instantOf hday (by decide) (by decide),
    toISOString_instantOf hday' (by decide) (by decide)] at hlt
  exact lt_of_append_lt ((length_dateText hday).trans (length_dateText hday').symm) hlt

theorem clockText_lt {second second' : ℕ} (hsecond' : second' < 86400) (h : second < second') :
    clockText second < clockText second' := by
  have hlt : toISOString (instantOf 0 second 0) < toISOString (instantOf 0 second' 0) := by
    refine toISOString_lt ?_ ?_ ?_
    · unfold yearZero instantOf
      omega
    · unfold instantOf
      omega
    · unfold year10000 instantOf
      omega
  rw [toISOString_instantOf (by decide) (h.trans hsecond') (by decide),
    toISOString_instantOf (by decide) hsecond' (by decide)] at hlt
  have hrest := lt_of_append_left_lt hlt
  rw [List.cons_lt_cons_iff] at hrest
  have hclock := (hrest.resolve_left (by decide)).2
  exact lt_of_append_lt
    ((length_clockText (h.trans hsecond')).trans (length_clockText hsecond').symm) hclock

/-! ## Spellings -/

/-- The unit of a decimal digit. -/
def digitUnit (d : ℕ) : UInt16 := (48 + d).toUInt16

/-- `Z`, or an offset in hours and minutes. -/
inductive Zone where
  | utc (small : Bool)
  | offset (negative : Bool) (hours minutes : ℕ)
deriving DecidableEq

def Zone.InRange : Zone → Prop
  | utc _ => True
  | offset _ hours minutes => hours < 24 ∧ minutes < 60

/-- Whether the zone is written as a letter. -/
def Zone.isLetter : Zone → Bool
  | utc _ => true
  | offset .. => false

def Zone.text : Zone → JsString
  | utc small => [if small then unit 'z' else unit 'Z']
  | offset negative hours minutes =>
      (if negative then unit '-' else unit '+') :: (padStart 2 (decimal hours) ++
        (unit ':' :: padStart 2 (decimal minutes)))

/-- The offset in minutes. -/
def Zone.minutes : Zone → ℤ
  | utc _ => 0
  | offset negative hours minutes =>
      if negative then -((hours * 60 + minutes : ℕ) : ℤ) else ((hours * 60 + minutes : ℕ) : ℤ)

/-- A timestamp of RFC 3339. -/
structure Spelling where
  day : ℤ
  second : ℕ
  smallT : Bool
  fraction : List ℕ
  zone : Zone
  dayInYears : DayInYears day
  secondInDay : second < 86400
  digits : ∀ d ∈ fraction, d < 10
  zoneInRange : zone.InRange

namespace Spelling

variable (sp : Spelling)

/-- The fraction and the zone. -/
def rest : JsString :=
  (if sp.fraction = [] then [] else unit '.' :: sp.fraction.map digitUnit) ++ sp.zone.text

def text : JsString :=
  dateText sp.day ++ ((if sp.smallT then unit 't' else unit 'T') ::
    (clockText sp.second ++ sp.rest))

/-- The number the fractional digits are as a whole number. -/
def digitsNumber (digits : List ℕ) : ℕ := digits.foldl (fun n d => n * 10 + d) 0

/-- The instant the timestamp denotes, in milliseconds. -/
def instant : ℚ :=
  instantOf sp.day sp.second 0 +
    digitsNumber sp.fraction * 1000 / 10 ^ sp.fraction.length - sp.zone.minutes * 60000

/-- The number of milliseconds of the second whose texts come up to the spelling. -/
def thresholdMs : ℕ :=
  let shown := digitsNumber (sp.fraction.take 3)
  (if sp.zone.isLetter && decide (sp.fraction.length ≤ 3) then shown + 1 else shown) *
    10 ^ (3 - sp.fraction.length)

/-- The instant before which the texts of dates come up to the spelling: the fields are compared as
they are written, whatever the offset, and a small `t` comes after the whole day. -/
def threshold : ℤ :=
  if sp.smallT then instantOf (sp.day + 1) 0 0 else instantOf sp.day sp.second sp.thresholdMs

end Spelling

/-! ## The fraction -/

theorem digitUnit_lt : ∀ m < 10, ∀ n < 10, (digitUnit m < digitUnit n ↔ m < n) := by decide

theorem digitUnit_inj : ∀ m < 10, ∀ n < 10, (digitUnit m = digitUnit n ↔ m = n) := by decide

theorem millisText_eq {ms : ℕ} (hms : ms < 1000) :
    millisText ms =
      [digitUnit (ms / 100), digitUnit (ms / 10 % 10), digitUnit (ms % 10), unit 'Z'] := by
  have hdigit : ∀ d < 10, unit d.digitChar = digitUnit d := by decide
  have hone : padStart 1 (decimal (ms / 10 / 10)) = [digitUnit (ms / 10 / 10)] := by
    rw [decimal_of_lt (by omega), hdigit _ (by omega)]
    rfl
  rw [millisText, padStart_decimal_succ (by decide) (by omega),
    padStart_decimal_succ (by decide) (by omega), hone, hdigit _ (by omega), hdigit _ (by omega),
    Nat.div_div_eq_div_mul]
  rfl

/-- A digit or a point comes before the letters and after the signs. -/
theorem cons_le_zone_iff {x : UInt16} (hx : x = unit '.' ∨ ∃ d < 10, x = digitUnit d)
    (more : JsString) (zone : Zone) : x :: more ≤ zone.text ↔ zone.isLetter = true := by
  have hletter : x < unit 'Z' ∧ x < unit 'z' := by
    rcases hx with rfl | ⟨d, hd, rfl⟩
    · decide
    · interval_cases d <;> decide
  have hsign : unit '+' < x ∧ unit '-' < x := by
    rcases hx with rfl | ⟨d, hd, rfl⟩
    · decide
    · interval_cases d <;> decide
  have hafter : ∀ {u : UInt16} {rest : JsString}, u < x → ¬ x :: more ≤ u :: rest := by
    intro u rest hu hle
    rcases List.cons_le_cons_iff.1 hle with hlt | ⟨rfl, -⟩
    · exact UInt16.lt_asymm hu hlt
    · exact UInt16.lt_irrefl x hu
  cases zone with
  | utc small =>
    refine iff_of_true (List.cons_le_cons_iff.2 (.inl ?_)) rfl
    cases small
    · exact hletter.1
    · exact hletter.2
  | offset negative hours minutes =>
    refine iff_of_false ?_ nofun
    cases negative
    · exact hafter hsign.1
    · exact hafter hsign.2

theorem singleton_Z_le_zone_iff (zone : Zone) :
    [unit 'Z'] ≤ zone.text ↔ zone.isLetter = true := by
  cases zone with
  | utc small => cases small <;> exact iff_of_true (by decide) rfl
  | offset negative hours minutes =>
    refine iff_of_false (fun hle => ?_) nofun
    rcases List.cons_le_cons_iff.1 hle with hlt | ⟨heq, -⟩
    · cases negative <;> exact absurd hlt (by decide)
    · cases negative <;> exact absurd heq (by decide)

theorem cons_digit_le_iff {m d : ℕ} (hm : m < 10) (hd : d < 10) (a b : JsString) :
    digitUnit m :: a ≤ digitUnit d :: b ↔ m < d ∨ m = d ∧ a ≤ b := by
  rw [List.cons_le_cons_iff, digitUnit_lt m hm d hd, digitUnit_inj m hm d hd]

theorem not_Z_le_digit {d : ℕ} (hd : d < 10) (more : JsString) :
    ¬ [unit 'Z'] ≤ digitUnit d :: more := by
  intro hle
  rcases List.cons_le_cons_iff.1 hle with hlt | ⟨heq, -⟩
  · revert hlt
    interval_cases d <;> decide
  · revert heq
    interval_cases d <;> decide

/-- **The texts of the milliseconds up to a spelling**, by the number of fractional digits. -/
theorem millis_le_rest_iff (sp : Spelling) {ms : ℕ} (hms : ms < 1000) :
    unit '.' :: millisText ms ≤ sp.rest ↔ ms < sp.thresholdMs := by
  obtain ⟨day, second, smallT, fraction, zone, -, -, hdigits, -⟩ := sp
  have ha : ms / 100 < 10 := by omega
  have hb : ms / 10 % 10 < 10 := by omega
  have hc : ms % 10 < 10 := by omega
  have hzone := fun (d : ℕ) (hd : d < 10) (more : JsString) =>
    cons_le_zone_iff (.inr ⟨d, hd, rfl⟩) more zone
  rw [millisText_eq hms]
  unfold Spelling.rest Spelling.thresholdMs Spelling.digitsNumber
  dsimp only
  match fraction with
  | [] =>
    rw [if_pos rfl, List.nil_append, cons_le_zone_iff (.inl rfl)]
    cases zone.isLetter
    · simp
    · simpa using hms
  | [d] =>
    have hd := hdigits d (by simp)
    simp only [if_neg (List.cons_ne_nil _ _), List.map_cons, List.map_nil, List.cons_append,
      List.nil_append, List.cons_le_cons_iff, UInt16.lt_irrefl, true_and, false_or,
      cons_digit_le_iff ha hd, hzone _ hb]
    cases zone.isLetter
    · simp
      omega
    · simp
      omega
  | [d, e] =>
    have hd := hdigits d (by simp)
    have he := hdigits e (by simp)
    simp only [if_neg (List.cons_ne_nil _ _), List.map_cons, List.map_nil, List.cons_append,
      List.nil_append, List.cons_le_cons_iff, UInt16.lt_irrefl, true_and, false_or,
      cons_digit_le_iff ha hd, cons_digit_le_iff hb he, hzone _ hc]
    cases zone.isLetter
    · simp
      omega
    · simp
      omega
  | [d, e, f] =>
    have hd := hdigits d (by simp)
    have he := hdigits e (by simp)
    have hf := hdigits f (by simp)
    simp only [if_neg (List.cons_ne_nil _ _), List.map_cons, List.map_nil, List.cons_append,
      List.nil_append, List.cons_le_cons_iff, UInt16.lt_irrefl, true_and, false_or,
      cons_digit_le_iff ha hd, cons_digit_le_iff hb he, cons_digit_le_iff hc hf,
      singleton_Z_le_zone_iff]
    cases zone.isLetter
    · simp
      omega
    · simp
      omega
  | d :: e :: f :: g :: more =>
    have hd := hdigits d (by simp)
    have he := hdigits e (by simp)
    have hf := hdigits f (by simp)
    have hg := hdigits g (by simp)
    simp only [if_neg (List.cons_ne_nil _ _), List.map_cons, List.cons_append,
      List.cons_le_cons_iff, UInt16.lt_irrefl, true_and, false_or,
      cons_digit_le_iff ha hd, cons_digit_le_iff hb he, cons_digit_le_iff hc hf,
      not_Z_le_digit hg]
    have hlong : ¬(d :: e :: f :: g :: more).length ≤ 3 := by
      simp only [List.length_cons]
      omega
    rw [decide_eq_false hlong, Bool.and_false, if_neg Bool.false_ne_true]
    simp
    omega

/-! ## The threshold -/

theorem exists_digit_dateText (day : ℤ) :
    ∃ digit more, 48 ≤ digit ∧ dateText day = digit :: more := by
  unfold dateText
  generalize civilDate day = date
  obtain ⟨year, month, dayOfMonth⟩ := date
  dsimp only
  have hlength : 0 < (padStart 4 (decimal year.toNat)).length := by
    rw [padStart, List.length_append, List.length_replicate]
    omega
  cases hyear : padStart 4 (decimal year.toNat) with
  | nil => rw [hyear] at hlength; exact absurd hlength (by decide)
  | cons digit more => exact ⟨digit, _, digit_le (hyear ▸ List.mem_cons_self), rfl⟩

theorem dateText_le_iff {day day' : ℤ} (hday : DayInYears day) (hday' : DayInYears day')
    (a b : JsString) :
    dateText day ++ a ≤ dateText day' ++ b ↔ day < day' ∨ day = day' ∧ a ≤ b := by
  rw [append_le_append_iff ((length_dateText hday).trans (length_dateText hday').symm)]
  rcases lt_trichotomy day day' with hlt | rfl | hgt
  · exact iff_of_true (.inl (dateText_lt hday hday' hlt)) (.inl hlt)
  · simp [List.lt_irrefl]
  · have htext := dateText_lt hday' hday hgt
    refine iff_of_false ?_ (by omega)
    rintro (hlt | ⟨heq, -⟩)
    · exact List.lt_asymm htext hlt
    · exact List.lt_irrefl _ (heq ▸ htext)

theorem clockText_le_iff {second second' : ℕ} (hsecond : second < 86400)
    (hsecond' : second' < 86400) (a b : JsString) :
    clockText second ++ a ≤ clockText second' ++ b ↔
      second < second' ∨ second = second' ∧ a ≤ b := by
  rw [append_le_append_iff ((length_clockText hsecond).trans (length_clockText hsecond').symm)]
  rcases lt_trichotomy second second' with hlt | rfl | hgt
  · exact iff_of_true (.inl (clockText_lt hsecond' hlt)) (.inl hlt)
  · simp [List.lt_irrefl]
  · have htext := clockText_lt hsecond hgt
    refine iff_of_false ?_ (by omega)
    rintro (hlt | ⟨heq, -⟩)
    · exact List.lt_asymm htext hlt
    · exact List.lt_irrefl _ (heq ▸ htext)

namespace Spelling

variable (sp : Spelling)

theorem thresholdMs_le : sp.thresholdMs ≤ 1000 := by
  have hshown : ∀ fraction : List ℕ, (∀ d ∈ fraction, d < 10) →
      digitsNumber (fraction.take 3) < 10 ^ (min 3 fraction.length) := by
    intro fraction hdigits
    unfold digitsNumber
    match fraction with
    | [] => decide
    | [d] =>
      have hd := hdigits d (by simp)
      simpa using hd
    | [d, e] =>
      have hd := hdigits d (by simp)
      have he := hdigits e (by simp)
      simp
      omega
    | d :: e :: f :: more =>
      have hd := hdigits d (by simp)
      have he := hdigits e (by simp)
      have hf := hdigits f (by simp)
      simp
      omega
  have hlt := hshown sp.fraction sp.digits
  have hpow : 10 ^ (min 3 sp.fraction.length) * 10 ^ (3 - sp.fraction.length) = 1000 := by
    rw [← pow_add, show min 3 sp.fraction.length + (3 - sp.fraction.length) = 3 by omega]
    rfl
  rw [← hpow]
  unfold thresholdMs
  refine Nat.mul_le_mul_right _ ?_
  split <;> omega

theorem yearZero_le_threshold : yearZero ≤ sp.threshold := by
  have hday := sp.dayInYears.1
  unfold yearZero threshold instantOf
  split <;> omega

end Spelling

/-- **The texts up to a spelling** are those of the dates before its threshold, and those with a
sign. -/
theorem toISOString_le_text_iff (sp : Spelling) (time : ℤ) :
    toISOString time ≤ sp.text ↔ time < sp.threshold ∨ year10000 ≤ time := by
  by_cases hrange : yearZero ≤ time ∧ time < year10000
  · obtain ⟨day, second, ms, hday, hsecond, hms, rfl⟩ := exists_instantOf hrange.1 hrange.2
    have hms' := sp.thresholdMs_le
    have hsecond' := sp.secondInDay
    rw [or_iff_left (by omega), toISOString_instantOf hday hsecond hms, Spelling.text,
      dateText_le_iff hday sp.dayInYears, List.cons_le_cons_iff, Spelling.threshold]
    cases hsmall : sp.smallT with
    | true =>
      have hT : unit 'T' < unit 't' := by decide
      simp only [if_true, hT, true_or, and_true, instantOf]
      omega
    | false =>
      have hclock := clockText_le_iff hsecond sp.secondInDay
        (unit '.' :: millisText ms) sp.rest
      simp only [Bool.false_eq_true, if_false, UInt16.lt_irrefl, false_or, true_and, hclock,
        millis_le_rest_iff sp hms, instantOf]
      omega
  · have hsign : time < yearZero ∨ year10000 ≤ time := by omega
    obtain ⟨sign, rest, hlow, htext⟩ := exists_sign_toISOString hsign
    obtain ⟨digit, more, hdigit, hdate⟩ := exists_digit_dateText sp.day
    have hthreshold := sp.yearZero_le_threshold
    refine iff_of_true ?_ (by omega)
    rw [htext, Spelling.text, hdate, List.cons_append, List.cons_le_cons_iff]
    exact .inl (UInt16.lt_of_lt_of_le hlow hdigit)

/-! ## The gap -/

namespace Spelling

/-- The instant lies between the threshold of a spelling and the instant it denotes, so that the
order of the texts is not that of the instants. -/
def InGap (sp : Spelling) (time : ℤ) : Prop :=
  (sp.threshold ≤ time ∧ time < year10000 ∧ (time : ℚ) ≤ sp.instant) ∨
    (sp.instant < (time : ℚ) ∧ (time < sp.threshold ∨ year10000 ≤ time))

instance (sp : Spelling) (time : ℤ) : Decidable (sp.InGap time) :=
  inferInstanceAs (Decidable (_ ∨ _))

/-- Outside the gap the two orders agree. -/
theorem toISOString_le_text_iff_le_instant (sp : Spelling) (time : ℤ) :
    (toISOString time ≤ sp.text ↔ (time : ℚ) ≤ sp.instant) ↔ ¬ sp.InGap time := by
  rw [toISOString_le_text_iff]
  unfold InGap
  by_cases hbefore : time < sp.threshold ∨ year10000 ≤ time
  · by_cases hat : (time : ℚ) ≤ sp.instant
    · refine iff_of_true (iff_of_true hbefore hat) ?_
      rintro (⟨hlow, hhigh, -⟩ | ⟨hlate, -⟩)
      · omega
      · exact absurd hat (not_le.2 hlate)
    · refine iff_of_false (fun h => hat (h.1 hbefore)) fun hnot => ?_
      exact hnot (.inr ⟨not_le.1 hat, hbefore⟩)
  · by_cases hat : (time : ℚ) ≤ sp.instant
    · refine iff_of_false (fun h => hbefore (h.2 hat)) fun hnot => ?_
      rw [not_or, not_lt, not_le] at hbefore
      exact hnot (.inl ⟨hbefore.1, hbefore.2, hat⟩)
    · refine iff_of_true (iff_of_false hbefore hat) ?_
      rintro (⟨-, -, hle⟩ | ⟨-, hlate⟩)
      · exact hat hle
      · exact hbefore hlate

end Spelling

end Kinglet.Js
