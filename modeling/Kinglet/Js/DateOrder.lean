import Kinglet.Js.Time
import Mathlib.Algebra.Order.Ring.Int

/-!
# The order of dates and of their texts

Between the years 0 and 9999 every field of an ISO text has a fixed width, so that the texts are in
the order of the dates. A text with a sign comes before all of these.
-/

namespace Kinglet.Js

/-! ## Fields of fixed width -/

theorem decimal_of_lt {n : ℕ} (h : n < 10) : decimal n = [unit n.digitChar] := by
  rw [decimal, natText, Nat.toDigits_of_lt_base h]
  rfl

theorem decimal_of_le {n : ℕ} (h : 10 ≤ n) :
    decimal n = decimal (n / 10) ++ [unit (n % 10).digitChar] := by
  rw [decimal, natText, Nat.toDigits_of_base_le (by decide) h, List.map_append]
  rfl

theorem length_decimal_le {width n : ℕ} (hwidth : 0 < width) (h : n < 10 ^ width) :
    (decimal n).length ≤ width := by
  rw [decimal, natText, List.length_map]
  exact (Nat.length_toDigits_le_iff (by decide) hwidth).2 h

theorem length_padStart {width : ℕ} {text : JsString} (h : text.length ≤ width) :
    (padStart width text).length = width := by
  simp only [padStart, List.length_append, List.length_replicate]
  omega

theorem padStart_decimal_succ {width n : ℕ} (hwidth : 0 < width) (h : n < 10 ^ (width + 1)) :
    padStart (width + 1) (decimal n) =
      padStart width (decimal (n / 10)) ++ [unit (n % 10).digitChar] := by
  rcases Nat.lt_or_ge n 10 with hlt | hge
  · have hzero : n / 10 = 0 := by omega
    have hmod : n % 10 = n := by omega
    rw [hzero, hmod, decimal_of_lt hlt, decimal_of_lt (by decide)]
    obtain ⟨width, rfl⟩ := Nat.exists_eq_succ_of_ne_zero hwidth.ne'
    simp [padStart, List.replicate_succ']
    rfl
  · rw [decimal_of_le hge, padStart, padStart, List.append_assoc]
    simp

theorem append_lt_append_of_lt {a b c d : JsString} (hlength : a.length = b.length) (h : a < b) :
    a ++ c < b ++ d := by
  induction a generalizing b with
  | nil =>
      obtain rfl := List.length_eq_zero_iff.1 hlength.symm
      exact absurd h (List.not_lt_nil _)
  | cons x a ih =>
      cases b with
      | nil => cases hlength
      | cons y b =>
          rw [List.cons_append, List.cons_append, List.cons_lt_cons_iff]
          rcases List.cons_lt_cons_iff.1 h with hxy | ⟨rfl, hab⟩
          · exact .inl hxy
          · exact .inr ⟨rfl, ih (Nat.succ.inj hlength) hab⟩

theorem digit_lt : ∀ n < 10, ∀ m < n, unit m.digitChar < unit n.digitChar := by decide

theorem padStart_decimal_lt {width m n : ℕ} (hwidth : 0 < width) (hmn : m < n)
    (hn : n < 10 ^ width) : padStart width (decimal m) < padStart width (decimal n) := by
  induction width, hwidth using Nat.le_induction generalizing m n with
  | base =>
      have hn : n < 10 := hn
      rw [decimal_of_lt (hmn.trans hn), decimal_of_lt hn]
      exact List.cons_lt_cons_iff.2 (.inl (digit_lt n hn m hmn))
  | succ width hwidth ih =>
      rw [padStart_decimal_succ hwidth (hmn.trans hn), padStart_decimal_succ hwidth hn]
      have hn10 : n / 10 < 10 ^ width := by omega
      rcases (Nat.div_le_div_right hmn.le : m / 10 ≤ n / 10).lt_or_eq with hlt | heq
      · refine append_lt_append_of_lt ?_ (ih hlt hn10)
        rw [length_padStart (length_decimal_le hwidth (hlt.trans hn10)),
          length_padStart (length_decimal_le hwidth hn10)]
      · rw [heq]
        exact List.append_left_lt (List.cons_lt_cons_iff.2
          (.inl (digit_lt _ (Nat.mod_lt _ (by decide)) _ (by omega))))

/-- Decimal fields of fixed widths, each with the text after it. -/
def layout : List (ℕ × JsString) → List ℕ → JsString
  | (width, after) :: fields, n :: ns => padStart width (decimal n) ++ (after ++ layout fields ns)
  | _, _ => []

/-- Each number fits into its field. -/
def Fits : List (ℕ × JsString) → List ℕ → Prop := List.Forall₂ fun field n =>
  0 < field.1 ∧ n < 10 ^ field.1

/-- **Texts of one layout are in the order of their numbers.** -/
theorem layout_lt {fields : List (ℕ × JsString)} {ms ns : List ℕ} (hms : Fits fields ms)
    (hns : Fits fields ns) (h : ms < ns) : layout fields ms < layout fields ns := by
  induction hms generalizing ns with
  | nil =>
      cases hns
      exact absurd h (List.lt_irrefl _)
  | @cons field m fields ms hm _ ih =>
      cases hns with
      | @cons _ n _ ns hn hns =>
          rcases List.cons_lt_cons_iff.1 h with hmn | ⟨rfl, hms⟩
          · refine append_lt_append_of_lt ?_ (padStart_decimal_lt hm.1 hmn hn.2)
            rw [length_padStart (length_decimal_le hm.1 hm.2),
              length_padStart (length_decimal_le hn.1 hn.2)]
          · exact List.append_left_lt (List.append_left_lt (ih hns hms))

/-! ## The calendar -/

/-- The first day of a year of an era, counted from its start, where years start in March. -/
def startOfYear (year : ℕ) : ℕ := 365 * year + year / 4 - year / 100

/-- The days of an era without its leap days. -/
def commonDays (day : ℕ) : ℕ := day - day / 1460 + day / 36524 - day / 146096

theorem commonDays_mono {m n : ℕ} (h : m ≤ n) (hn : n ≤ 146096) : commonDays m ≤ commonDays n := by
  unfold commonDays
  omega

theorem commonDays_startOfYear : ∀ year < 400, 365 * year ≤ commonDays (startOfYear year) ∧
    (0 < year → commonDays (startOfYear year - 1) < 365 * year) := by
  decide +kernel

theorem startOfYear_succ (year : ℕ) : startOfYear (year + 1) ≤ startOfYear year + 366 := by
  unfold startOfYear
  omega

/-- A day of an era lies in the year computed for it. -/
theorem startOfYear_le {day : ℕ} (h : day ≤ 146096) :
    commonDays day / 365 < 400 ∧ startOfYear (commonDays day / 365) ≤ day ∧
      day ≤ startOfYear (commonDays day / 365) + 365 := by
  have hyear : commonDays day / 365 < 400 := by
    have hmono := commonDays_mono h le_rfl
    have hlast : commonDays 146096 = 145999 := by decide +kernel
    omega
  refine ⟨hyear, ?_, ?_⟩
  · by_contra hlt
    have hpos : 0 < commonDays day / 365 := by
      by_contra hzero
      obtain hzero := Nat.eq_zero_of_not_pos hzero
      rw [hzero] at hlt
      exact hlt (Nat.zero_le _)
    have hbefore := (commonDays_startOfYear _ hyear).2 hpos
    have hmono := commonDays_mono (m := day) (n := startOfYear (commonDays day / 365) - 1)
      (by omega) (by unfold startOfYear; omega)
    have hfloor := Nat.div_mul_le_self (commonDays day) 365
    omega
  · by_contra hlt
    rcases Nat.lt_or_ge (commonDays day / 365 + 1) 400 with hnext | hlast
    · have hafter := (commonDays_startOfYear _ hnext).1
      have hsucc := startOfYear_succ (commonDays day / 365)
      have hmono := commonDays_mono (m := startOfYear (commonDays day / 365 + 1)) (n := day)
        (by omega) h
      omega
    · have hyear : commonDays day / 365 = 399 := by omega
      have hstart : startOfYear 399 = 145731 := by decide
      rw [hyear, hstart] at hlt
      omega

/-- The order of dates in the calendar. -/
def CalendarLt (date date' : ℤ × ℕ × ℕ) : Prop :=
  date.1 < date'.1 ∨ date.1 = date'.1 ∧
    (date.2.1 < date'.2.1 ∨ date.2.1 = date'.2.1 ∧ date.2.2 < date'.2.2)

/-- The day of an era as a date, where `day` counts from the first day of the year. -/
def dateOfYear (era : ℤ) (year day : ℕ) : ℤ × ℕ × ℕ :=
  let march := (5 * day + 2) / 153
  let month := if march < 10 then march + 3 else march - 9
  (if month ≤ 2 then (year : ℤ) + era * 400 + 1 else (year : ℤ) + era * 400, month,
    day - (153 * march + 2) / 5 + 1)

theorem civilDate_eq (day : ℤ) : ∃ (era : ℤ) (dayOfEra : ℕ), dayOfEra ≤ 146096 ∧
    day + 719468 = era * 146097 + dayOfEra ∧ civilDate day =
      dateOfYear era (commonDays dayOfEra / 365)
        (dayOfEra - startOfYear (commonDays dayOfEra / 365)) :=
  ⟨(day + 719468) / 146097, ((day + 719468) % 146097).toNat, by omega, by omega, rfl⟩

theorem dateOfYear_fits {era : ℤ} {year day : ℕ} (h : day ≤ 365) :
    1 ≤ (dateOfYear era year day).2.1 ∧ (dateOfYear era year day).2.1 ≤ 12 ∧
      1 ≤ (dateOfYear era year day).2.2 ∧ (dateOfYear era year day).2.2 ≤ 31 := by
  simp only [dateOfYear]
  split <;> omega

theorem dateOfYear_lt {era era' : ℤ} {year year' day day' : ℕ} (hday : day ≤ 365)
    (hday' : day' ≤ 365) (h : (year : ℤ) + era * 400 < year' + era' * 400 ∨
      (year : ℤ) + era * 400 = year' + era' * 400 ∧ day < day') :
    CalendarLt (dateOfYear era year day) (dateOfYear era' year' day') := by
  simp only [CalendarLt, dateOfYear]
  split <;> split <;> (try split) <;> (try split) <;> omega

theorem civilDate_fits (day : ℤ) :
    1 ≤ (civilDate day).2.1 ∧ (civilDate day).2.1 ≤ 12 ∧ 1 ≤ (civilDate day).2.2 ∧
      (civilDate day).2.2 ≤ 31 := by
  obtain ⟨era, dayOfEra, hle, -, heq⟩ := civilDate_eq day
  obtain ⟨-, -, hend⟩ := startOfYear_le hle
  rw [heq]
  exact dateOfYear_fits (by omega)

theorem civilDate_lt {day day' : ℤ} (h : day < day') :
    CalendarLt (civilDate day) (civilDate day') := by
  obtain ⟨era, dayOfEra, hle, hday, heq⟩ := civilDate_eq day
  obtain ⟨era', dayOfEra', hle', hday', heq'⟩ := civilDate_eq day'
  obtain ⟨hyear, hstart, hend⟩ := startOfYear_le hle
  obtain ⟨hyear', hstart', hend'⟩ := startOfYear_le hle'
  rw [heq, heq']
  refine dateOfYear_lt (by omega) (by omega) ?_
  rcases lt_trichotomy era era' with hera | rfl | hera
  · left
    omega
  · have hmono := Nat.div_le_div_right (c := 365)
      (commonDays_mono (m := dayOfEra) (n := dayOfEra') (by omega) hle')
    rcases hmono.lt_or_eq with hlt | heq
    · left
      omega
    · right
      rw [heq] at hstart ⊢
      omega
  · omega

/-! ## ISO texts -/

/-- The start of the year 0. -/
def yearZero : ℤ := -62167219200000

/-- The start of the year 10000. -/
def year10000 : ℤ := 253402300800000

theorem civilDate_year (day : ℤ) (h : -719528 ≤ day) (h' : day < 2932897) :
    0 ≤ (civilDate day).1 ∧ (civilDate day).1 ≤ 9999 := by
  have hfirst : civilDate (-719529) = (-1, 12, 31) := by decide +kernel
  have hlast : civilDate 2932897 = (10000, 1, 1) := by decide +kernel
  have hafter := civilDate_lt (show -719529 < day by omega)
  have hbefore := civilDate_lt h'
  have hfields := civilDate_fits day
  simp only [CalendarLt, hfirst] at hafter
  simp only [CalendarLt, hlast] at hbefore
  omega

theorem civilDate_year_of_lt {day : ℤ} (h : day < -719528) : (civilDate day).1 < 0 := by
  have hlast : civilDate (-719529) = (-1, 12, 31) := by decide +kernel
  rcases Int.lt_or_eq_of_le (show day ≤ -719529 by omega) with hlt | rfl
  · have hcalendar := civilDate_lt hlt
    simp only [CalendarLt, hlast] at hcalendar
    omega
  · rw [hlast]
    decide

theorem civilDate_year_of_ge {day : ℤ} (h : 2932897 ≤ day) : 9999 < (civilDate day).1 := by
  have hfirst : civilDate 2932897 = (10000, 1, 1) := by decide +kernel
  rcases Int.lt_or_eq_of_le h with hlt | rfl
  · have hcalendar := civilDate_lt hlt
    simp only [CalendarLt, hfirst] at hcalendar
    omega
  · rw [hfirst]
    decide

/-- The fields of an ISO text. -/
def isoLayout : List (ℕ × JsString) :=
  [(4, js "-"), (2, js "-"), (2, js "T"), (2, js ":"), (2, js ":"), (2, js "."), (3, js "Z")]

def isoFields (time : ℤ) : List ℕ :=
  let (year, month, day) := civilDate (time / 86400000)
  let ms := (time % 86400000).toNat
  [year.toNat, month, day, ms / 3600000, ms / 60000 % 60, ms / 1000 % 60, ms % 1000]

theorem toISOString_eq_layout {time : ℤ} (h : yearZero ≤ time) (h' : time < year10000) :
    toISOString time = layout isoLayout (isoFields time) := by
  unfold yearZero at h
  unfold year10000 at h'
  obtain ⟨hle, hge⟩ := civilDate_year (time / 86400000) (by omega) (by omega)
  unfold toISOString isoFields
  generalize civilDate (time / 86400000) = date at hle hge ⊢
  obtain ⟨year, month, day⟩ := date
  dsimp only at hle hge ⊢
  rw [if_pos ⟨hle, hge⟩]
  simp only [layout, isoLayout, List.append_assoc, List.append_nil]

theorem fits_isoFields {time : ℤ} (h : yearZero ≤ time) (h' : time < year10000) :
    Fits isoLayout (isoFields time) := by
  unfold yearZero at h
  unfold year10000 at h'
  obtain ⟨hle, hge⟩ := civilDate_year (time / 86400000) (by omega) (by omega)
  have hfits := civilDate_fits (time / 86400000)
  unfold isoFields
  generalize civilDate (time / 86400000) = date at hle hge hfits ⊢
  obtain ⟨year, month, day⟩ := date
  dsimp only at hle hge hfits ⊢
  exact .cons ⟨by decide, show year.toNat < 10000 by omega⟩ <|
    .cons ⟨by decide, show month < 100 by omega⟩ <| .cons ⟨by decide, show day < 100 by omega⟩ <|
    .cons ⟨by decide, show _ < 100 by omega⟩ <| .cons ⟨by decide, show _ < 100 by omega⟩ <|
    .cons ⟨by decide, show _ < 100 by omega⟩ <| .cons ⟨by decide, show _ < 1000 by omega⟩ .nil

theorem toISOString_lt {time time' : ℤ} (h : yearZero ≤ time) (hlt : time < time')
    (h' : time' < year10000) : toISOString time < toISOString time' := by
  rw [toISOString_eq_layout h (hlt.trans h'), toISOString_eq_layout (h.trans hlt.le) h']
  refine layout_lt (fits_isoFields h (hlt.trans h')) (fits_isoFields (h.trans hlt.le) h') ?_
  unfold yearZero at h
  unfold year10000 at h'
  obtain ⟨hyear, -⟩ := civilDate_year (time / 86400000) (by omega) (by omega)
  obtain ⟨hyear', -⟩ := civilDate_year (time' / 86400000) (by omega) (by omega)
  unfold isoFields
  rcases Int.lt_or_eq_of_le (show time / 86400000 ≤ time' / 86400000 by omega) with hday | hday
  · have hcalendar := civilDate_lt hday
    generalize civilDate (time / 86400000) = date at hyear hcalendar ⊢
    generalize civilDate (time' / 86400000) = date' at hyear' hcalendar ⊢
    obtain ⟨year, month, day⟩ := date
    obtain ⟨year', month', day'⟩ := date'
    simp only [CalendarLt] at hcalendar hyear hyear'
    simp only [List.cons_lt_cons_iff]
    rcases hcalendar with hlt | ⟨rfl, hlt | ⟨rfl, hlt⟩⟩
    · exact .inl (by omega)
    · exact .inr ⟨rfl, .inl hlt⟩
    · exact .inr ⟨rfl, .inr ⟨rfl, .inl hlt⟩⟩
  · rw [hday]
    simp only [List.cons_lt_cons_iff]
    have hms : (time % 86400000).toNat < (time' % 86400000).toNat := by omega
    generalize (time % 86400000).toNat = ms at hms
    generalize (time' % 86400000).toNat = ms' at hms
    simp only [lt_self_iff_false, true_and, false_or]
    omega

theorem digit_le {n : ℕ} {u : UInt16} {width : ℕ} (h : u ∈ padStart width (decimal n)) : 48 ≤ u := by
  rcases List.mem_append.1 h with h | h
  · rw [List.eq_of_mem_replicate h]
    decide
  · have hdigit := isDigit_of_mem_decimal h
    simp only [isDigit, Bool.and_eq_true, decide_eq_true_eq] at hdigit
    exact hdigit.1

/-- The texts of the other years start with a sign. -/
theorem exists_sign_toISOString {time : ℤ} (h : time < yearZero ∨ year10000 ≤ time) :
    ∃ sign rest, sign < 48 ∧ toISOString time = sign :: rest := by
  unfold yearZero year10000 at h
  have hyear : (civilDate (time / 86400000)).1 < 0 ∨ 9999 < (civilDate (time / 86400000)).1 := by
    rcases h with h | h
    · exact .inl (civilDate_year_of_lt (by omega))
    · exact .inr (civilDate_year_of_ge (by omega))
  unfold toISOString
  generalize civilDate (time / 86400000) = date at hyear ⊢
  obtain ⟨year, month, day⟩ := date
  dsimp only at hyear ⊢
  rw [if_neg (by omega)]
  split
  · exact ⟨45, _, by decide, rfl⟩
  · exact ⟨43, _, by decide, rfl⟩

/-- A text with a sign comes before the texts of the years 0 to 9999. -/
theorem toISOString_lt_of_sign {time time' : ℤ} (h : time < yearZero ∨ year10000 ≤ time)
    (hle : yearZero ≤ time') (hlt : time' < year10000) :
    toISOString time < toISOString time' := by
  have hfits := fits_isoFields hle hlt
  obtain ⟨sign, rest, hsign, htext⟩ := exists_sign_toISOString h
  obtain ⟨digit, rest', hdigit, htext'⟩ : ∃ digit rest', 48 ≤ digit ∧
      toISOString time' = digit :: rest' := by
    rw [toISOString_eq_layout hle hlt]
    unfold isoFields at hfits ⊢
    obtain ⟨⟨hwidth, hyear⟩, -⟩ := List.forall₂_cons.1 hfits
    have hlength := length_padStart (length_decimal_le hwidth hyear)
    simp only [layout, isoLayout] at hlength ⊢
    cases hyear : padStart 4 (decimal (civilDate (time' / 86400000)).1.toNat) with
    | nil => exact absurd (congrArg List.length hyear ▸ hlength) nofun
    | cons digit rest' => exact ⟨digit, _, digit_le (hyear ▸ List.mem_cons_self), rfl⟩
  rw [htext, htext', List.cons_lt_cons_iff]
  exact .inl (UInt16.lt_of_lt_of_le hsign hdigit)

/-- **The order of an ISO text and one of the years 0 to 9999.** -/
theorem toISOString_le_iff {time now : ℤ} (hle : yearZero ≤ now) (hlt : now < year10000) :
    toISOString time ≤ toISOString now ↔ time ≤ now ∨ year10000 ≤ time := by
  by_cases hrange : yearZero ≤ time ∧ time < year10000
  · rcases lt_trichotomy time now with hbefore | rfl | hafter
    · have htext := toISOString_lt hrange.1 hbefore hlt
      exact ⟨fun _ => .inl hbefore.le, fun _ => List.lt_asymm htext⟩
    · exact ⟨fun _ => .inl le_rfl, fun _ => List.lt_irrefl _⟩
    · have htext := toISOString_lt hle hafter hrange.2
      constructor
      · exact fun hnot => absurd htext hnot
      · omega
  · have hsign : time < yearZero ∨ year10000 ≤ time := by omega
    refine ⟨fun _ => by omega, fun _ => List.lt_asymm (toISOString_lt_of_sign hsign hle hlt)⟩

end Kinglet.Js
