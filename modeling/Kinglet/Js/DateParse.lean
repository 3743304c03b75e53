import Kinglet.Js.Rfc3339

/-!
# Reading dates

`new Date(text).getTime()` for the spelling `YYYY-MM-DDTHH:mm:ss[.s…]` with a zone `Z` or `±HH:mm`,
which contains every text that `toISOString` writes in the years 0 to 9999. Digits after the
milliseconds are dropped.
-/

namespace Kinglet.Js

/-! ## The day of a calendar date -/

/-- The day with a year, a month and a day of the month, counted from 1970-01-01; as in `civilDate`,
years start in March. -/
def dayOfCivil (year : ℤ) (month day : ℕ) : ℤ :=
  let year' := if month ≤ 2 then year - 1 else year
  let yearOfEra := (year' % 400).toNat
  let march := if month ≤ 2 then month + 9 else month - 3
  let dayOfYear := (153 * march + 2) / 5 + day - 1
  year' / 400 * 146097 + (startOfYear yearOfEra + dayOfYear : ℕ) - 719468

/-- The day of a date, when the calendar has that date. -/
def existingDay (year month day : ℕ) : Option ℤ :=
  let n := dayOfCivil year month day
  if civilDate n = ((year : ℤ), month, day) then some n else none

/-- `dayOfCivil` undoes the steps of `dateOfYear`. -/
theorem dayOfCivil_dateOfYear {era : ℤ} {year day : ℕ} (hyear : year < 400) (hday : day ≤ 365) :
    dayOfCivil (dateOfYear era year day).1 (dateOfYear era year day).2.1
      (dateOfYear era year day).2.2 =
    era * 146097 + (startOfYear year + day : ℕ) - 719468 := by
  have hmarch : (5 * day + 2) / 153 ≤ 11 := by omega
  have hstart : (153 * ((5 * day + 2) / 153) + 2) / 5 ≤ day := by omega
  have hsplit : (year + era * 400 : ℤ) / 400 = era ∧
      ((year + era * 400 : ℤ) % 400).toNat = year := by omega
  unfold dateOfYear dayOfCivil
  -- January and February close a year that starts in March
  by_cases hmonth : (5 * day + 2) / 153 < 10
  · have hlate : ¬(5 * day + 2) / 153 + 3 ≤ 2 := by omega
    simp only [if_pos hmonth, if_neg hlate, Nat.add_sub_cancel, hsplit.1, hsplit.2]
    omega
  · have hearly : (5 * day + 2) / 153 - 9 ≤ 2 := by omega
    have hback : (5 * day + 2) / 153 - 9 + 9 = (5 * day + 2) / 153 := by omega
    simp only [if_neg hmonth, if_pos hearly, add_sub_cancel_right, hsplit.1, hsplit.2, hback]
    omega

theorem dayOfCivil_civilDate (day : ℤ) :
    dayOfCivil (civilDate day).1 (civilDate day).2.1 (civilDate day).2.2 = day := by
  obtain ⟨era, dayOfEra, hle, hday, heq⟩ := civilDate_eq day
  obtain ⟨hyear, hstart, hend⟩ := startOfYear_le hle
  rw [heq, dayOfCivil_dateOfYear hyear (by omega)]
  omega

/-! ## The reader -/

/-- The number in the first `width` code units, which are digits, and the text after them. -/
def readField (width : ℕ) (text : JsString) : Option (ℕ × JsString) :=
  if (text.take width).length = width ∧ (text.take width).all isDigit then
    some (digitsValue (text.take width), text.drop width)
  else none

/-- The text after the code unit `u`. -/
def readUnit (u : UInt16) : JsString → Option JsString
  | v :: rest => if v = u then some rest else none
  | [] => none

/-- The milliseconds of a fraction, which may be absent. -/
def readMillis (text : JsString) : Option (ℕ × JsString) :=
  match readUnit (unit '.') text with
  | none => some (0, text)
  | some rest =>
      let digits := rest.takeWhile isDigit
      if digits = [] then none
      else some (digitsValue ((digits ++ [48, 48]).take 3), rest.dropWhile isDigit)

/-- The minutes by which a zone is ahead of UTC. -/
def readZone : JsString → Option ℤ
  | [90] => some 0
  | sign :: rest => do
      let (hours, rest) ← readField 2 rest
      let rest ← readUnit (unit ':') rest
      let (minutes, rest) ← readField 2 rest
      if rest = [] ∧ hours < 24 ∧ minutes < 60 then
        if sign = unit '+' then some (hours * 60 + minutes : ℕ)
        else if sign = unit '-' then some (-(hours * 60 + minutes : ℕ))
        else none
      else none
  | [] => none

/-- The day of `YYYY-MM-DD`. -/
def readDate (text : JsString) : Option (ℤ × JsString) := do
  let (year, rest) ← readField 4 text
  let rest ← readUnit (unit '-') rest
  let (month, rest) ← readField 2 rest
  let rest ← readUnit (unit '-') rest
  let (day, rest) ← readField 2 rest
  let n ← existingDay year month day
  some (n, rest)

/-- A time of day; `24:00:00` is the end of a day. -/
def IsClock (hour minute second : ℕ) : Prop :=
  hour < 24 ∧ minute < 60 ∧ second < 60 ∨ hour = 24 ∧ minute = 0 ∧ second = 0

instance (hour minute second : ℕ) : Decidable (IsClock hour minute second) :=
  inferInstanceAs (Decidable (_ ∨ _))

/-- The second of the day of `HH:mm:ss`. -/
def readClock (text : JsString) : Option (ℕ × JsString) := do
  let (hour, rest) ← readField 2 text
  let rest ← readUnit (unit ':') rest
  let (minute, rest) ← readField 2 rest
  let rest ← readUnit (unit ':') rest
  let (second, rest) ← readField 2 rest
  if IsClock hour minute second then some (hour * 3600 + minute * 60 + second, rest) else none

/-- `new Date(text).getTime()`, `none` when it is `NaN`. -/
def dateParse (text : JsString) : Option ℤ := do
  let (day, rest) ← readDate text
  let rest ← readUnit (unit 'T') rest
  let (second, rest) ← readClock rest
  let (ms, rest) ← readMillis rest
  let ahead ← readZone rest
  if second = 86400 ∧ ms ≠ 0 then none else some (instantOf day second ms - ahead * 60000)

variable {width n : ℕ} {rest : JsString}

theorem digitsValue_zeros (count : ℕ) (digits : JsString) :
    digitsValue (List.replicate count 48 ++ digits) = digitsValue digits := by
  induction count with
  | zero => rfl
  | succ count ih =>
    rw [List.replicate_succ, List.cons_append]
    exact ih

theorem isDigit_of_mem_padStart {u : UInt16} (hu : u ∈ padStart width (decimal n)) :
    isDigit u := by
  rcases List.mem_append.1 hu with hzero | hdigit
  · obtain ⟨-, rfl⟩ := List.mem_replicate.1 hzero
    decide
  · exact isDigit_of_mem_decimal hdigit

theorem digitsValue_padStart (width n : ℕ) : digitsValue (padStart width (decimal n)) = n := by
  rw [padStart, digitsValue_zeros, digitsValue_decimal]

/-- A field of fixed width is read back. -/
theorem readField_padStart (hwidth : 0 < width) (h : n < 10 ^ width) (rest : JsString) :
    readField width (padStart width (decimal n) ++ rest) = some (n, rest) := by
  have hlength : (padStart width (decimal n)).length = width :=
    length_padStart (length_decimal_le hwidth h)
  have htake : (padStart width (decimal n) ++ rest).take width = padStart width (decimal n) := by
    rw [List.take_append_of_le_length (by omega), List.take_of_length_le (by omega)]
  have hdrop : (padStart width (decimal n) ++ rest).drop width = rest := by
    rw [List.drop_append_of_le_length (by omega), List.drop_of_length_le (by omega),
      List.nil_append]
  have hall : (padStart width (decimal n)).all isDigit := by
    rw [List.all_eq_true]
    intro u hu
    exact isDigit_of_mem_padStart hu
  rw [readField, htake, hdrop, if_pos ⟨hlength, hall⟩, digitsValue_padStart]

theorem readUnit_cons (u : UInt16) (rest : JsString) : readUnit u (u :: rest) = some rest := by
  rw [readUnit, if_pos rfl]

theorem readMillis_millisText {ms : ℕ} (hms : ms < 1000) :
    readMillis (unit '.' :: millisText ms) = some (ms, js "Z") := by
  have hlength : (padStart 3 (decimal ms)).length = 3 :=
    length_padStart (length_decimal_le (by decide) hms)
  have hrun : ∀ u ∈ padStart 3 (decimal ms), isDigit u := fun u hu => isDigit_of_mem_padStart hu
  have hdigits : (millisText ms).takeWhile isDigit = padStart 3 (decimal ms) := by
    rw [millisText, List.takeWhile_append_of_pos hrun]
    simp [js, utf16, isDigit]
  have hrest : (millisText ms).dropWhile isDigit = js "Z" := by
    rw [millisText, List.dropWhile_append_of_pos hrun]
    rfl
  have htake : (padStart 3 (decimal ms) ++ [48, 48]).take 3 = padStart 3 (decimal ms) := by
    rw [List.take_append_of_le_length (by omega), List.take_of_length_le (by omega)]
  have hne : padStart 3 (decimal ms) ≠ [] := by
    intro hnil
    rw [hnil] at hlength
    exact absurd hlength (by decide)
  simp only [readMillis, readUnit_cons, hdigits, hrest, if_neg hne, htake, digitsValue_padStart]

theorem readDate_dateText {day : ℤ} (hday : DayInYears day) (rest : JsString) :
    readDate (dateText day ++ rest) = some (day, rest) := by
  obtain ⟨hle, hge⟩ := civilDate_year day hday.1 hday.2
  obtain ⟨-, hmonth, -, hlast⟩ := civilDate_fits day
  have hexists : existingDay (civilDate day).1.toNat (civilDate day).2.1 (civilDate day).2.2 =
      some day := by
    have hyear : (((civilDate day).1.toNat : ℕ) : ℤ) = (civilDate day).1 := by omega
    rw [existingDay, hyear, dayOfCivil_civilDate, if_pos rfl]
  unfold readDate dateText
  generalize civilDate day = date at hle hge hmonth hlast hexists ⊢
  obtain ⟨year, month, dayOfMonth⟩ := date
  dsimp only at hle hge hmonth hlast hexists ⊢
  have hdash : js "-" = [unit '-'] := rfl
  simp only [hdash, List.append_assoc, List.cons_append, List.nil_append, Option.bind_eq_bind]
  rw [readField_padStart (by decide) (by omega), Option.bind_some]
  dsimp only
  rw [readUnit_cons, Option.bind_some,
    readField_padStart (by decide) (by omega), Option.bind_some]
  dsimp only
  rw [readUnit_cons, Option.bind_some,
    readField_padStart (by decide) (by omega), Option.bind_some]
  dsimp only
  rw [hexists]
  rfl

theorem readClock_clockText {second : ℕ} (hsecond : second < 86400) (rest : JsString) :
    readClock (clockText second ++ rest) = some (second, rest) := by
  have hclock : IsClock (second / 3600) (second / 60 % 60) (second % 60) := .inl (by omega)
  have hwhole : second / 3600 * 3600 + second / 60 % 60 * 60 + second % 60 = second := by omega
  have hcolon : js ":" = [unit ':'] := rfl
  unfold readClock clockText
  simp only [hcolon, List.append_assoc, List.cons_append, List.nil_append, Option.bind_eq_bind]
  rw [readField_padStart (by decide) (by omega), Option.bind_some]
  dsimp only
  rw [readUnit_cons, Option.bind_some,
    readField_padStart (by decide) (by omega), Option.bind_some]
  dsimp only
  rw [readUnit_cons, Option.bind_some,
    readField_padStart (by decide) (by omega), Option.bind_some]
  dsimp only
  rw [if_pos hclock, hwhole]

/-- **What `toISOString` writes in the years 0 to 9999 is read back.** -/
theorem dateParse_toISOString {time : ℤ} (h : yearZero ≤ time) (h' : time < year10000) :
    dateParse (toISOString time) = some time := by
  obtain ⟨day, second, ms, hday, hsecond, hms, rfl⟩ := exists_instantOf h h'
  have hmidnight : ¬(second = 86400 ∧ ms ≠ 0) := by omega
  have hzone : readZone (js "Z") = some 0 := rfl
  rw [toISOString_instantOf hday hsecond hms]
  simp only [dateParse, Option.bind_eq_bind]
  rw [readDate_dateText hday, Option.bind_some]
  dsimp only
  rw [readUnit_cons, Option.bind_some, readClock_clockText hsecond,
    Option.bind_some]
  dsimp only
  rw [readMillis_millisText hms, Option.bind_some]
  dsimp only
  rw [hzone, Option.bind_some, if_neg hmidnight, zero_mul, sub_zero]

example : dateParse "2024-02-29T23:30:00.25+01:00" = dateParse "2024-02-29T22:30:00.250Z" := by
  decide +kernel
example : dateParse "2023-02-29T00:00:00Z" = none := by decide +kernel

end Kinglet.Js
