import Kinglet.Js.Number

/-!
# Durations and dates

Durations are texts such as `5s`; a date is the integer number of milliseconds it denotes, and there
are none beyond `8.64e15` of them.
-/

namespace Kinglet.Js

/-- The number of a duration: what `/^(\d+(?:\.\d+)?)s$/` captures. -/
def durationNumber (duration : JsString) : Option JsString :=
  let whole := duration.takeWhile isDigit
  if whole = [] then none
  else
    match duration.dropWhile isDigit with
    | [115] => some whole
    | 46 :: rest =>
        let fraction := rest.takeWhile isDigit
        if fraction ≠ [] ∧ rest.dropWhile isDigit = [115] then some (whole ++ 46 :: fraction)
        else none
    | _ => none

/-- `parseDurationSeconds(duration)`, `none` when it throws. -/
def parseDurationSeconds (duration : JsString) : Option Float :=
  (durationNumber duration).map parseFloat

/-- A finite number without its fraction. -/
def truncate (x : Float) : Option ℤ :=
  match unpack x with
  | none => none
  | some (negative, m, e) =>
      let n := match e with
        | .ofNat e => m * 2 ^ e
        | .negSucc e => m / 2 ^ (e + 1)
      some (if negative then -(n : ℤ) else n)

def maxTime : Float := 8640000000000000

/-- The time value of `new Date(x)`, `none` for an invalid date, whose `toISOString` throws. -/
def timeClip (x : Float) : Option ℤ := if -maxTime ≤ x ∧ x ≤ maxTime then truncate x else none

/-- `new Date(now + seconds * 1000)`. -/
def dateAfter (now : ℤ) (seconds : Float) : Option ℤ := timeClip (Float.ofInt now + seconds * 1000)

/-- The year, month and day of a day, counted from 1970-01-01, in the Gregorian calendar; the
calculation starts years in March. -/
def civilDate (day : ℤ) : ℤ × ℕ × ℕ :=
  let shifted := day + 719468
  let era := shifted / 146097
  let dayOfEra := (shifted % 146097).toNat
  let yearOfEra := (dayOfEra - dayOfEra / 1460 + dayOfEra / 36524 - dayOfEra / 146096) / 365
  let dayOfYear := dayOfEra - (365 * yearOfEra + yearOfEra / 4 - yearOfEra / 100)
  let march := (5 * dayOfYear + 2) / 153
  let month := if march < 10 then march + 3 else march - 9
  let year : ℤ := yearOfEra + era * 400
  (if month ≤ 2 then year + 1 else year, month, dayOfYear - (153 * march + 2) / 5 + 1)

/-- `date.toISOString()` of the date with a time value: years outside 0 to 9999 have a sign. -/
def toISOString (time : ℤ) : JsString :=
  let (year, month, day) := civilDate (time / 86400000)
  let ms := (time % 86400000).toNat
  let yearText :=
    if 0 ≤ year ∧ year ≤ 9999 then padStart 4 (decimal year.toNat)
    else if year < 0 then 45 :: padStart 6 (decimal year.natAbs)
    else 43 :: padStart 6 (decimal year.toNat)
  yearText ++ js "-" ++ padStart 2 (decimal month) ++ js "-" ++ padStart 2 (decimal day) ++ js "T" ++
    padStart 2 (decimal (ms / 3600000)) ++ js ":" ++ padStart 2 (decimal (ms / 60000 % 60)) ++ js ":" ++
    padStart 2 (decimal (ms / 1000 % 60)) ++ js "." ++ padStart 3 (decimal (ms % 1000)) ++ js "Z"

/-- `2 ** exponent`. -/
def twoPow (exponent : ℕ) : Float := natNumber (2 ^ exponent)

/-- `Math.min(a, b)`. -/
def mathMin (a b : Float) : Float := if a.isNaN || b.isNaN then 0 / 0 else if b < a then b else a

example : (parseDurationSeconds "0.100s").bind (dateAfter 5) = some 105 := by decide +kernel
example : (parseDurationSeconds "99999999999999s").bind (dateAfter 5) = none := by decide +kernel
example : parseDurationSeconds "1.s" = none := by decide +kernel
example : toISOString 0 = js "1970-01-01T00:00:00.000Z" := by decide +kernel
example : toISOString 951782400123 = js "2000-02-29T00:00:00.123Z" := by decide +kernel
example : toISOString 8640000000000000 = js "+275760-09-13T00:00:00.000Z" := by decide +kernel
example : toISOString (-62198755200000) = js "-000001-01-01T00:00:00.000Z" := by decide +kernel

end Kinglet.Js
