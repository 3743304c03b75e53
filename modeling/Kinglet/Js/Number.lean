import Kinglet.Js.Text
import Mathlib.Algebra.Group.Int.Defs
import Mathlib.Algebra.Group.Nat.Defs

/-!
# JavaScript numbers

A JavaScript number is an IEEE 754 double, Lean's `Float`. What the source asks of numbers beyond
comparison and negation is whether one is an integer, its text, and the number a text denotes.
-/

namespace Kinglet.Js

/-- The mantissa and exponent of a finite nonzero number, or zero: `±m · 2 ^ e`. -/
def unpack (x : Float) : Option (Bool × ℕ × ℤ) :=
  match x.toModel.unpack with
  | .zero sign => some (sign == .negative, 0, 0)
  | .finite sign m e _ => some (sign == .negative, m, e)
  | .infinity _ | .notANumber => none

/-- The integer a number is, when it is one. -/
def intValue (x : Float) : Option ℤ :=
  match unpack x with
  | none => none
  | some (negative, m, .ofNat e) => some (if negative then -(m * 2 ^ e : ℕ) else (m * 2 ^ e : ℕ))
  | some (negative, m, .negSucc e) =>
      if m % 2 ^ (e + 1) = 0 then
        some (if negative then -(m / 2 ^ (e + 1) : ℕ) else (m / 2 ^ (e + 1) : ℕ))
      else none

/-- `Number.isInteger(x)`. -/
def isInteger (x : Float) : Bool := (intValue x).isSome

/-- The array position `x` denotes below `length`, when it denotes one. -/
def arrayIndex (x : Float) (length : ℕ) : Option ℕ :=
  match intValue x with
  | some (.ofNat i) => if i < length then some i else none
  | _ => none

/-- A length or a count as a number. -/
def natNumber (n : ℕ) : Float := Float.ofNat n

/-! ## Numbers from text -/

/-- `Number.parseInt(digits, 10)` for a text of decimal digits. -/
def parseDigits (digits : JsString) : Float := natNumber (digitsValue digits)

/-- `Number.parseInt(text, 10)`: leading white space and a sign are skipped, and the longest run
of digits is read. -/
def parseInt (text : JsString) : Float :=
  let body := trimStart text
  let (negative, rest) :=
    match body with
    | 45 :: rest => (true, rest)
    | 43 :: rest => (false, rest)
    | rest => (false, rest)
  match rest.takeWhile isDigit with
  | [] => 0 / 0
  | digits => if negative then -(parseDigits digits) else parseDigits digits

/-- `Number.parseFloat(text)` for a text of digits and dots that starts with a digit: the longest
prefix `digits[.digits]`. -/
def parseFloat (text : JsString) : Float :=
  let whole := text.takeWhile isDigit
  match text.dropWhile isDigit with
  | 46 :: rest =>
      let fraction := rest.takeWhile isDigit
      Float.ofScientific (digitsValue (whole ++ fraction)) true fraction.length
  | _ => parseDigits whole

/-! ## The text of a number -/

/-- The least `j ≤ fuel` with `den ≤ num * 10 ^ j`. -/
def leadingZeros (num den : ℕ) : ℕ → ℕ
  | 0 => 0
  | fuel + 1 => if den ≤ num then 0 else leadingZeros (num * 10) den fuel + 1

/-- `s * 10 ^ e` as a number. -/
def scientific (s : ℕ) : ℤ → Float
  | .ofNat e => Float.ofScientific s false e
  | .negSucc e => Float.ofScientific s true (e + 1)

/-- `num / den * 10 ^ e`, rounded down, with what is left over and its denominator. -/
def scaled (num den : ℕ) : ℤ → ℕ × ℕ × ℕ
  | .ofNat e => (num * 10 ^ e / den, num * 10 ^ e % den, den)
  | .negSucc e => (num / (den * 10 ^ (e + 1)), num % (den * 10 ^ (e + 1)), den * 10 ^ (e + 1))

/-- The shortest digits `s` and the exponent `n` with `s * 10 ^ (n - k) = x`, where `s` has `k`
digits: of the two neighbours of the exact value with `k` digits the closer one that reads back
as `x`. -/
def shortest (x : Float) (num den : ℕ) (n : ℤ) : ℕ → ℕ → ℕ × ℤ
  | _, 0 => (0, 0)
  | k, fuel + 1 =>
      let (low, left, size) := scaled num den (k - n)
      let fits := fun s => scientific s (n - k) == x
      if fits low && (2 * left ≤ size || !fits (low + 1)) then (low, n)
      else if fits (low + 1) then
        if low + 1 = 10 ^ k then (1, n + 1) else (low + 1, n)
      else shortest x num den n (k + 1) fuel

/-- The text of a positive number with digits `s` and exponent `n`: plain up to `10 ^ 21` and down
to `10 ^ -6`, in exponent notation outside. -/
def formatDigits (digits : JsString) (n : ℤ) : JsString :=
  let k := digits.length
  if k ≤ n ∧ n ≤ 21 then digits ++ List.replicate (n.toNat - k) 48
  else if 0 < n ∧ n ≤ 21 then digits.take n.toNat ++ [46] ++ digits.drop n.toNat
  else if -6 < n ∧ n ≤ 0 then js "0." ++ List.replicate (-n).toNat 48 ++ digits
  else
    let e := n - 1
    let exponent := (if e < 0 then js "e-" else js "e+") ++ decimal e.natAbs
    match digits with
    | [d] => d :: exponent
    | d :: rest => d :: 46 :: rest ++ exponent
    | [] => exponent

/-- `String(x)` for a number. -/
def numText (x : Float) : JsString :=
  match x.toModel.unpack with
  | .notANumber => js "NaN"
  | .infinity sign => if sign == .negative then js "-Infinity" else js "Infinity"
  | .zero _ => js "0"
  | .finite sign m e _ =>
      let (num, den) := match e with
        | .ofNat e => (m * 2 ^ e, 1)
        | .negSucc e => (m, 2 ^ (e + 1))
      let n : ℤ :=
        if den ≤ num then (Nat.toDigits 10 (num / den)).length
        else 1 - (leadingZeros num den 400 : ℤ)
      let (s, n) := shortest (scientific 1 0 * if sign == .negative then -x else x) num den n 1 17
      let text := formatDigits (decimal s) n
      if sign == .negative then 45 :: text else text

example : numText 0.1 = js "0.1" := by decide +kernel
example : numText (-1234500) = js "-1234500" := by decide +kernel

end Kinglet.Js
