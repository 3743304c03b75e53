import Kinglet.Js.Text

/-!
# Base64

Three bytes are written as four letters of 6 bits each (RFC 4648); a last group of one byte or two is
completed by zero bits, and `=` signs stand for the letters it does not need. `Buffer` writes this
text. What it reads may be in either alphabet: it skips every other character, and drops the bits
that are left at the end.
-/

namespace Kinglet.Js

/-- The numbers of 6 bits that stand for bytes. -/
def sextets : List UInt8 → List ℕ
  | a :: b :: c :: rest =>
      a.toNat / 4 :: (a.toNat % 4 * 16 + b.toNat / 16) :: (b.toNat % 16 * 4 + c.toNat / 64) ::
        c.toNat % 64 :: sextets rest
  | [a, b] => [a.toNat / 4, a.toNat % 4 * 16 + b.toNat / 16, b.toNat % 16 * 4]
  | [a] => [a.toNat / 4, a.toNat % 4 * 16]
  | [] => []

/-- The bytes that numbers of 6 bits stand for. -/
def ofSextets : List ℕ → List UInt8
  | a :: b :: c :: d :: rest =>
      (a * 4 + b / 16).toUInt8 :: (b % 16 * 16 + c / 4).toUInt8 :: (c % 4 * 64 + d).toUInt8 ::
        ofSextets rest
  | [a, b, c] => [(a * 4 + b / 16).toUInt8, (b % 16 * 16 + c / 4).toUInt8]
  | [a, b] => [(a * 4 + b / 16).toUInt8]
  | _ => []

/-- How many `=` signs complete the text of these bytes. -/
def padLength (bytes : List UInt8) : ℕ := (3 - bytes.length % 3) % 3

/-- A letter of the standard alphabet. -/
def base64Letter (n : ℕ) : UInt16 :=
  if n < 26 then (n + 65).toUInt16
  else if n < 52 then (n + 71).toUInt16
  else if n < 62 then (n - 4).toUInt16
  else if n = 62 then unit '+'
  else unit '/'

/-- The number of a letter of the standard or the URL-safe alphabet. -/
def base64Digit (u : UInt16) : Option ℕ :=
  if 65 ≤ u && u ≤ 90 then some (u.toNat - 65)
  else if 97 ≤ u && u ≤ 122 then some (u.toNat - 71)
  else if isDigit u then some (u.toNat + 4)
  else if u = unit '+' || u = unit '-' then some 62
  else if u = unit '/' || u = unit '_' then some 63
  else none

/-- `Buffer.from(bytes).toString('base64')`. -/
def bufferToBase64 (bytes : List UInt8) : JsString :=
  (sextets bytes).map base64Letter ++ List.replicate (padLength bytes) (unit '=')

/-- `Buffer.from(text, 'base64')`. -/
def bufferFromBase64 (text : JsString) : List UInt8 := ofSextets (text.filterMap base64Digit)

/-! ## Groups -/

theorem sextets_lt (bytes : List UInt8) : ∀ n ∈ sextets bytes, n < 64 := by
  induction bytes using sextets.induct with
  | case1 a b c rest ih =>
      have ha := a.toNat_lt
      have hb := b.toNat_lt
      have hc := c.toNat_lt
      simp only [sextets, List.forall_mem_cons]
      exact ⟨by omega, by omega, by omega, by omega, ih⟩
  | case2 a b =>
      have ha := a.toNat_lt
      have hb := b.toNat_lt
      simp only [sextets, List.forall_mem_cons]
      exact ⟨by omega, by omega, by omega, List.forall_mem_nil _⟩
  | case3 a =>
      have ha := a.toNat_lt
      simp only [sextets, List.forall_mem_cons]
      exact ⟨by omega, by omega, List.forall_mem_nil _⟩
  | case4 => exact List.forall_mem_nil _

theorem toUInt8_eq {n : ℕ} {a : UInt8} (h : n = a.toNat) : n.toUInt8 = a := by
  rw [h]
  exact UInt8.ofNat_toNat

/-- Bytes are read as they were written. -/
theorem ofSextets_sextets (bytes : List UInt8) : ofSextets (sextets bytes) = bytes := by
  induction bytes using sextets.induct with
  | case1 a b c rest ih =>
      have ha := a.toNat_lt
      have hb := b.toNat_lt
      have hc := c.toNat_lt
      rw [sextets, ofSextets, ih]
      congr 1
      · exact toUInt8_eq (by omega)
      · congr 1
        · exact toUInt8_eq (by omega)
        · congr 1
          exact toUInt8_eq (by omega)
  | case2 a b =>
      have ha := a.toNat_lt
      have hb := b.toNat_lt
      rw [sextets, ofSextets, toUInt8_eq (a := a) (by omega), toUInt8_eq (a := b) (by omega)]
  | case3 a =>
      have ha := a.toNat_lt
      rw [sextets, ofSextets, toUInt8_eq (a := a) (by omega)]
  | case4 => rfl

theorem eq_nil_of_sextets {bytes : List UInt8} (h : sextets bytes = []) : bytes = [] := by
  rw [← ofSextets_sextets bytes, h]
  rfl

/-! ## Letters -/

theorem base64Digit_letter {n : ℕ} (h : n < 64) : base64Digit (base64Letter n) = some n := by
  have hall : ∀ n : Fin 64, base64Digit (base64Letter n) = some n.val := by decide
  exact hall ⟨n, h⟩

theorem base64Letter_ne_pad {n : ℕ} (h : n < 64) : base64Letter n ≠ unit '=' := by
  intro heq
  have hdigit := base64Digit_letter h
  rw [heq, show base64Digit (unit '=') = none from rfl] at hdigit
  cases hdigit

end Kinglet.Js
