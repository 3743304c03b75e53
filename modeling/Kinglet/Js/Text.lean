import Mathlib.Data.List.Basic
import Mathlib.Data.List.DropRight

/-!
# JavaScript strings

A JavaScript string is a sequence of UTF-16 code units; indices, lengths and the comparisons of
the source all count code units, never characters. The operations below are the ones the source
calls, with the index arguments it gives them.
-/

namespace Kinglet.Js

/-- A JavaScript string: its UTF-16 code units. -/
abbrev JsString := List UInt16

instance : LawfulBEq JsString := inferInstance

/-- The UTF-16 encoding of one character. -/
def utf16 (c : Char) : JsString :=
  let n := c.toNat
  if n < 0x10000 then [n.toUInt16]
  else [(0xD800 + (n - 0x10000) / 0x400).toUInt16, (0xDC00 + (n - 0x10000) % 0x400).toUInt16]

/-- A string literal of the source. -/
def js (s : String) : JsString := s.toList.flatMap utf16

instance : Coe String JsString := ⟨js⟩

/-- The code unit of an ASCII character. -/
def unit (c : Char) : UInt16 := c.toNat.toUInt16

/-! ## Character classes -/

/-- `/[0-9]/`. -/
def isDigit (u : UInt16) : Bool := 48 ≤ u && u ≤ 57

/-- `/[A-Za-z_]/`. -/
def isIdentStart (u : UInt16) : Bool :=
  (65 ≤ u && u ≤ 90) || (97 ≤ u && u ≤ 122) || u = 95

/-- `/[A-Za-z0-9_]/`, which is also `\w`. -/
def isWord (u : UInt16) : Bool := isIdentStart u || isDigit u

/-- The value of a hexadecimal digit, either case. -/
def hexValue (u : UInt16) : Option ℕ :=
  if isDigit u then some (u.toNat - 48)
  else if 97 ≤ u && u ≤ 102 then some (u.toNat - 87)
  else if 65 ≤ u && u ≤ 70 then some (u.toNat - 55)
  else none

/-- `/\s/`: white space and line terminators, the set `trim` removes as well. -/
def isSpace (u : UInt16) : Bool :=
  (9 ≤ u && u ≤ 13) || u = 32 || u = 0xA0 || u = 0x1680 || (0x2000 ≤ u && u ≤ 0x200A) ||
    u = 0x2028 || u = 0x2029 || u = 0x202F || u = 0x205F || u = 0x3000 || u = 0xFEFF

/-! ## String methods -/

/-- `text.startsWith(search)`. -/
def startsWith (text search : JsString) : Bool := search.isPrefixOf text

/-- `text.endsWith(search)`. -/
def endsWith (text search : JsString) : Bool := search.isSuffixOf text

/-- `text.includes(search)`. -/
def includes (text search : JsString) : Bool := text.tails.any search.isPrefixOf

/-- `text.split(separator)` for a separator of one code unit. -/
def splitUnit (separator : UInt16) (text : JsString) : List JsString := text.splitOn separator

/-- `text.split('::')`: a separator of two equal code units, found from the left. -/
def splitPair (separator : UInt16) : JsString → List JsString
  | [] => [[]]
  | [u] => [[u]]
  | u :: v :: rest =>
      if u = separator ∧ v = separator then [] :: splitPair separator rest
      else
        match splitPair separator (v :: rest) with
        | [] => [[u]]
        | first :: others => (u :: first) :: others

/-- `text.trimStart()`. -/
def trimStart (text : JsString) : JsString := text.dropWhile isSpace

/-- `text.trim()`. -/
def trim (text : JsString) : JsString := (trimStart text).rdropWhile isSpace

/-- The part before the first `u` and, when there is one, the part after it:
`indexOf` followed by the two `substring` calls. -/
def cut (u : UInt16) (text : JsString) : JsString × Option JsString :=
  match text.idxOf? u with
  | none => (text, none)
  | some i => (text.take i, some (text.drop (i + 1)))

/-- The part before the last `u` and the part after it: `lastIndexOf` and two `substring`s. -/
def cutLast (u : UInt16) (text : JsString) : Option (JsString × JsString) :=
  match cut u text.reverse with
  | (_, none) => none
  | (after, some before) => some (before.reverse, after.reverse)

/-- `parts.join(separator)`. -/
def join (separator : JsString) (parts : List JsString) : JsString :=
  (parts.intersperse separator).flatten

/-! ## Decimal and hexadecimal text of a natural number -/

/-- `n.toString(base)`, lower case. -/
def natText (base n : ℕ) : JsString := (Nat.toDigits base n).map unit

/-- `${n}` for a natural number. -/
def decimal (n : ℕ) : JsString := natText 10 n

/-- The number a sequence of decimal digits denotes. -/
def digitsValue (digits : JsString) : ℕ :=
  digits.foldl (fun n u => 10 * n + (u.toNat - 48)) 0

/-- `text.padStart(width, '0')`. -/
def padStart (width : ℕ) (text : JsString) : JsString :=
  List.replicate (width - text.length) 48 ++ text

theorem unit_toNat_of_isDigit {c : Char} (hc : c.isDigit) : (unit c).toNat = c.toNat := by
  have hle : c.toNat ≤ 57 := by
    have := (Char.isDigit_iff_toNat.1 hc).2
    simpa using this
  simp only [unit, Nat.toUInt16]
  rw [UInt16.toNat_ofNat', Nat.mod_eq_of_lt (by omega)]

theorem isDigit_of_mem_decimal {n : ℕ} {u : UInt16} (hu : u ∈ decimal n) : isDigit u := by
  obtain ⟨c, hc, rfl⟩ := List.mem_map.1 hu
  have hdigit := Nat.isDigit_of_mem_toDigits (by decide) (by decide) hc
  have hnat := unit_toNat_of_isDigit hdigit
  have hrange := Char.isDigit_iff_toNat.1 hdigit
  simp only [isDigit, Bool.and_eq_true, decide_eq_true_eq, UInt16.le_iff_toNat_le, hnat]
  exact hrange

theorem decimal_ne_nil (n : ℕ) : decimal n ≠ [] := by
  intro hnil
  have hlength := congrArg List.length hnil
  rw [decimal, natText, List.length_map] at hlength
  exact absurd hlength Nat.length_toDigits_pos.ne'

theorem map_ofNat_decimal (n : ℕ) :
    (decimal n).map (fun u => Char.ofNat u.toNat) = Nat.toDigits 10 n := by
  rw [decimal, natText, List.map_map, ← List.map_id (Nat.toDigits 10 n), List.map_map]
  apply List.map_congr_left
  intro c hc
  have hdigit := Nat.isDigit_of_mem_toDigits (by decide) (by decide) hc
  simp only [Function.comp_apply, id_eq, unit_toNat_of_isDigit hdigit, Char.ofNat_toNat]

/-- **The decimal text of a number determines it.** -/
theorem decimal_injective : Function.Injective decimal := by
  intro m n h
  have hchars : Nat.toDigits 10 m = Nat.toDigits 10 n := by
    rw [← map_ofNat_decimal, ← map_ofNat_decimal, h]
  have hvalue := congrArg (Nat.ofDigitChars 10 · 0) hchars
  simpa using hvalue

theorem foldl_map_unit {chars : List Char} (h : ∀ c ∈ chars, c.isDigit) (n : ℕ) :
    (chars.map unit).foldl (fun n u => 10 * n + (u.toNat - 48)) n = Nat.ofDigitChars 10 chars n := by
  induction chars generalizing n with
  | nil => rfl
  | cons c chars ih =>
      obtain ⟨hc, hchars⟩ := List.forall_mem_cons.1 h
      rw [List.map_cons, List.foldl_cons, ih hchars, Nat.ofDigitChars_cons, unit_toNat_of_isDigit hc]
      rfl

theorem digitsValue_decimal (n : ℕ) : digitsValue (decimal n) = n := by
  have hdigits : ∀ c ∈ Nat.toDigits 10 n, c.isDigit := by
    intro c hc
    exact Nat.isDigit_of_mem_toDigits (by decide) (by decide) hc
  calc digitsValue (decimal n) = Nat.ofDigitChars 10 (Nat.toDigits 10 n) 0 := foldl_map_unit hdigits 0
    _ = n := by simp

/-- Decimal text contains no NUL, the separator of composed keys. -/
theorem zero_notMem_decimal (n : ℕ) : (0 : UInt16) ∉ decimal n := fun hmem =>
  absurd (isDigit_of_mem_decimal hmem) (by decide)

/-- Texts joined by a separator that the first ones do not contain come apart again. -/
theorem append_cons_inj {α : Type*} {separator : α} {a b x y : List α} (ha : separator ∉ a)
    (hb : separator ∉ b) (h : a ++ separator :: x = b ++ separator :: y) : a = b ∧ x = y := by
  induction a generalizing b with
  | nil =>
      cases b with
      | nil => exact ⟨rfl, (List.cons.inj h).2⟩
      | cons c b => exact absurd ((List.cons.inj h).1 ▸ List.mem_cons_self) hb
  | cons c a ih =>
      cases b with
      | nil => exact absurd ((List.cons.inj h).1 ▸ List.mem_cons_self) ha
      | cons d b =>
          obtain ⟨hcd, hrest⟩ := List.cons.inj h
          rw [List.mem_cons, not_or] at ha hb
          obtain ⟨hab, hxy⟩ := ih ha.2 hb.2 hrest
          exact ⟨by rw [hcd, hab], hxy⟩

end Kinglet.Js
