import Kinglet.Js.Text
import Mathlib.Tactic.IntervalCases

/-!
# UTF-8

`TextEncoder` and `TextDecoder` between JavaScript strings and bytes. Encoding replaces a lone
surrogate by U+FFFD. Decoding drops a leading byte order mark and, unless it is fatal, replaces
each maximal ill-formed sequence by U+FFFD. Bytes are natural numbers below 256. Percent encoding
writes the bytes of a well-formed string as text.

Decoding gives back the code points that were encoded (`decodePoints_flatMap`), so that encoding loses
nothing of a well-formed string (`encode_injOn`).
-/

namespace Kinglet.Js

/-! ## Code points -/

def isHighSurrogate (u : UInt16) : Bool := 0xD800 ≤ u && u ≤ 0xDBFF

def isLowSurrogate (u : UInt16) : Bool := 0xDC00 ≤ u && u ≤ 0xDFFF

/-- The code point of a surrogate pair. -/
def pairPoint (high low : UInt16) : ℕ :=
  0x10000 + (high.toNat - 0xD800) * 0x400 + (low.toNat - 0xDC00)

/-- What iterating over a string yields: its code points, with a lone surrogate as itself. -/
def codePoints : JsString → List ℕ
  | [] => []
  | [u] => [u.toNat]
  | u :: v :: rest =>
      if isHighSurrogate u && isLowSurrogate v then pairPoint u v :: codePoints rest
      else u.toNat :: codePoints (v :: rest)

/-- `String.fromCodePoint(point)`. -/
def fromCodePoint (point : ℕ) : JsString :=
  if point < 0x10000 then [point.toUInt16]
  else
    [(0xD800 + (point - 0x10000) / 0x400).toUInt16,
      (0xDC00 + (point - 0x10000) % 0x400).toUInt16]

/-- A code point that UTF-8 can carry. -/
def IsScalar (point : ℕ) : Prop := point < 0xD800 ∨ 0xE000 ≤ point ∧ point < 0x110000

instance (point : ℕ) : Decidable (IsScalar point) := inferInstanceAs (Decidable (_ ∨ _))

/-- A string without lone surrogates. -/
def WellFormed (text : JsString) : Prop := ∀ point ∈ codePoints text, IsScalar point

instance (text : JsString) : Decidable (WellFormed text) :=
  inferInstanceAs (Decidable (∀ point ∈ codePoints text, IsScalar point))

/-! ## Encoding -/

/-- The bytes of one scalar value. -/
def encodePoint (c : ℕ) : List ℕ :=
  if c < 0x80 then [c]
  else if c < 0x800 then [0xC0 + c / 64, 0x80 + c % 64]
  else if c < 0x10000 then [0xE0 + c / 4096, 0x80 + c / 64 % 64, 0x80 + c % 64]
  else [0xF0 + c / 262144, 0x80 + c / 4096 % 64, 0x80 + c / 64 % 64, 0x80 + c % 64]

/-- The scalar value written for a code point: U+FFFD for a lone surrogate. -/
def toScalar (point : ℕ) : ℕ := if IsScalar point then point else 0xFFFD

/-- `new TextEncoder().encode(text)`. -/
def encode (text : JsString) : List ℕ :=
  (codePoints text).flatMap fun point => encodePoint (toScalar point)

theorem codePoints_of_ascii {text : JsString} (h : ∀ u ∈ text, u < 0x80) :
    codePoints text = text.map UInt16.toNat := by
  induction text with
  | nil => rfl
  | cons u rest ih =>
      obtain ⟨hu, hrest⟩ := List.forall_mem_cons.1 h
      have hhigh : isHighSurrogate u = false := by
        unfold isHighSurrogate
        rw [decide_eq_false (UInt16.not_le.2 (UInt16.lt_trans hu (by decide))), Bool.false_and]
      cases rest with
      | nil => rfl
      | cons v rest =>
          rw [codePoints, hhigh, Bool.false_and, if_neg Bool.false_ne_true, ih hrest]
          rfl

/-- The bytes of an ASCII text are its code units. -/
theorem encode_of_ascii {text : JsString} (h : ∀ u ∈ text, u < 0x80) :
    encode text = text.map UInt16.toNat := by
  rw [encode, codePoints_of_ascii h, List.flatMap_map, ← List.flatMap_pure_eq_map]
  apply List.flatMap_congr
  intro u hu
  have hlt : u.toNat < 0x80 := h u hu
  rw [toScalar, if_pos (.inl (by omega)), encodePoint, if_pos hlt]
  rfl

/-! ## Decoding -/

/-- A sequence begun: the continuation bytes still needed, the value so far and the range of the
next byte. -/
structure Pending where
  needed : ℕ
  point : ℕ
  lower : ℕ
  upper : ℕ

/-- What a byte starts. -/
inductive Lead where
  | point (c : ℕ)
  | pending (p : Pending)
  | bad

def lead (b : ℕ) : Lead :=
  if b < 0x80 then .point b
  else if 0xC2 ≤ b ∧ b ≤ 0xDF then .pending ⟨1, b - 0xC0, 0x80, 0xBF⟩
  else if 0xE0 ≤ b ∧ b ≤ 0xEF then
    .pending ⟨2, b - 0xE0, if b = 0xE0 then 0xA0 else 0x80, if b = 0xED then 0x9F else 0xBF⟩
  else if 0xF0 ≤ b ∧ b ≤ 0xF4 then
    .pending ⟨3, b - 0xF0, if b = 0xF0 then 0x90 else 0x80, if b = 0xF4 then 0x8F else 0xBF⟩
  else .bad

/-- The decoder: the scalar values read, `none` for each ill-formed sequence. A byte that cannot
continue a sequence ends it and is read again as a first byte. -/
def decodePoints : Option Pending → List ℕ → List (Option ℕ)
  | none, [] => []
  | some _, [] => [none]
  | none, b :: bytes =>
      match lead b with
      | .point c => some c :: decodePoints none bytes
      | .pending p => decodePoints (some p) bytes
      | .bad => none :: decodePoints none bytes
  | some p, b :: bytes =>
      if p.lower ≤ b ∧ b ≤ p.upper then
        let c := p.point * 64 + (b - 0x80)
        if p.needed = 1 then some c :: decodePoints none bytes
        else decodePoints (some ⟨p.needed - 1, c, 0x80, 0xBF⟩) bytes
      else
        match lead b with
        | .point c => none :: some c :: decodePoints none bytes
        | .pending q => none :: decodePoints (some q) bytes
        | .bad => none :: none :: decodePoints none bytes

/-- Without a byte order mark at the front. -/
def stripBom : List ℕ → List ℕ
  | 0xEF :: 0xBB :: 0xBF :: bytes => bytes
  | bytes => bytes

/-- `new TextDecoder('utf-8', { fatal: false }).decode(bytes)`. -/
def decode (bytes : List ℕ) : JsString :=
  (decodePoints none (stripBom bytes)).flatMap fun point => fromCodePoint (point.getD 0xFFFD)

/-- `new TextDecoder('utf-8', { fatal: true }).decode(bytes)`, `none` when it throws. -/
def decodeFatal (bytes : List ℕ) : Option JsString :=
  ((decodePoints none (stripBom bytes)).mapM id).map fun points => points.flatMap fromCodePoint

/-! ## Round trip -/

/-- Reading the bytes of a scalar value gives it back, whatever follows. -/
theorem decodePoints_encodePoint {c : ℕ} (hc : IsScalar c) (bytes : List ℕ) :
    decodePoints none (encodePoint c ++ bytes) = some c :: decodePoints none bytes := by
  unfold IsScalar at hc
  by_cases h1 : c < 0x80
  · simp [encodePoint, h1, decodePoints, lead]
  by_cases h2 : c < 0x800
  · have hlead : lead (0xC0 + c / 64) = .pending ⟨1, c / 64, 0x80, 0xBF⟩ := by
      unfold lead
      rw [if_neg (by omega), if_pos (by omega), Nat.add_sub_cancel_left]
    simp only [encodePoint, h1, h2, if_true, if_false, List.cons_append, List.nil_append,
      decodePoints, hlead]
    rw [if_pos (by omega), show c / 64 * 64 + (0x80 + c % 64 - 0x80) = c by omega]
  by_cases h3 : c < 0x10000
  · have hlead : lead (0xE0 + c / 4096) = .pending ⟨2, c / 4096,
        if c / 4096 = 0 then 0xA0 else 0x80, if c / 4096 = 13 then 0x9F else 0xBF⟩ := by
      unfold lead
      rw [if_neg (by omega), if_neg (by omega), if_pos (by omega), Nat.add_sub_cancel_left]
      simp only [show (0xE0 + c / 4096 = 0xE0) = (c / 4096 = 0) by simp,
        show (0xE0 + c / 4096 = 0xED) = (c / 4096 = 13) by simp; omega]
    simp only [encodePoint, h1, h2, h3, if_true, if_false, List.cons_append, List.nil_append,
      decodePoints, hlead]
    have hvalue : (c / 4096 * 64 + (0x80 + c / 64 % 64 - 0x80)) * 64 +
        (0x80 + c % 64 - 0x80) = c := by omega
    rw [if_pos (by split <;> split <;> omega), if_neg (by decide), if_pos (by omega), hvalue]
  · have hlead : lead (0xF0 + c / 262144) = .pending ⟨3, c / 262144,
        if c / 262144 = 0 then 0x90 else 0x80, if c / 262144 = 4 then 0x8F else 0xBF⟩ := by
      unfold lead
      rw [if_neg (by omega), if_neg (by omega), if_neg (by omega), if_pos (by omega),
        Nat.add_sub_cancel_left]
      simp only [show (0xF0 + c / 262144 = 0xF0) = (c / 262144 = 0) by simp,
        show (0xF0 + c / 262144 = 0xF4) = (c / 262144 = 4) by simp; omega]
    simp only [encodePoint, h1, h2, h3, if_false, List.cons_append, List.nil_append,
      decodePoints, hlead]
    have hvalue : ((c / 262144 * 64 + (0x80 + c / 4096 % 64 - 0x80)) * 64 +
        (0x80 + c / 64 % 64 - 0x80)) * 64 + (0x80 + c % 64 - 0x80) = c := by omega
    rw [if_pos (by split <;> split <;> omega), if_neg (by decide), if_pos (by omega),
      if_neg (by decide), if_pos (by omega), hvalue, if_pos trivial]

theorem decodePoints_flatMap {points : List ℕ} (hpoints : ∀ c ∈ points, IsScalar c) :
    decodePoints none (points.flatMap encodePoint) = points.map some := by
  induction points with
  | nil => rfl
  | cons c points ih =>
      have hrest := ih fun d hd => hpoints d (List.mem_cons_of_mem c hd)
      rw [List.flatMap_cons, decodePoints_encodePoint (hpoints c List.mem_cons_self), hrest]
      rfl

theorem encode_of_wellFormed {text : JsString} (hw : WellFormed text) :
    encode text = (codePoints text).flatMap encodePoint := by
  have hscalar : ∀ point ∈ codePoints text,
      encodePoint (toScalar point) = encodePoint point := fun point hpoint => by
    rw [toScalar, if_pos (hw point hpoint)]
  simp only [encode, List.flatMap_def, List.map_congr_left hscalar]

/-- A string is the concatenation of the encodings of its code points. -/
theorem flatMap_fromCodePoint (text : JsString) :
    (codePoints text).flatMap fromCodePoint = text := by
  have hunit : ∀ u : UInt16, fromCodePoint u.toNat = [u] := fun u => by
    rw [fromCodePoint, if_pos (UInt16.toNat_lt u), Nat.toUInt16, UInt16.ofNat_toNat]
  induction text using codePoints.induct with
  | case1 => rfl
  | case2 u => simp [codePoints, hunit]
  | case3 u v rest hpair ih =>
      rw [codePoints, if_pos hpair, List.flatMap_cons, ih]
      simp only [isHighSurrogate, isLowSurrogate, Bool.and_eq_true, decide_eq_true_eq,
        UInt16.le_iff_toNat_le, UInt16.reduceToNat] at hpair
      have hu : 0xD800 + (pairPoint u v - 0x10000) / 0x400 = u.toNat := by
        unfold pairPoint; omega
      have hv : 0xDC00 + (pairPoint u v - 0x10000) % 0x400 = v.toNat := by
        unfold pairPoint; omega
      have hbig : ¬ pairPoint u v < 0x10000 := by unfold pairPoint; omega
      rw [fromCodePoint, if_neg hbig, hu, hv]
      simp [Nat.toUInt16, UInt16.ofNat_toNat]
  | case4 u v rest hpair ih =>
      rw [codePoints, if_neg hpair, List.flatMap_cons, ih, hunit]
      rfl

/-- The three bytes of a byte order mark come from U+FEFF only. -/
theorem stripBom_flatMap {points : List ℕ} (hpoints : ∀ c ∈ points, IsScalar c)
    (hbom : points.head? ≠ some 0xFEFF) :
    stripBom (points.flatMap encodePoint) = points.flatMap encodePoint := by
  cases points with
  | nil => rfl
  | cons c points =>
      have hc := hpoints c List.mem_cons_self
      have hne : c ≠ 0xFEFF := fun h => hbom (by simp [h])
      rw [List.flatMap_cons]
      unfold IsScalar at hc
      unfold stripBom
      split
      · rename_i bytes heq
        exfalso
        unfold encodePoint at heq
        split at heq
        · simp at heq; omega
        split at heq
        · simp at heq; omega
        split at heq
        · simp at heq; omega
        · simp at heq; omega
      · rfl

/-- **Encoding is injective** on well-formed strings. -/
theorem encode_injOn {a b : JsString} (ha : WellFormed a) (hb : WellFormed b)
    (h : encode a = encode b) : a = b := by
  rw [encode_of_wellFormed ha, encode_of_wellFormed hb] at h
  have hpoints : (codePoints a).map some = (codePoints b).map some := by
    rw [← decodePoints_flatMap ha, ← decodePoints_flatMap hb, h]
  have hcodes := List.map_injective_iff.2 (fun _ _ => Option.some.inj) hpoints
  rw [← flatMap_fromCodePoint a, ← flatMap_fromCodePoint b, hcodes]

/-! ## Percent encoding -/

/-- The upper case hexadecimal digit of a number below 16. -/
def hexDigit (n : ℕ) : UInt16 := if n < 10 then (48 + n).toUInt16 else (55 + n).toUInt16

/-- The bytes that `encodeURIComponent` leaves as they are: `/[A-Za-z0-9\-_.!~*'()]/`. -/
def isUriUnescaped (b : ℕ) : Bool :=
  isWord b.toUInt16 || b ∈ [33, 39, 40, 41, 42, 45, 46, 126]

/-- The text of one byte. -/
def escapeByte (b : ℕ) : JsString :=
  if b < 128 ∧ isUriUnescaped b = true then [b.toUInt16]
  else [unit '%', hexDigit (b / 16), hexDigit (b % 16)]

/-- `encodeURIComponent(text)`, `none` when it throws. -/
def encodeURIComponent (text : JsString) : Option JsString :=
  if WellFormed text then some ((encode text).flatMap escapeByte) else none

theorem encodePoint_lt {c : ℕ} (hc : IsScalar c) : ∀ b ∈ encodePoint c, b < 256 := by
  intro b hb
  unfold IsScalar at hc
  unfold encodePoint at hb
  split at hb
  · obtain rfl := List.mem_singleton.1 hb
    omega
  · split at hb
    · simp only [List.mem_cons, List.not_mem_nil, or_false] at hb
      omega
    · split at hb <;> simp only [List.mem_cons, List.not_mem_nil, or_false] at hb <;> omega

theorem encode_lt (text : JsString) : ∀ b ∈ encode text, b < 256 := by
  intro b hb
  obtain ⟨point, -, hpoint⟩ := List.mem_flatMap.1 hb
  refine encodePoint_lt ?_ b hpoint
  unfold toScalar
  split
  · assumption
  · exact .inr ⟨by decide, by decide⟩

theorem encode_eq_nil {text : JsString} (h : encode text = []) : text = [] := by
  have hnil : ∀ point, encodePoint point ≠ [] := by
    intro point
    unfold encodePoint
    split
    · exact List.cons_ne_nil _ _
    · split
      · exact List.cons_ne_nil _ _
      · split <;> exact List.cons_ne_nil _ _
  have hpoints : codePoints text = [] := by
    cases hcodes : codePoints text with
    | nil => rfl
    | cons point rest =>
        rw [encode, hcodes, List.flatMap_cons] at h
        exact absurd (List.append_eq_nil_iff.1 h).1 (hnil _)
  rw [← flatMap_fromCodePoint text, hpoints, List.flatMap_nil]

theorem hexDigit_inj {m n : ℕ} (hm : m < 16) (hn : n < 16) (h : hexDigit m = hexDigit n) :
    m = n := by
  revert h
  interval_cases m <;> interval_cases n <;> decide

end Kinglet.Js
