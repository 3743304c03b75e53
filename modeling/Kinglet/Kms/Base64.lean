import Kinglet.Js.Base64
import Kinglet.Js.Value
import Kinglet.Kms.Types
import Kinglet.Shared.Crc32c

/-!
# Bytes in requests to Cloud KMS

`decodeBase64` takes all `=` signs off the end of a text, decodes the rest with `Buffer`, and accepts
it if the bytes are written in the same way. Which letters stand before the `=` signs is checked so,
but not how many of the signs there are. `checkCrc` compares the checksum of a request with its bytes.
-/

namespace Kinglet.Kms

open Js

/-! ## The decoder -/

/-- The letter of the standard alphabet: `replaceAll('-', '+')` and `replaceAll('_', '/')`. -/
def standardLetter (u : UInt16) : UInt16 :=
  if u = unit '-' then unit '+' else if u = unit '_' then unit '/' else u

/-- `replace(/=+$/, '')`. -/
def withoutPadding (text : JsString) : JsString := text.rdropWhile fun u => u = unit '='

def notBase64 (field : JsString) : Thrown := .kms .invalidArgument (field ++ js " is not valid base64")

/-- `decodeBase64(value, field)`, where no bytes stand for a missing field. -/
def decodeBase64 (value : JsValue) (field : JsString) : Except Thrown (Option (List UInt8)) :=
  match value with
  | .str [] => .ok none
  | .str text =>
      let normalized := withoutPadding (text.map standardLetter)
      let bytes := bufferFromBase64 normalized
      if withoutPadding (bufferToBase64 bytes) = normalized then .ok (some bytes)
      else .error (notBase64 field)
  | _ => .ok none

def encodeBase64 (bytes : List UInt8) : JsString := bufferToBase64 bytes

/-! ## Base64 spellings -/

/-- The letters of the bytes, in either alphabet, without padding. -/
def SpellsUnpadded (text : JsString) (bytes : List UInt8) : Prop :=
  text.map base64Digit = (sextets bytes).map some

/-- A text of RFC 4648: the padding is left out, or it is complete. -/
def Spells (text : JsString) (bytes : List UInt8) : Prop :=
  ∃ letters k, text = letters ++ List.replicate k (unit '=') ∧ SpellsUnpadded letters bytes ∧
    (k = 0 ∨ k = padLength bytes)

/-- Exactly the spellings of some bytes are accepted, as these bytes. -/
structure Faithful (field text : JsString) : Prop where
  accepts : ∀ bytes, decodeBase64 (.str text) field = .ok (some bytes) ↔
    bytes ≠ [] ∧ Spells text bytes
  rejects : (¬∃ bytes, bytes ≠ [] ∧ Spells text bytes) →
    decodeBase64 (.str text) field = .error (notBase64 field)

/-- A spelling, perhaps that of no bytes, with `=` signs that are not the ones it needs. -/
def Mispadded (text : JsString) : Prop :=
  ∃ letters bytes k, text = letters ++ List.replicate k (unit '=') ∧ SpellsUnpadded letters bytes ∧
    k ≠ 0 ∧ k ≠ padLength bytes

/-! ## Padding -/

variable {text letters field : JsString} {bytes : List UInt8}

theorem withoutPadding_append (h : unit '=' ∉ letters) (k : ℕ) :
    withoutPadding (letters ++ List.replicate k (unit '=')) = letters := by
  induction k with
  | zero =>
      rw [List.replicate_zero, List.append_nil, withoutPadding, List.rdropWhile_eq_self_iff]
      intro hne hlast
      exact h (of_decide_eq_true hlast ▸ List.getLast_mem hne)
  | succ k ih =>
      rw [List.replicate_succ', ← List.append_assoc]
      have hdrop : withoutPadding (letters ++ List.replicate k (unit '=') ++ [unit '=']) =
          withoutPadding (letters ++ List.replicate k (unit '=')) :=
        List.rdropWhile_concat_pos _ _ _ (decide_eq_true rfl)
      rw [hdrop, ih]

/-- A text is what is left without padding, and the padding. -/
theorem exists_padding (text : JsString) :
    ∃ k, text = withoutPadding text ++ List.replicate k (unit '=') := by
  induction text using List.reverseRecOn with
  | nil => exact ⟨0, rfl⟩
  | append_singleton text u ih =>
      by_cases hu : u = unit '='
      · obtain ⟨k, hk⟩ := ih
        have hdrop : withoutPadding (text ++ [u]) = withoutPadding text :=
          List.rdropWhile_concat_pos _ _ _ (decide_eq_true hu)
        refine ⟨k + 1, ?_⟩
        rw [hdrop, List.replicate_succ', ← List.append_assoc, ← hk, hu]
      · have hdrop : withoutPadding (text ++ [u]) = text ++ [u] :=
          List.rdropWhile_concat_neg _ _ _ (by simpa using hu)
        exact ⟨0, by rw [hdrop, List.replicate_zero, List.append_nil]⟩

theorem eq_pad_of_standardLetter {u : UInt16} (h : standardLetter u = unit '=') : u = unit '=' := by
  unfold standardLetter at h
  split_ifs at h
  · exact absurd h (by decide)
  · exact absurd h (by decide)
  · exact h

/-- What is left of a text in the standard alphabet comes from the part before its padding. -/
theorem withoutPadding_eq_iff (h : unit '=' ∉ letters) :
    withoutPadding (text.map standardLetter) = letters ↔
      ∃ front k, text = front ++ List.replicate k (unit '=') ∧ front.map standardLetter = letters := by
  constructor
  · intro hletters
    obtain ⟨k, hk⟩ := exists_padding (text.map standardLetter)
    rw [hletters] at hk
    obtain ⟨front, back, rfl, hfront, hback⟩ := List.map_eq_append_iff.1 hk
    refine ⟨front, back.length, ?_, hfront⟩
    rw [List.append_cancel_left_eq, List.eq_replicate_iff]
    refine ⟨rfl, fun u hu => eq_pad_of_standardLetter ?_⟩
    exact List.eq_of_mem_replicate (hback ▸ List.mem_map_of_mem hu)
  · rintro ⟨front, k, rfl, rfl⟩
    rw [List.map_append, List.map_replicate]
    exact withoutPadding_append h k

/-! ## Letters -/

theorem base64Digit_standardLetter (u : UInt16) :
    base64Digit (standardLetter u) = base64Digit u := by
  unfold standardLetter
  split_ifs with hminus hunderscore
  · rw [hminus]
    rfl
  · rw [hunderscore]
    rfl
  · rfl

/-- The letter of the number of a character is that character, in the standard alphabet. -/
theorem base64Letter_digit {u : UInt16} {n : ℕ} (h : base64Digit u = some n) :
    base64Letter n = standardLetter u ∧ n < 64 := by
  have hplain (hminus : u.toNat ≠ 45) (hunderscore : u.toNat ≠ 95) : standardLetter u = u := by
    rw [standardLetter, if_neg, if_neg]
    · rintro rfl
      exact hunderscore rfl
    · rintro rfl
      exact hminus rfl
  have hofNat {k : ℕ} (hk : k = u.toNat) : k.toUInt16 = u := by
    rw [hk]
    exact UInt16.ofNat_toNat
  unfold base64Digit at h
  simp only [isDigit, Bool.and_eq_true, Bool.or_eq_true, decide_eq_true_iff,
    UInt16.le_iff_toNat_le, UInt16.reduceToNat] at h
  split_ifs at h with hupper hlower hdigit hplus hslash <;> obtain rfl := Option.some.inj h
  · rw [hplain (by omega) (by omega), base64Letter, if_pos (by omega)]
    exact ⟨hofNat (by omega), by omega⟩
  · rw [hplain (by omega) (by omega), base64Letter, if_neg (by omega), if_pos (by omega)]
    exact ⟨hofNat (by omega), by omega⟩
  · rw [hplain (by omega) (by omega), base64Letter, if_neg (by omega), if_neg (by omega),
      if_pos (by omega)]
    exact ⟨hofNat (by omega), by omega⟩
  · obtain rfl | rfl := hplus <;> decide
  · obtain rfl | rfl := hslash <;> decide

/-- A character has a number exactly if it is, in the standard alphabet, the letter of that number. -/
theorem standardLetter_eq_iff {u : UInt16} {n : ℕ} (hn : n < 64) :
    standardLetter u = base64Letter n ↔ base64Digit u = some n := by
  constructor
  · intro h
    rw [← base64Digit_standardLetter, h, base64Digit_letter hn]
  · exact fun h => (base64Letter_digit h).1.symm

theorem map_standardLetter_iff :
    text.map standardLetter = (sextets bytes).map base64Letter ↔ SpellsUnpadded text bytes := by
  have hlt := sextets_lt bytes
  rw [SpellsUnpadded]
  generalize sextets bytes = numbers at hlt
  induction numbers generalizing text with
  | nil => simp
  | cons n numbers ih =>
      obtain ⟨hn, hnumbers⟩ := List.forall_mem_cons.1 hlt
      cases text with
      | nil => simp
      | cons u text =>
          simp only [List.map_cons, List.cons.injEq]
          exact and_congr (standardLetter_eq_iff hn) (ih hnumbers)

theorem pad_notMem_letters (bytes : List UInt8) :
    unit '=' ∉ (sextets bytes).map base64Letter := by
  intro h
  obtain ⟨n, hn, heq⟩ := List.mem_map.1 h
  exact base64Letter_ne_pad (sextets_lt bytes n hn) heq

theorem bufferFromBase64_letters (bytes : List UInt8) :
    bufferFromBase64 ((sextets bytes).map base64Letter) = bytes := by
  have hdigits : ((sextets bytes).map base64Letter).filterMap base64Digit = sextets bytes := by
    rw [List.filterMap_map]
    refine (List.filterMap_congr fun n hn => ?_).trans List.filterMap_some
    exact base64Digit_letter (sextets_lt bytes n hn)
  rw [bufferFromBase64, hdigits, ofSextets_sextets]

/-! ## What is accepted -/

/-- A text is accepted if what stands before its padding spells bytes, however many `=` signs there
are. -/
theorem decodeBase64_eq_ok_iff (htext : text ≠ []) :
    decodeBase64 (.str text) field = .ok (some bytes) ↔
      ∃ front k, text = front ++ List.replicate k (unit '=') ∧ SpellsUnpadded front bytes := by
  have hdecode : decodeBase64 (.str text) field = .ok (some bytes) ↔
      withoutPadding (text.map standardLetter) = (sextets bytes).map base64Letter := by
    have hencode : ∀ bytes, withoutPadding (bufferToBase64 bytes) = (sextets bytes).map base64Letter :=
      fun bytes => withoutPadding_append (pad_notMem_letters bytes) _
    rw [decodeBase64, hencode]
    · split_ifs with haccepted
      · constructor
        · intro h
          rw [← Option.some.inj (Except.ok.inj h), haccepted]
        · intro h
          rw [h, bufferFromBase64_letters]
      · refine iff_of_false nofun fun h => haccepted ?_
        rw [h, bufferFromBase64_letters]
    · exact htext
  simp only [hdecode, withoutPadding_eq_iff (pad_notMem_letters bytes), map_standardLetter_iff]

theorem decodeBase64_cases (htext : text ≠ []) :
    (∃ bytes, decodeBase64 (.str text) field = .ok (some bytes)) ∨
      decodeBase64 (.str text) field = .error (notBase64 field) := by
  rw [decodeBase64]
  · split_ifs
    · exact .inl ⟨_, rfl⟩
    · exact .inr rfl
  · exact htext

theorem SpellsUnpadded.pad_notMem (h : SpellsUnpadded text bytes) : unit '=' ∉ text := by
  intro hmem
  have hdigit : base64Digit (unit '=') ∈ text.map base64Digit := List.mem_map_of_mem hmem
  rw [h] at hdigit
  obtain ⟨n, -, hn⟩ := List.mem_map.1 hdigit
  cases hn

/-- A text has one padding. -/
theorem SpellsUnpadded.pad_unique {letters' : JsString} {bytes' : List UInt8} {k k' : ℕ}
    (h : SpellsUnpadded letters bytes) (h' : SpellsUnpadded letters' bytes')
    (heq : letters ++ List.replicate k (unit '=') = letters' ++ List.replicate k' (unit '=')) :
    k = k' := by
  have hletters : letters = letters' := by
    rw [← withoutPadding_append h.pad_notMem k, heq, withoutPadding_append h'.pad_notMem]
  rw [hletters, List.append_cancel_left_eq] at heq
  simpa using congrArg List.length heq

theorem faithful_iff (htext : text ≠ []) : Faithful field text ↔ ¬Mispadded text := by
  constructor
  · rintro h ⟨front, bytes, k, hfront, hspells, hzero, hpad⟩
    obtain ⟨-, letters, k', hletters, hspells', hk'⟩ :=
      (h.accepts bytes).1 ((decodeBase64_eq_ok_iff htext).2 ⟨front, k, hfront, hspells⟩)
    obtain rfl := hspells.pad_unique hspells' (hfront.symm.trans hletters)
    exact hk'.elim hzero hpad
  · intro h
    have haccepts : ∀ bytes, decodeBase64 (.str text) field = .ok (some bytes) ↔
        bytes ≠ [] ∧ Spells text bytes := by
      intro bytes
      rw [decodeBase64_eq_ok_iff htext]
      constructor
      · rintro ⟨front, k, hfront, hspells⟩
        have hk : k = 0 ∨ k = padLength bytes := by
          by_contra hnot
          obtain ⟨hzero, hpad⟩ := not_or.1 hnot
          exact h ⟨front, bytes, k, hfront, hspells, hzero, hpad⟩
        refine ⟨?_, front, k, hfront, hspells, hk⟩
        -- no bytes have no letters and no padding
        rintro rfl
        obtain rfl : front = [] := List.map_eq_nil_iff.1 hspells
        obtain rfl : k = 0 := hk.elim id id
        exact htext hfront
      · rintro ⟨-, letters, k, hletters, hspells, -⟩
        exact ⟨letters, k, hletters, hspells⟩
    refine ⟨haccepts, fun hnone => ?_⟩
    rcases decodeBase64_cases htext with ⟨bytes, hok⟩ | herror
    · exact absurd ⟨bytes, (haccepts bytes).1 hok⟩ hnone
    · exact herror

/-- **Base64 in requests.** A text is taken exactly as the bytes it spells unless its `=` signs are
of a wrong number, and what is encoded decodes. -/
theorem decodeBase64_faithful_iff (field : JsString) :
    (∀ text, text ≠ [] → (Faithful field text ↔ ¬Mispadded text)) ∧
      ∀ bytes, bytes ≠ [] → decodeBase64 (.str (encodeBase64 bytes)) field = .ok (some bytes) := by
  refine ⟨fun text htext => faithful_iff htext, fun bytes hbytes => ?_⟩
  have hspells : SpellsUnpadded ((sextets bytes).map base64Letter) bytes := by
    rw [SpellsUnpadded, List.map_map]
    exact List.map_congr_left fun n hn => base64Digit_letter (sextets_lt bytes n hn)
  have hne : encodeBase64 bytes ≠ [] := by
    intro hnil
    have hletters := (List.append_eq_nil_iff.1 hnil).1
    exact hbytes (eq_nil_of_sextets (List.map_eq_nil_iff.1 hletters))
  exact (decodeBase64_eq_ok_iff hne).2 ⟨_, padLength bytes, rfl, hspells⟩

/-- A `=` alone is taken for no bytes. -/
theorem not_decodeBase64_faithful :
    ¬∀ text, text ≠ [] → Faithful (js "plaintext") text := by
  intro h
  have haccepts := (h (js "=") (by decide)).accepts []
  exact (haccepts.1 rfl).1 rfl

/-! ## Checksums -/

/-- `crc32cString(data)` -/
def crc32cString (data : List UInt8) : JsString := intText (Shared.Crc32c.crc32c data)

/-- `readProvidedCrc(value)` -/
def readProvidedCrc (value : JsValue) : Except Thrown (Option JsString) :=
  let text (value : JsValue) : Except Thrown (Option JsString) :=
    match toText value with
    | some text => .ok (some text)
    | none => .error (.error "Cannot convert object to primitive value")
  match value with
  | .undefined | .null => .ok none
  | .obj _ fields => text ((ownField fields (js "value")).getD value)
  | _ => text value

/-- `checkCrc(bytes, provided)` -/
def checkCrc (bytes : List UInt8) (provided : JsValue) : Except Thrown Bool := do
  match ← readProvidedCrc provided with
  | none => pure false
  | some text =>
      if text ≠ crc32cString bytes then
        throw (.kms .invalidArgument "Provided crc32c checksum does not match the data")
      else pure true

theorem checkCrc_eq_true_iff {bytes : List UInt8} {provided : JsValue} :
    checkCrc bytes provided = .ok true ↔ readProvidedCrc provided = .ok (some (crc32cString bytes)) := by
  rw [checkCrc]
  cases hread : readProvidedCrc provided with
  | error thrown => simp [bind, Except.bind]
  | ok text =>
      cases text with
      | none => simp [bind, Except.bind, pure, Except.pure]
      | some text =>
          by_cases h : text = crc32cString bytes <;>
            simp [bind, Except.bind, pure, Except.pure, throw, throwThe, MonadExceptOf.throw, h]

/-- **Damage is refused.** A checksum that verifies for the bytes verifies for no bytes that a burst of
32 bits at most has changed. -/
theorem checkCrc_damaged {bytes bytes' : List UInt8} {provided : JsValue}
    (hverified : checkCrc bytes provided = .ok true) (hdamaged : Shared.Crc32c.Damaged bytes bytes') :
    checkCrc bytes' provided =
      .error (.kms .invalidArgument "Provided crc32c checksum does not match the data") := by
  have htext : ∀ data, crc32cString data = decimal (Shared.Crc32c.castagnoliCrc data).toNat := by
    intro data
    rw [crc32cString, Shared.Crc32c.crc32c_eq, intText, if_neg (by omega), Int.toNat_natCast]
  have hne : crc32cString bytes ≠ crc32cString bytes' := by
    intro hsame
    rw [htext, htext] at hsame
    exact Shared.Crc32c.castagnoliCrc_ne hdamaged (BitVec.eq_of_toNat_eq (decimal_injective hsame))
  rw [checkCrc, checkCrc_eq_true_iff.1 hverified]
  exact if_pos hne

theorem checkCrc_damaged_sample :
    checkCrc [48, 50] (.obj none [(js "value", .str (crc32cString [49, 50]))]) =
      .error (.kms .invalidArgument "Provided crc32c checksum does not match the data") :=
  @checkCrc_damaged [49, 50] _ _ (by decide +kernel)
    ⟨[], Shared.Crc32c.byteBits 49, Shared.Crc32c.byteBits 48, Shared.Crc32c.byteBits 50, by decide,
      by decide, by decide, by decide, by decide⟩

end Kinglet.Kms
