import Kinglet.Armor.Decode
import Mathlib.Data.List.Flatten

/-!
# Url decoding inverts percent-encoding

What `urlDecode` and `urlDecodeUni` make of the percent-encoding of a well-formed string. An
encoding writes some code points as the escapes of their UTF-8 bytes and leaves the others as they
stand.

## Strategy

The decoder hands each run of escapes to a `TextDecoder` of its own, so the argument goes run by
run. `percentRun_append` reads the bytes of a run back, `decodeFatal_flatMap` decodes them, and
`decodePercent_skip` moves on to what follows. A `TextDecoder` drops a byte order mark at the front
of its input. An escaped U+FEFF at the start of a run is therefore lost, and `surviving` says which
code points remain. Nothing else is lost.
-/

namespace Kinglet.Armor

open Js

/-! ## Percent-encodings -/

/-- The byte order mark. -/
def byteOrderMark : ℕ := 0xFEFF

/-- A choice of the code points that are written as escapes. The two characters with a meaning of
their own in encoded text are among them. -/
structure Escaping where
  escapes : ℕ → Bool
  percent : escapes 37 = true
  plus : escapes 43 = true

/-- Every byte as an escape. -/
def Escaping.everyByte : Escaping := ⟨fun _ => true, rfl, rfl⟩

/-- What `encodeURIComponent` escapes. -/
def Escaping.uriComponent : Escaping :=
  ⟨fun point => !(decide (point < 128) && isUriUnescaped point), by decide, by decide⟩

/-- `%XX`. -/
def escapedByte (b : ℕ) : JsString := [unit '%', hexDigit (b / 16), hexDigit (b % 16)]

/-- The text of one code point. -/
def Escaping.write (escaping : Escaping) (point : ℕ) : JsString :=
  if escaping.escapes point then (encodePoint point).flatMap escapedByte
  else fromCodePoint point

/-- The percent-encoding of a string. -/
def percentEncode (escaping : Escaping) (text : JsString) : JsString :=
  (codePoints text).flatMap escaping.write

/-- Every escaped byte order mark stands right after another escape. -/
def MarksInsideRuns (escaping : Escaping) (points : List ℕ) : Prop :=
  ∀ before after : List ℕ, points = before ++ byteOrderMark :: after →
    escaping.escapes byteOrderMark = true →
      ∃ point, before.getLast? = some point ∧ escaping.escapes point = true

/-! ## Reading one run -/

theorem hexValue_hexDigit {n : ℕ} (hn : n < 16) : hexValue (hexDigit n) = some n := by
  interval_cases n <;> decide

theorem hexDigit_ne_u {n : ℕ} (hn : n < 16) :
    (hexDigit n = unit 'u' || hexDigit n = unit 'U') = false := by
  interval_cases n <;> decide

/-- The escapes of a list of bytes are read back up to the first text that is no escape. -/
theorem percentRun_append {bytes : List ℕ} (hbytes : ∀ b ∈ bytes, b < 256) {tail : JsString}
    (htail : percentRun tail = []) :
    percentRun (bytes.flatMap escapedByte ++ tail) = bytes := by
  induction bytes with
  | nil => exact htail
  | cons b bytes ih =>
    have hb : b < 256 := hbytes b List.mem_cons_self
    have hrest := ih fun c hc => hbytes c (List.mem_cons_of_mem b hc)
    have hhigh : hexValue (hexDigit (b / 16)) = some (b / 16) := hexValue_hexDigit (by omega)
    have hlow : hexValue (hexDigit (b % 16)) = some (b % 16) := hexValue_hexDigit (by omega)
    have hvalue : b / 16 * 16 + b % 16 = b := by omega
    change percentRun (37 :: hexDigit (b / 16) :: hexDigit (b % 16) ::
      (bytes.flatMap escapedByte ++ tail)) = b :: bytes
    rw [percentRun, hhigh, hlow]
    simp only [hvalue, hrest]

theorem length_flatMap_escapedByte (bytes : List ℕ) :
    (bytes.flatMap escapedByte).length = 3 * bytes.length := by
  induction bytes with
  | nil => rfl
  | cons b bytes ih =>
    rw [List.flatMap_cons, List.length_append, ih, List.length_cons]
    simp only [escapedByte, List.length_cons, List.length_nil]
    omega

theorem decodePercent_skip (unicode : Bool) (skipped tail : JsString) :
    decodePercent unicode skipped.length (skipped ++ tail) = decodePercent unicode 0 tail := by
  induction skipped with
  | nil => rfl
  | cons u skipped ih =>
    rw [List.cons_append, decodePercent, if_pos (by simp)]
    exact ih

/-- Without a byte order mark at the front. -/
def dropMark : List ℕ → List ℕ
  | point :: points => if point = byteOrderMark then points else point :: points
  | [] => []

theorem mapM_id_map_some (points : List ℕ) : (points.map some).mapM id = some points := by
  induction points with
  | nil => rfl
  | cons c points ih => simp [List.mapM_cons, ih]

/-- A run of whole code points is decoded, without its leading mark. -/
theorem decodeFatal_flatMap {points : List ℕ} (hpoints : ∀ c ∈ points, IsScalar c) :
    decodeFatal (points.flatMap encodePoint) =
      some ((dropMark points).flatMap fromCodePoint) := by
  have hread : ∀ rest : List ℕ, (∀ c ∈ rest, IsScalar c) →
      ((decodePoints none (rest.flatMap encodePoint)).mapM id).map
        (fun points => points.flatMap fromCodePoint) = some (rest.flatMap fromCodePoint) := by
    intro rest hrest
    rw [decodePoints_flatMap hrest, mapM_id_map_some]
    rfl
  by_cases hbom : points.head? = some 0xFEFF
  · cases points with
    | nil => simp at hbom
    | cons c rest =>
      obtain rfl : c = 0xFEFF := by simpa using hbom
      exact hread rest fun d hd => hpoints d (List.mem_cons_of_mem _ hd)
  · have hdrop : dropMark points = points := by
      cases points with
      | nil => rfl
      | cons c rest => exact if_neg fun h => hbom (by rw [h]; rfl)
    rw [decodeFatal, stripBom_flatMap hpoints hbom, hdrop]
    exact hread points hpoints

/-! ## The decoder -/

/-- Text that does not start with a percent sign starts no run. -/
theorem percentRun_of_head? {text : JsString} (h : text.head? ≠ some (unit '%')) :
    percentRun text = [] := by
  unfold percentRun
  split
  · exact absurd rfl h
  · rfl

/-- A run of escapes is decoded as a whole, in both modes. -/
theorem decodePercent_run (unicode : Bool) {bytes : List ℕ} (hbytes : ∀ b ∈ bytes, b < 256)
    (hne : bytes ≠ []) {text tail : JsString} (hdecode : decodeFatal bytes = some text)
    (htail : percentRun tail = []) :
    decodePercent unicode 0 (bytes.flatMap escapedByte ++ tail) =
      text ++ decodePercent unicode 0 tail := by
  obtain ⟨b, rest, rfl⟩ := List.exists_cons_of_ne_nil hne
  have hb : b < 256 := hbytes b List.mem_cons_self
  have hrun := percentRun_append hbytes htail
  have hlength := length_flatMap_escapedByte (b :: rest)
  obtain ⟨skipped, hskipped⟩ : ∃ skipped : JsString,
      (b :: rest).flatMap escapedByte = unit '%' :: skipped := ⟨_, rfl⟩
  have hfirst : skipped.head? = some (hexDigit (b / 16)) := by
    rw [List.flatMap_cons] at hskipped
    rw [← (List.cons.inj hskipped).2]
    rfl
  rw [hskipped, List.length_cons] at hlength
  rw [hskipped, List.cons_append] at hrun ⊢
  -- after the percent sign stands a digit, so the escape is no `%u`
  have hunicode : (if unicode then unicodeEscape (skipped ++ tail) else none) = none := by
    have hu := hexDigit_ne_u (n := b / 16) (by omega)
    cases skipped with
    | nil => simp at hfirst
    | cons u more =>
      obtain rfl : u = hexDigit (b / 16) := by simpa using hfirst
      split
      · rw [List.cons_append]
        unfold unicodeEscape
        split
        · rename_i heq
          obtain ⟨rfl, -⟩ := List.cons.inj heq
          exact if_neg (by rw [hu]; decide)
        · rfl
      · rfl
  have hskip : 3 * (b :: rest).length - 1 = skipped.length := by omega
  rw [decodePercent, if_neg (by decide), if_neg (by decide), if_neg (by simp)]
  simp only [hunicode, hrun, hdecode, hskip, decodePercent_skip]

/-- A code unit that is neither a percent nor a plus sign stands for itself. -/
theorem decodePercent_literal (unicode : Bool) {text : JsString} (hpercent : unit '%' ∉ text)
    (hplus : unit '+' ∉ text) (tail : JsString) :
    decodePercent unicode 0 (text ++ tail) = text ++ decodePercent unicode 0 tail := by
  induction text with
  | nil => rfl
  | cons u text ih =>
    rw [List.mem_cons, not_or] at hpercent hplus
    rw [List.cons_append, decodePercent, if_neg (by decide), if_neg fun h => hplus.1 h.symm,
      if_pos fun h => hpercent.1 h.symm, ih hpercent.2 hplus.2]
    rfl

/-- The code points left after decoding, given whether an escape stands before them. -/
def surviving (escaping : Escaping) : Bool → List ℕ → List ℕ
  | _, [] => []
  | inRun, point :: points =>
      if escaping.escapes point && !inRun && decide (point = byteOrderMark) then
        surviving escaping true points
      else point :: surviving escaping (escaping.escapes point) points

theorem surviving_run {escaping : Escaping} {run : List ℕ}
    (hrun : ∀ c ∈ run, escaping.escapes c = true) (points : List ℕ) :
    surviving escaping true (run ++ points) = run ++ surviving escaping true points := by
  induction run with
  | nil => rfl
  | cons c run ih =>
    rw [List.cons_append, surviving, hrun c List.mem_cons_self,
      if_neg (by simp), ih fun d hd => hrun d (List.mem_cons_of_mem c hd)]
    rfl

theorem surviving_dropMark {escaping : Escaping} {run : List ℕ}
    (hrun : ∀ c ∈ run, escaping.escapes c = true) (hne : run ≠ []) (points : List ℕ) :
    surviving escaping false (run ++ points) = dropMark run ++ surviving escaping true points := by
  obtain ⟨c, run, rfl⟩ := List.exists_cons_of_ne_nil hne
  have hrest := surviving_run (fun d hd => hrun d (List.mem_cons_of_mem c hd)) points
  rw [List.cons_append, surviving, hrun c List.mem_cons_self, hrest, dropMark]
  by_cases hmark : c = byteOrderMark
  · rw [if_pos (by simp [hmark]), if_pos hmark]
  · rw [if_neg (by simp [hmark]), if_neg hmark]
    rfl

/-- The units of an unescaped code point are neither percent nor plus signs. -/
theorem notMem_fromCodePoint {escaping : Escaping} {point : ℕ} (hpoint : IsScalar point)
    (hliteral : escaping.escapes point = false) {u : UInt16} (hescape : escaping.escapes u.toNat)
    (hascii : u.toNat < 0xD800) : u ∉ fromCodePoint point := by
  intro hmem
  unfold IsScalar at hpoint
  unfold fromCodePoint at hmem
  split at hmem
  · rename_i hsmall
    obtain rfl := List.mem_singleton.1 hmem
    have hvalue : point.toUInt16.toNat = point := by
      rw [Nat.toUInt16, UInt16.toNat_ofNat']
      omega
    rw [hvalue, hliteral] at hescape
    exact absurd hescape (by decide)
  · simp only [List.mem_cons, List.not_mem_nil, or_false] at hmem
    rcases hmem with rfl | rfl <;>
      (rw [Nat.toUInt16, UInt16.toNat_ofNat'] at hascii; omega)

/-- The escapes of a run are those of its bytes. -/
theorem flatMap_write_run {escaping : Escaping} {run : List ℕ}
    (hrun : ∀ c ∈ run, escaping.escapes c = true) :
    run.flatMap escaping.write = (run.flatMap encodePoint).flatMap escapedByte := by
  induction run with
  | nil => rfl
  | cons c run ih =>
    have hwrite : escaping.write c = (encodePoint c).flatMap escapedByte :=
      if_pos (hrun c List.mem_cons_self)
    rw [List.flatMap_cons, List.flatMap_cons, List.flatMap_append, hwrite,
      ih fun d hd => hrun d (List.mem_cons_of_mem c hd)]

theorem encodePoint_ne_nil (c : ℕ) : encodePoint c ≠ [] := by
  unfold encodePoint
  split
  · exact List.cons_ne_nil _ _
  · split
    · exact List.cons_ne_nil _ _
    · split <;> exact List.cons_ne_nil _ _

theorem flatMap_encodePoint_ne_nil {run : List ℕ} (hne : run ≠ []) :
    run.flatMap encodePoint ≠ [] := by
  obtain ⟨c, run, rfl⟩ := List.exists_cons_of_ne_nil hne
  rw [List.flatMap_cons]
  exact List.append_ne_nil_of_left_ne_nil (encodePoint_ne_nil c) _

/-- No run starts at an unescaped code point. -/
theorem percentRun_flatMap_write {escaping : Escaping} {points : List ℕ}
    (hpoints : ∀ c ∈ points, IsScalar c)
    (hliteral : ∀ c ∈ points.head?, escaping.escapes c = false) :
    percentRun (points.flatMap escaping.write) = [] := by
  refine percentRun_of_head? fun hhead => ?_
  cases points with
  | nil => simp at hhead
  | cons c points =>
    have hc : escaping.escapes c = false := hliteral c rfl
    have hpercent := notMem_fromCodePoint (hpoints c List.mem_cons_self) hc
      (u := unit '%') escaping.percent (by decide)
    have hwrite : escaping.write c = fromCodePoint c := by
      rw [Escaping.write, if_neg (by rw [hc]; decide)]
    have hne : fromCodePoint c ≠ [] := by
      unfold fromCodePoint
      split <;> exact List.cons_ne_nil _ _
    rw [List.flatMap_cons, hwrite, List.head?_append_of_ne_nil _ hne] at hhead
    exact hpercent (List.mem_of_mem_head? hhead)

theorem surviving_of_literal {escaping : Escaping} {points : List ℕ}
    (hliteral : ∀ c ∈ points.head?, escaping.escapes c = false) :
    surviving escaping true points = surviving escaping false points := by
  cases points with
  | nil => rfl
  | cons c points =>
    have hc : escaping.escapes c = false := hliteral c rfl
    simp only [surviving, hc, Bool.false_and]

/-- **What the decoder makes of an encoding**: the code points that survive. -/
theorem decodePercent_write (unicode : Bool) (escaping : Escaping) (points : List ℕ)
    (hpoints : ∀ c ∈ points, IsScalar c) :
    decodePercent unicode 0 (points.flatMap escaping.write) =
      (surviving escaping false points).flatMap fromCodePoint := by
  -- on the number of code points: a run of escapes is taken off as a whole
  induction hn : points.length using Nat.strong_induction_on generalizing points with
  | _ n ih =>
  cases points with
  | nil => rfl
  | cons c rest =>
    cases hc : escaping.escapes c with
    | false =>
      have hscalar := hpoints c List.mem_cons_self
      have hpercent := notMem_fromCodePoint hscalar hc (u := unit '%') escaping.percent
        (by decide)
      have hplus := notMem_fromCodePoint hscalar hc (u := unit '+') escaping.plus (by decide)
      have hrest := ih rest.length (by rw [← hn]; simp) rest
        (fun d hd => hpoints d (List.mem_cons_of_mem c hd)) rfl
      have hwrite : escaping.write c = fromCodePoint c := by
        rw [Escaping.write, if_neg (by rw [hc]; decide)]
      rw [List.flatMap_cons, hwrite, decodePercent_literal unicode hpercent hplus, hrest,
        surviving, hc, if_neg (by simp), List.flatMap_cons]
    | true =>
      obtain ⟨run, after, hsplit, hrun, hne, hafter⟩ : ∃ run after : List ℕ,
          c :: rest = run ++ after ∧ (∀ d ∈ run, escaping.escapes d = true) ∧ run ≠ [] ∧
            ∀ d ∈ after.head?, escaping.escapes d = false := by
        refine ⟨(c :: rest).takeWhile escaping.escapes, (c :: rest).dropWhile escaping.escapes,
          List.takeWhile_append_dropWhile.symm, fun d hd => List.mem_takeWhile_imp hd, ?_, ?_⟩
        · simp [hc]
        · intro d hd
          have hhead := List.head?_dropWhile_not escaping.escapes (c :: rest)
          rw [Option.mem_def.1 hd] at hhead
          simpa using hhead
      have hrunScalar : ∀ d ∈ run, IsScalar d := fun d hd =>
        hpoints d (hsplit ▸ List.mem_append_left after hd)
      have hafterScalar : ∀ d ∈ after, IsScalar d := fun d hd =>
        hpoints d (hsplit ▸ List.mem_append_right run hd)
      have hlength : after.length < n := by
        have hpos := List.length_pos_of_ne_nil hne
        have htotal := congrArg List.length hsplit
        rw [List.length_append] at htotal
        omega
      have hrest := ih after.length hlength after hafterScalar rfl
      have hbytes : ∀ b ∈ run.flatMap encodePoint, b < 256 := by
        intro b hb
        obtain ⟨d, hd, hbd⟩ := List.mem_flatMap.1 hb
        exact encodePoint_lt (hrunScalar d hd) b hbd
      have hnonempty : run.flatMap encodePoint ≠ [] := flatMap_encodePoint_ne_nil hne
      rw [hsplit, List.flatMap_append, flatMap_write_run hrun,
        decodePercent_run unicode hbytes hnonempty (decodeFatal_flatMap hrunScalar)
          (percentRun_flatMap_write hafterScalar hafter), hrest,
        surviving_dropMark hrun hne, surviving_of_literal hafter, List.flatMap_append]

/-! ## Nothing but marks is lost -/

theorem surviving_sublist (escaping : Escaping) (inRun : Bool) (points : List ℕ) :
    (surviving escaping inRun points).Sublist points := by
  induction points generalizing inRun with
  | nil => exact List.Sublist.slnil
  | cons c points ih =>
    rw [surviving]
    split
    · exact (ih true).cons c
    · exact (ih _).cons_cons c

/-- A sublist that spells the same text is the whole list. -/
theorem eq_of_flatMap_fromCodePoint {kept points : List ℕ} (hsub : kept.Sublist points)
    (htext : kept.flatMap fromCodePoint = points.flatMap fromCodePoint) : kept = points := by
  have hlength : ∀ c, 0 < (fromCodePoint c).length := fun c => by
    unfold fromCodePoint
    split <;> simp
  have hle : ∀ {kept points : List ℕ}, kept.Sublist points →
      (kept.flatMap fromCodePoint).length ≤ (points.flatMap fromCodePoint).length :=
    fun h => (h.flatMap fromCodePoint).length_le
  induction hsub with
  | slnil => rfl
  | cons c hsub ih =>
    have hshort := hle hsub
    rw [htext, List.flatMap_cons, List.length_append] at hshort
    have := hlength c
    omega
  | cons_cons c hsub ih =>
    rw [List.flatMap_cons, List.flatMap_cons] at htext
    rw [ih (List.append_cancel_left htext)]

/-- What stands before a later place: the last code point, or what stands before the first. -/
theorem getD_getLast?_cons (escaping : Escaping) (inRun : Bool) (c : ℕ) (before : List ℕ) :
    (((c :: before).getLast?.map escaping.escapes).getD inRun) =
      (before.getLast?.map escaping.escapes).getD (escaping.escapes c) := by
  cases before with
  | nil => rfl
  | cons d before => rw [List.getLast?_cons_cons, List.getLast?_cons]; rfl

/-- All code points survive when each escaped mark follows an escape. -/
theorem surviving_eq_iff (escaping : Escaping) (inRun : Bool) (points : List ℕ) :
    surviving escaping inRun points = points ↔
      ∀ before after : List ℕ, points = before ++ byteOrderMark :: after →
        escaping.escapes byteOrderMark = true →
          (before.getLast?.map escaping.escapes).getD inRun = true := by
  induction points generalizing inRun with
  | nil => exact iff_of_true rfl fun before after h => by simp at h
  | cons c points ih =>
    rw [surviving]
    by_cases hlost : escaping.escapes c && !inRun && decide (c = byteOrderMark)
    · rw [if_pos hlost]
      simp only [Bool.and_eq_true, decide_eq_true_eq, Bool.not_eq_true'] at hlost
      obtain ⟨⟨hescape, hfirst⟩, rfl⟩ := hlost
      refine iff_of_false (fun h => ?_) fun h => ?_
      · have hlength := (surviving_sublist escaping true points).length_le
        rw [h, List.length_cons] at hlength
        omega
      · have hrun := h [] points rfl hescape
        rw [List.getLast?_nil, Option.map_none, Option.getD_none, hfirst] at hrun
        exact absurd hrun (by decide)
    · rw [if_neg hlost, List.cons.injEq, and_iff_right rfl, ih]
      constructor
      · intro h before after hsplit hescape
        cases before with
        | nil =>
          obtain ⟨rfl, -⟩ := List.cons.inj hsplit
          simpa [hescape] using hlost
        | cons d before =>
          obtain ⟨rfl, htail⟩ := List.cons.inj hsplit
          rw [getD_getLast?_cons]
          exact h before after htail hescape
      · intro h before after hsplit hescape
        rw [← getD_getLast?_cons escaping inRun]
        exact h (c :: before) after (by rw [hsplit]; rfl) hescape

theorem surviving_eq_iff_marksInsideRuns (escaping : Escaping) (points : List ℕ) :
    surviving escaping false points = points ↔ MarksInsideRuns escaping points := by
  have hlast : ∀ before : List ℕ, (before.getLast?.map escaping.escapes).getD false = true ↔
      ∃ point, before.getLast? = some point ∧ escaping.escapes point = true := by
    intro before
    cases before.getLast? with
    | none => simp
    | some point => simp
  simp only [surviving_eq_iff, MarksInsideRuns, hlast]

/-- **Round trip of one decoder**: it gives back a well-formed string exactly when no run of
escapes starts with a byte order mark. -/
theorem decodePercent_percentEncode (unicode : Bool) (escaping : Escaping) {text : JsString}
    (hw : WellFormed text) :
    decodePercent unicode 0 (percentEncode escaping text) = text ↔
      MarksInsideRuns escaping (codePoints text) := by
  rw [percentEncode, decodePercent_write unicode escaping _ hw,
    ← surviving_eq_iff_marksInsideRuns]
  constructor
  · intro h
    refine eq_of_flatMap_fromCodePoint (surviving_sublist escaping false _) ?_
    rw [h, flatMap_fromCodePoint]
  · intro h
    rw [h, flatMap_fromCodePoint]

/-- Text without percent and plus signs is left as it is. -/
theorem decodePercent_plain (unicode : Bool) {text : JsString} (hpercent : unit '%' ∉ text)
    (hplus : unit '+' ∉ text) : decodePercent unicode 0 text = text := by
  have h := decodePercent_literal unicode hpercent hplus []
  rwa [List.append_nil, decodePercent, List.append_nil] at h

/-! ## Url decoding -/

/-- **Url decoding inverts encoding**, for every choice of the escaped code points, exactly when no
run of escapes starts with a byte order mark. Plain text is left as it is. -/
theorem urlDecode_percentEncode (escaping : Escaping) (text : JsString) (hw : WellFormed text) :
    ((urlDecode (percentEncode escaping text) = text ∧
        urlDecodeUni (percentEncode escaping text) = text) ↔
      MarksInsideRuns escaping (codePoints text)) ∧
    ∀ plain : JsString, unit '%' ∉ plain → unit '+' ∉ plain →
      urlDecode plain = plain ∧ urlDecodeUni plain = plain := by
  refine ⟨?_, fun plain hpercent hplus =>
    ⟨decodePercent_plain false hpercent hplus, decodePercent_plain true hpercent hplus⟩⟩
  rw [urlDecode, urlDecodeUni, decodePercent_percentEncode false escaping hw,
    decodePercent_percentEncode true escaping hw, and_self]

theorem urlDecode_percentEncode_mark :
    WellFormed (js "a" ++ [0xFEFF]) ∧
      ((urlDecode (percentEncode .everyByte (js "a" ++ [0xFEFF])) = js "a" ++ [0xFEFF] ∧
          urlDecodeUni (percentEncode .everyByte (js "a" ++ [0xFEFF])) = js "a" ++ [0xFEFF]) ↔
        MarksInsideRuns .everyByte (codePoints (js "a" ++ [0xFEFF]))) :=
  ⟨by decide, (urlDecode_percentEncode .everyByte (js "a" ++ [0xFEFF]) (by decide)).1⟩

/-- A leading byte order mark is lost with every byte escaped, and one after an unescaped letter
is lost as `encodeURIComponent` writes it. -/
theorem not_urlDecode_percentEncode :
    ¬ (∀ (escaping : Escaping) (text : JsString), WellFormed text →
        urlDecode (percentEncode escaping text) = text ∧
          urlDecodeUni (percentEncode escaping text) = text) ∧
      WellFormed [0xFEFF] ∧ percentEncode .everyByte [0xFEFF] = js "%EF%BB%BF" ∧
      urlDecode (js "%EF%BB%BF") = [] ∧ urlDecodeUni (js "%EF%BB%BF") = [] ∧
      percentEncode .uriComponent (js "a" ++ [0xFEFF]) = js "a%EF%BB%BF" ∧
      urlDecode (js "a%EF%BB%BF") = js "a" := by
  refine ⟨fun h => ?_, by decide, by decide, by decide, by decide, by decide, by decide⟩
  have hlost := (h .everyByte [0xFEFF] (by decide)).1
  exact absurd hlost (by decide)

end Kinglet.Armor
