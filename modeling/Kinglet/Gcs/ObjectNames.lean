import Kinglet.Armor.UrlDecoding
import Kinglet.Gcs.ObjectRoutes

/-!
# Names in urls

What becomes of a name that `encodeURIComponent` wrote, in the query and in the path of a url: both read it
back. A second decoding leaves it alone exactly when it has no percent sign
(`decodeURIComponent_eq_self_iff`), since an escape is longer than what it is decoded to.
-/

namespace Kinglet.Gcs

open Js Library Gateway Armor

/-! ## Escaped text -/

variable {bytes : List ℕ} {text name : JsString}

/-- What `decodeURIComponent` reads for a byte. -/
def pieceOf (b : ℕ) : UriPiece :=
  if b < 128 ∧ isUriUnescaped b = true then .code b.toUInt16 else .byte b

theorem escapeByte_test : ((List.range 256).all fun b =>
    ((escapeByte b).all fun u => isPathCharacter u && !(js "/&=+").contains u) &&
      [js ".", js "%2e", js "..", js ".%2e", js "%2e.", js "%2e%2e"].all fun t =>
        !startsWith t (lowered (escapeByte b)) || b == 46) = true := by
  decide +kernel

/-- A byte is written in characters of a segment, and as a dot only if it is one. -/
theorem escapeByte_spec {b : ℕ} (hb : b < 256) :
    (∀ u ∈ escapeByte b, isPathCharacter u = true ∧ u ∉ js "/&=+") ∧
      ∀ t ∈ [js ".", js "%2e", js "..", js ".%2e", js "%2e.", js "%2e%2e"],
        startsWith t (lowered (escapeByte b)) = true → b = 46 := by
  have htest := List.all_eq_true.1 escapeByte_test b (List.mem_range.2 hb)
  obtain ⟨hunits, hdots⟩ := Bool.and_eq_true_iff.1 htest
  refine ⟨fun u hu => ?_, fun t ht hstarts => ?_⟩
  · obtain ⟨hpath, hplain⟩ := Bool.and_eq_true_iff.1 (List.all_eq_true.1 hunits u hu)
    rw [Bool.not_eq_true', List.contains_eq_mem, decide_eq_false_iff_not] at hplain
    exact ⟨hpath, hplain⟩
  · have hdot := List.all_eq_true.1 hdots t ht
    rw [hstarts, Bool.not_true, Bool.false_or] at hdot
    exact beq_iff_eq.1 hdot

theorem mem_escaped (hbytes : ∀ b ∈ bytes, b < 256) {u : UInt16} (hu : u ∈ bytes.flatMap escapeByte) :
    isPathCharacter u = true ∧ u ∉ js "/&=+" := by
  obtain ⟨b, hb, hu⟩ := List.mem_flatMap.1 hu
  exact (escapeByte_spec (hbytes b hb)).1 u hu

theorem escapeByte_cases {b : ℕ} (hb : b < 256) :
    (b < 128 ∧ isUriUnescaped b = true ∧ escapeByte b = [b.toUInt16] ∧ b.toUInt16 ≠ 37 ∧
      b.toUInt16.toNat = b) ∨
    (¬(b < 128 ∧ isUriUnescaped b = true) ∧
      escapeByte b = [37, hexDigit (b / 16), hexDigit (b % 16)]) := by
  by_cases h : b < 128 ∧ isUriUnescaped b = true
  · have hvalue : b.toUInt16.toNat = b := by
      rw [Nat.toUInt16, UInt16.toNat_ofNat']
      omega
    refine .inl ⟨h.1, h.2, if_pos h, ?_, hvalue⟩
    intro heq
    obtain rfl : b = 37 := hvalue.symm.trans (congrArg UInt16.toNat heq)
    exact absurd h.2 (by decide)
  · exact .inr ⟨h, if_neg h⟩

theorem percentDecode_cons {u : UInt16} (hu : u ≠ 37) (rest : JsString) :
    percentDecode (u :: rest) = u.toNat :: percentDecode rest := by
  rw [percentDecode]
  rintro a b tail rfl
  exact absurd rfl hu

theorem percentDecode_escaped (hbytes : ∀ b ∈ bytes, b < 256) :
    percentDecode (bytes.flatMap escapeByte) = bytes := by
  induction bytes with
  | nil => rfl
  | cons b bytes ih =>
    obtain ⟨hb, hbytes⟩ := List.forall_mem_cons.1 hbytes
    rw [List.flatMap_cons]
    rcases escapeByte_cases hb with ⟨-, -, hplain, hne, hvalue⟩ | ⟨-, hescaped⟩
    · rw [hplain, List.singleton_append, percentDecode_cons hne, hvalue, ih hbytes]
    · rw [hescaped]
      change percentDecode (37 :: hexDigit (b / 16) :: hexDigit (b % 16) :: bytes.flatMap escapeByte) = _
      rw [percentDecode, hexValue_hexDigit (by omega), hexValue_hexDigit (by omega), ih hbytes]
      exact congrArg (· :: bytes) (by omega)

theorem uriPieces_cons {u : UInt16} (hu : u ≠ 37) (rest : JsString) :
    uriPieces (u :: rest) = (uriPieces rest).map (.code u :: ·) := by
  rw [uriPieces, if_neg hu]
  rintro a b tail rfl
  exact absurd rfl hu

theorem uriPieces_escaped (hbytes : ∀ b ∈ bytes, b < 256) :
    uriPieces (bytes.flatMap escapeByte) = some (bytes.map pieceOf) := by
  induction bytes with
  | nil => rfl
  | cons b bytes ih =>
    obtain ⟨hb, hbytes⟩ := List.forall_mem_cons.1 hbytes
    rw [List.flatMap_cons]
    rcases escapeByte_cases hb with ⟨hlow, hkept, hplain, hne, -⟩ | ⟨hnot, hescaped⟩
    · rw [hplain, List.singleton_append, uriPieces_cons hne, ih hbytes, List.map_cons, pieceOf,
        if_pos ⟨hlow, hkept⟩]
      rfl
    · rw [hescaped]
      change uriPieces (37 :: hexDigit (b / 16) :: hexDigit (b % 16) :: bytes.flatMap escapeByte) = _
      rw [uriPieces, hexValue_hexDigit (by omega), hexValue_hexDigit (by omega), ih hbytes,
        List.map_cons, pieceOf, if_neg hnot]
      exact congrArg (fun c => some (UriPiece.byte c :: bytes.map pieceOf)) (by omega)

theorem decodePieces_bytes (run : List ℕ) (pieces : List UriPiece) :
    decodePieces run (bytes.map UriPiece.byte ++ pieces) = decodePieces (run ++ bytes) pieces := by
  induction bytes generalizing run with
  | nil => rw [List.append_nil, List.map_nil, List.nil_append]
  | cons b bytes ih =>
    rw [List.map_cons, List.cons_append, decodePieces, ih, List.append_assoc]
    rfl

theorem encodePoint_ge {c : ℕ} (hc : 128 ≤ c) : ∀ b ∈ encodePoint c, 128 ≤ b := by
  intro b hb
  unfold encodePoint at hb
  split at hb
  · omega
  · split at hb
    · simp only [List.mem_cons, List.not_mem_nil, or_false] at hb
      omega
    · split at hb <;> simp only [List.mem_cons, List.not_mem_nil, or_false] at hb <;> omega

theorem decodeRun_points {points : List ℕ} (hpoints : ∀ c ∈ points, IsScalar c) :
    decodePieces.decodeRun (points.flatMap encodePoint) = some (points.flatMap fromCodePoint) := by
  rw [decodePieces.decodeRun, decodePoints_flatMap hpoints, mapM_id_map_some]
  rfl

/-- The code points of which the bytes are read, after those of which the bytes were read. -/
theorem decodePieces_points (run : List ℕ) {points : List ℕ} (hrun : ∀ c ∈ run, IsScalar c)
    (hpoints : ∀ c ∈ points, IsScalar c) :
    decodePieces (run.flatMap encodePoint) ((points.flatMap encodePoint).map pieceOf) =
      some ((run ++ points).flatMap fromCodePoint) := by
  induction points generalizing run with
  | nil => rw [List.append_nil, List.flatMap_nil, List.map_nil, decodePieces, decodeRun_points hrun]
  | cons c points ih =>
    obtain ⟨hc, hpoints⟩ := List.forall_mem_cons.1 hpoints
    rw [List.flatMap_cons, List.map_append]
    by_cases hkept : c < 128 ∧ isUriUnescaped c = true
    · have hcode : fromCodePoint c = [c.toUInt16] := if_pos (by omega)
      have hrest := ih [] (fun d hd => absurd hd List.not_mem_nil) hpoints
      rw [show encodePoint c = [c] from if_pos hkept.1, List.map_singleton, pieceOf, if_pos hkept,
        List.singleton_append, decodePieces, decodeRun_points hrun]
      rw [List.flatMap_nil, List.nil_append] at hrest
      rw [hrest, List.flatMap_append, List.flatMap_cons, hcode]
      rfl
    · have hescaped : (encodePoint c).map pieceOf = (encodePoint c).map UriPiece.byte := by
        refine List.map_congr_left fun b hb => if_neg ?_
        by_cases hlow : c < 128
        · rw [encodePoint, if_pos hlow] at hb
          rwa [List.mem_singleton.1 hb]
        · intro hsmall
          have hlarge := encodePoint_ge (by omega) b hb
          omega
      rw [hescaped, decodePieces_bytes, ← List.flatMap_singleton encodePoint, ← List.flatMap_append,
        ih _ ?_ hpoints, List.append_assoc]
      · rfl
      · intro d hd
        rcases List.mem_append.1 hd with hd | hd
        · exact hrun d hd
        · rwa [List.mem_singleton.1 hd]

/-- **`decodeURIComponent` inverts `encodeURIComponent`.** -/
theorem decode_encodeURIComponent (h : encodeURIComponent name = some text) :
    decodeURIComponent text = some name := by
  have hw : WellFormed name := by
    by_contra hw
    rw [encodeURIComponent, if_neg hw] at h
    cases h
  rw [encodeURIComponent, if_pos hw] at h
  obtain rfl := Option.some.inj h
  rw [decodeURIComponent, uriPieces_escaped (encode_lt name), encode_of_wellFormed hw]
  have hpieces := decodePieces_points [] (fun c hc => absurd hc List.not_mem_nil) hw
  rw [List.flatMap_nil, List.nil_append, flatMap_fromCodePoint] at hpieces
  exact hpieces

/-- A query has the name whose encoding it has. -/
theorem queryText_encoded (h : encodeURIComponent name = some text) : queryText text = name := by
  have hw : WellFormed name := by
    by_contra hw
    rw [encodeURIComponent, if_neg hw] at h
    cases h
  rw [encodeURIComponent, if_pos hw] at h
  obtain rfl := Option.some.inj h
  have hplus : ((encode name).flatMap escapeByte).map (fun u => if u = unit '+' then 32 else u) =
      (encode name).flatMap escapeByte := by
    refine (List.map_congr_left fun u hu => if_neg ?_).trans (List.map_id _)
    rintro rfl
    exact (mem_escaped (encode_lt name) hu).2 (by decide)
  rw [queryText, hplus, percentDecode_escaped (encode_lt name), encode_of_wellFormed hw,
    decodePoints_flatMap hw, List.flatMap_map]
  exact flatMap_fromCodePoint name

/-! ## Texts that decode to themselves -/

/-- A sequence that was begun has room for one code unit. -/
def slack : Option Pending → ℕ
  | none => 0
  | some _ => 1

/-- Decoding yields at most as many code units as there are bytes. -/
theorem length_decodePoints_le (pending : Option Pending) (bytes : List ℕ) :
    ((decodePoints pending bytes).flatMap fun point => fromCodePoint (point.getD 0xFFFD)).length ≤
      bytes.length + slack pending := by
  have hbad : (fromCodePoint 0xFFFD).length = 1 := rfl
  have hpoint (c : ℕ) : (fromCodePoint c).length ≤ 2 := by
    unfold fromCodePoint
    split <;> simp
  have hlead {b c : ℕ} (h : lead b = .point c) : (fromCodePoint c).length = 1 := by
    unfold lead at h
    split_ifs at h
    obtain rfl := Lead.point.inj h
    rw [fromCodePoint, if_pos (by omega)]
    rfl
  induction pending, bytes using decodePoints.induct with
  | case1 => exact Nat.le_refl _
  | case2 => exact Nat.le_refl _
  | case3 b bytes c h ih =>
    have hc := hlead h
    simp only [decodePoints, h, List.flatMap_cons, List.length_append, Option.getD_some, List.length_cons,
      slack] at ih ⊢
    omega
  | case4 b bytes p h ih =>
    simp only [decodePoints, h, List.length_cons, slack] at ih ⊢
    omega
  | case5 b bytes h ih =>
    simp only [decodePoints, h, List.flatMap_cons, List.length_append, Option.getD_none, hbad,
      List.length_cons, slack] at ih ⊢
    omega
  | case6 p b bytes hrange hlast ih =>
    have hc := hpoint (p.point * 64 + (b - 0x80))
    simp only [decodePoints, if_pos hrange, if_pos hlast, List.flatMap_cons, List.length_append,
      Option.getD_some, List.length_cons, slack] at ih ⊢
    omega
  | case7 p b bytes hrange c hlast ih =>
    simp only [decodePoints, if_pos hrange, if_neg hlast, List.length_cons, slack] at ih ⊢
    exact Nat.le_succ_of_le ih
  | case8 p b bytes hrange c h ih =>
    have hc := hlead h
    simp only [decodePoints, if_neg hrange, h, List.flatMap_cons, List.length_append, Option.getD_some,
      Option.getD_none, hbad, List.length_cons, slack] at ih ⊢
    omega
  | case9 p b bytes hrange q h ih =>
    simp only [decodePoints, if_neg hrange, h, List.flatMap_cons, List.length_append, Option.getD_none,
      hbad, List.length_cons, slack] at ih ⊢
    omega
  | case10 p b bytes hrange h ih =>
    simp only [decodePoints, if_neg hrange, h, List.flatMap_cons, List.length_append, Option.getD_none,
      hbad, List.length_cons, slack] at ih ⊢
    omega

theorem length_decodeRun_le (h : decodePieces.decodeRun bytes = some text) :
    text.length ≤ bytes.length := by
  obtain ⟨points, hpoints, rfl⟩ := Option.map_eq_some_iff.1 h
  have hsome : decodePoints none bytes = points.map some := by
    rw [← List.forall₂_eq_eq_eq, List.forall₂_map_right_iff]
    exact mapM_eq_some.1 hpoints
  have hle := length_decodePoints_le none bytes
  rw [hsome, List.flatMap_map] at hle
  exact hle

theorem length_decodePieces_le {pieces : List UriPiece}
    (h : decodePieces bytes pieces = some text) : text.length ≤ bytes.length + pieces.length := by
  induction pieces generalizing bytes text with
  | nil => exact length_decodeRun_le h
  | cons piece pieces ih =>
    cases piece with
    | byte b =>
      have hle := ih h
      rw [List.length_append, List.length_singleton] at hle
      rw [List.length_cons]
      omega
    | code u =>
      obtain ⟨front, hfront, h⟩ := Option.bind_eq_some_iff.1 h
      obtain ⟨back, hback, h⟩ := Option.bind_eq_some_iff.1 h
      obtain rfl := Option.some.inj h
      have hrun := length_decodeRun_le hfront
      have hrest := ih hback
      rw [List.length_append, List.length_cons, List.length_cons]
      rw [List.length_nil] at hrest
      omega

/-- An escape is three code units long, and one piece. -/
theorem length_uriPieces {pieces : List UriPiece} (h : uriPieces text = some pieces) :
    pieces.length ≤ text.length ∧ (unit '%' ∈ text → pieces.length < text.length) := by
  induction text using uriPieces.induct generalizing pieces with
  | case1 =>
    obtain rfl := Option.some.inj h
    exact ⟨Nat.le_refl _, fun hmem => absurd hmem List.not_mem_nil⟩
  | case2 a b rest ih =>
    rw [uriPieces] at h
    obtain ⟨high, -, h⟩ := Option.bind_eq_some_iff.1 h
    obtain ⟨low, -, h⟩ := Option.bind_eq_some_iff.1 h
    obtain ⟨more, hmore, h⟩ := Option.bind_eq_some_iff.1 h
    obtain rfl := Option.some.inj h
    have hle := (ih hmore).1
    simp only [List.length_cons]
    omega
  | case3 rest hshort =>
    rw [uriPieces, if_pos rfl] at h
    · cases h
    · exact hshort
  | case4 u rest _ hu ih =>
    rw [uriPieces_cons hu] at h
    obtain ⟨more, hmore, rfl⟩ := Option.map_eq_some_iff.1 h
    obtain ⟨hle, hlt⟩ := ih hmore
    rw [List.length_cons, List.length_cons, List.mem_cons]
    exact ⟨Nat.succ_le_succ hle, fun hmem =>
      Nat.succ_lt_succ (hlt (hmem.resolve_left fun heq => hu heq.symm))⟩

/-- **A text decodes to itself exactly when it has no percent sign.** -/
theorem decodeURIComponent_eq_self_iff :
    decodeURIComponent text = some text ↔ unit '%' ∉ text := by
  constructor
  · intro h hmem
    obtain ⟨pieces, hpieces, h⟩ := Option.bind_eq_some_iff.1 h
    have hlt := (length_uriPieces hpieces).2 hmem
    have hle := length_decodePieces_le h
    rw [List.length_nil, Nat.zero_add] at hle
    exact absurd (Nat.lt_of_le_of_lt hle hlt) (Nat.lt_irrefl _)
  · intro h
    have hdecode : ∀ s : JsString, unit '%' ∉ s → ∃ pieces, uriPieces s = some pieces ∧
        decodePieces [] pieces = some s := by
      intro s hs
      induction s with
      | nil => exact ⟨[], rfl, rfl⟩
      | cons u s ih =>
        rw [List.mem_cons, not_or] at hs
        obtain ⟨pieces, hpieces, hrest⟩ := ih hs.2
        refine ⟨.code u :: pieces, ?_, ?_⟩
        · rw [uriPieces_cons (Ne.symm hs.1), hpieces]
          rfl
        · rw [decodePieces, hrest]
          rfl
    obtain ⟨pieces, hpieces, hrest⟩ := hdecode text h
    rw [decodeURIComponent, hpieces]
    exact hrest

end Kinglet.Gcs
