import Kinglet.Armor.Request
import Kinglet.Js.Separators

/-!
# Canonical addresses

`canonicalizeIp` writes an address in one way of many. What it writes is read back as the same address, so
that two texts of IPv6 addresses are written the same exactly when they are the same address. The
formatter writes the longest run of zero groups as `::`; that it is a run of zeros is all that the parser
needs.
-/

namespace Kinglet.Armor

open Js

/-! ## Hexadecimal text -/

theorem hexValue_digitChar : ∀ d < 16, hexValue (unit d.digitChar) = some d := by decide

theorem natText_of_le {n : ℕ} (h : 16 ≤ n) :
    natText 16 n = natText 16 (n / 16) ++ [unit (n % 16).digitChar] := by
  simp only [natText, Nat.toDigits_of_base_le (by decide : 1 < 16) h, List.map_append, List.map_cons,
    List.map_nil]

/-- The digits of a number, and what they make again. -/
theorem exists_hexDigits (n : ℕ) : ∃ digits, (natText 16 n).mapM hexValue = some digits ∧
    digits.foldl (fun n d => 16 * n + d) 0 = n := by
  induction n using Nat.strong_induction_on with
  | _ n ih =>
    by_cases h : n < 16
    · refine ⟨[n], ?_, by simp⟩
      rw [natText, Nat.toDigits_of_lt_base h]
      simp [hexValue_digitChar n h]
    · obtain ⟨digits, hdigits, hvalue⟩ := ih (n / 16) (by omega)
      have hlast : hexValue (unit (n % 16).digitChar) = some (n % 16) :=
        hexValue_digitChar _ (Nat.mod_lt _ (by decide))
      refine ⟨digits ++ [n % 16], ?_, ?_⟩
      · rw [natText_of_le (by omega), List.mapM_append, hdigits]
        simp [hlast]
      · rw [List.foldl_append, hvalue]
        simp only [List.foldl_cons, List.foldl_nil]
        omega

theorem natText_ne_nil (n : ℕ) : natText 16 n ≠ [] := by
  simp [natText, Nat.toDigits_ne_nil]

theorem parseHexGroup_natText {n : ℕ} (h : n < 2 ^ 16) : parseHexGroup (natText 16 n) = some n := by
  obtain ⟨digits, hdigits, hvalue⟩ := exists_hexDigits n
  have hlength : digits.length = (natText 16 n).length := (mapM_eq_some.1 hdigits).length_eq.symm
  have hlong : (natText 16 n).length ≤ 4 := by
    rw [natText, List.length_map]
    exact (Nat.length_toDigits_le_iff (by decide) (by decide)).2 (by omega)
  have hne : digits ≠ [] := by
    intro hnil
    rw [hnil, List.length_nil, eq_comm, List.length_eq_zero_iff] at hlength
    exact natText_ne_nil n hlength
  rw [parseHexGroup, hdigits]
  have hfits : ¬(digits = [] || 4 < digits.length) = true := by
    simp only [Bool.or_eq_true, decide_eq_true_eq, not_or]
    exact ⟨hne, by omega⟩
  simp only [Option.bind_eq_bind, Option.bind_some, if_neg hfits, hvalue]
  rfl

/-! ## Texts of groups -/

/-- The parts are groups. -/
def ReadAs (parts : List JsString) (groups : List ℕ) : Prop :=
  List.Forall₂ (fun part g => parseHexGroup part = some g) parts groups

variable {parts left right : List JsString} {groups front back : List ℕ} {u : UInt16}

theorem readAs_natText (hlt : ∀ g ∈ groups, g < 2 ^ 16) : ReadAs (groups.map (natText 16)) groups := by
  rw [ReadAs, List.forall₂_map_left_iff, List.forall₂_same]
  exact fun g hg => parseHexGroup_natText (hlt g hg)

/-- A group has hexadecimal digits, and at least one. -/
theorem digits_of_parseHexGroup {part : JsString} {g : ℕ} (h : parseHexGroup part = some g) :
    part ≠ [] ∧ ∀ u ∈ part, (hexValue u).isSome := by
  obtain ⟨digits, hdigits, h⟩ := Option.bind_eq_some_iff.1 h
  split at h
  · cases h
  · rename_i hfits
    refine ⟨?_, fun u hu => ?_⟩
    · rintro rfl
      obtain rfl := List.forall₂_nil_left_iff.1 (mapM_eq_some.1 hdigits)
      exact hfits rfl
    · obtain ⟨d, -, hd⟩ := (exists_of_forall₂ (mapM_eq_some.1 hdigits)).1 u hu
      rw [hd]
      rfl

theorem ReadAs.part (h : ReadAs parts groups) :
    ∀ part ∈ parts, (unit ':' ∉ part ∧ part ≠ []) ∧ ∀ u ∈ part, (hexValue u).isSome := by
  intro part hpart
  obtain ⟨g, -, hg⟩ := (exists_of_forall₂ h).1 part hpart
  obtain ⟨hne, hunits⟩ := digits_of_parseHexGroup hg
  exact ⟨⟨fun hcolon => absurd (hunits _ hcolon) (by decide), hne⟩, hunits⟩

theorem ReadAs.mem (h : ReadAs parts groups) (hu : u ∈ join (js ":") parts) :
    u = unit ':' ∨ (hexValue u).isSome := by
  rcases mem_join hu with hcolon | ⟨part, hpart, hu⟩
  · exact .inl (List.mem_singleton.1 hcolon)
  · exact .inr ((h.part part hpart).2 u hu)

theorem ReadAs.spaced (h : ReadAs parts groups) : Spaced (unit ':') (join (js ":") parts) :=
  (spaced_join fun part hpart => (h.part part hpart).1).1

/-- The parts of one side of a `::`. -/
theorem ReadAs.side (h : ReadAs parts groups) :
    (if join (js ":") parts = [] then [] else splitUnit (unit ':') (join (js ":") parts)) = parts := by
  by_cases hnil : parts = []
  · subst hnil
    rfl
  · have hne : join (js ":") parts ≠ [] :=
      (spaced_join fun part hpart => (h.part part hpart).1).2 hnil
    rw [if_neg hne]
    exact splitUnit_join (fun part hpart => (h.part part hpart).1.1) hnil

theorem ReadAs.any_nil (h : ReadAs parts groups) : (parts.any (· = [])) = false := by
  rw [Bool.eq_false_iff]
  intro hany
  obtain ⟨part, hpart, hnil⟩ := List.any_eq_true.1 hany
  exact (h.part part hpart).1.2 (of_decide_eq_true hnil)

theorem ReadAs.parse (h : ReadAs parts groups) (hlength : groups.length = 8) :
    parseHexGroups parts = some groups := by
  have hread : parts.mapM parseHexGroup = some groups := mapM_eq_some.2 h
  simp [parseHexGroups, hread, hlength]

theorem ReadAs.append (h : ReadAs left front) (h' : ReadAs right back) :
    ReadAs (left ++ right) (front ++ back) := List.rel_append h h'

theorem readAs_zeros (n : ℕ) : ReadAs (List.replicate n (js "0")) (List.replicate n 0) := by
  have hzero : (List.replicate n 0).map (natText 16) = List.replicate n (js "0") := by
    rw [List.map_replicate]
    rfl
  rw [← hzero]
  refine readAs_natText fun g hg => ?_
  obtain ⟨-, rfl⟩ := List.mem_replicate.1 hg
  decide

theorem parseIpv6Plain_full (h : ReadAs parts groups) (hlength : groups.length = 8) :
    parseIpv6Plain (join (js ":") parts) = some groups := by
  have hne : parts ≠ [] := by
    rintro rfl
    obtain rfl := List.forall₂_nil_left_iff.1 h
    cases hlength
  have hsplit : splitUnit (unit ':') (join (js ":") parts) = parts :=
    splitUnit_join (fun part hpart => (h.part part hpart).1.1) hne
  have htriple : includes (join (js ":") parts) (js ":::") = false :=
    not_includes_triple_of_noPair h.spaced.noPair
  rw [parseIpv6Plain, htriple, splitPair_of_noPair h.spaced.noPair, hsplit]
  exact h.parse hlength

theorem parseIpv6Plain_compressed (h : ReadAs left front) (h' : ReadAs right back) {n : ℕ} (hn : 0 < n)
    (hlength : front.length + n + back.length = 8) :
    parseIpv6Plain (join (js ":") left ++ js "::" ++ join (js ":") right) =
      some (front ++ List.replicate n 0 ++ back) := by
  have htext : join (js ":") left ++ js "::" ++ join (js ":") right =
      join (js ":") left ++ unit ':' :: unit ':' :: join (js ":") right := by
    rw [List.append_assoc]
    rfl
  have htriple : includes (join (js ":") left ++ unit ':' :: unit ':' :: join (js ":") right)
      (js ":::") = false :=
    not_includes_triple h.spaced.noPair h.spaced.back h'.spaced.noPair h'.spaced.front
  have hmissing : ((8 : ℤ) - left.length - right.length) = n := by
    rw [h.length_eq, h'.length_eq]
    omega
  rw [htext, parseIpv6Plain, htriple, splitPair_append h.spaced.noPair h.spaced.back,
    splitPair_of_noPair h'.spaced.noPair]
  simp only [Bool.false_eq_true, if_false, h.side, h'.side, h.any_nil, h'.any_nil, Bool.or_self, hmissing]
  rw [if_neg (by omega), Int.toNat_natCast]
  refine ((h.append (readAs_zeros n)).append h').parse ?_
  simp only [List.length_append, List.length_replicate]
  exact hlength

/-- An address has no brackets, no zone and no white space. -/
def AddressUnit (u : UInt16) : Prop := u = unit ':' ∨ u = unit '.' ∨ (hexValue u).isSome

theorem strip_of_forall {text : JsString} (h : ∀ u ∈ text, AddressUnit u) :
    stripZone (stripBrackets text) = text := by
  have hbracket : startsWith text (js "[") = false := by
    cases text with
    | nil => rfl
    | cons u text =>
      have hne : unit '[' ≠ u := by
        rintro rfl
        exact absurd (h _ List.mem_cons_self) (by simp [AddressUnit]; decide)
      have hjs : js "[" = [unit '['] := rfl
      simp [startsWith, hjs, List.isPrefixOf, hne]
  rw [stripBrackets, hbracket]
  refine List.takeWhile_eq_self_iff.2 fun u hu => ?_
  rw [decide_eq_true_eq]
  rintro rfl
  exact absurd (h _ hu) (by simp [AddressUnit]; decide)

/-! ## The longest run of zeros -/

/-- Zeros that start at a place among the groups. -/
def ZeroRun (groups : List ℕ) (run : ℕ × ℕ) : Prop :=
  ∃ front back, groups = front ++ List.replicate run.2 0 ++ back ∧ front.length = run.1

theorem ZeroRun.append {run : ℕ × ℕ} (h : ZeroRun groups run) (more : List ℕ) :
    ZeroRun (groups ++ more) run := by
  obtain ⟨front, back, rfl, hfront⟩ := h
  exact ⟨front, back ++ more, List.append_assoc .., hfront⟩

/-- The zeros with which the groups end, from `start` on if there are some. -/
def ZeroTail (groups : List ℕ) (start length : ℕ) : Prop :=
  ∃ front, groups = front ++ List.replicate length 0 ∧ (0 < length → front.length = start)

variable {start length : ℕ}

theorem ZeroTail.better {start length : ℕ} {best : ℕ × ℕ} (h : ZeroTail groups start length)
    (hbest : ZeroRun groups best) :
    ZeroRun groups (if best.2 < length then (start, length) else best) := by
  split
  · rename_i hlonger
    obtain ⟨front, rfl, hfront⟩ := h
    exact ⟨front, [], (List.append_nil _).symm, hfront (by omega)⟩
  · exact hbest

theorem zeroRun_longestZeroRun {groups done : List ℕ} {start length : ℕ} {best : ℕ × ℕ}
    (hbest : ZeroRun done best) (htail : ZeroTail done start length) :
    ZeroRun (done ++ groups) (longestZeroRun done.length start length best groups) := by
  induction groups generalizing done start length best with
  | nil =>
    rw [List.append_nil]
    exact htail.better hbest
  | cons g groups ih =>
    have hnext : done ++ g :: groups = (done ++ [g]) ++ groups := by simp
    have hindex : done.length + 1 = (done ++ [g]).length := by simp
    rw [longestZeroRun, hnext, hindex]
    split
    · rename_i hzero
      subst hzero
      obtain ⟨front, rfl, hfront⟩ := htail
      refine ih (hbest.append _) ⟨front, ?_, fun _ => ?_⟩
      · rw [List.append_assoc, ← List.replicate_succ']
      · split
        · rename_i hlength
          simp [hlength]
        · exact hfront (by omega)
    · exact ih ((htail.better hbest).append _) ⟨done ++ [g], by simp, fun h => absurd h (by omega)⟩

/-! ## Addresses in IPv4 -/

/-- Four numbers with dots between them. -/
def dotted (octets : ℕ × ℕ × ℕ × ℕ) : JsString :=
  join (js ".") ([octets.1, octets.2.1, octets.2.2.1, octets.2.2.2].map decimal)

def IsIpv4 (octets : ℕ × ℕ × ℕ × ℕ) : Prop :=
  octets.1 < 256 ∧ octets.2.1 < 256 ∧ octets.2.2.1 < 256 ∧ octets.2.2.2 < 256

variable {octets : ℕ × ℕ × ℕ × ℕ}

theorem parseOctet_decimal : ∀ n < 256, parseOctet (decimal n) = some n := by decide +kernel

theorem mem_dotted {u : UInt16} (h : u ∈ dotted octets) : u = unit '.' ∨ isDigit u = true := by
  rcases mem_join h with hdot | ⟨part, hpart, hu⟩
  · exact .inl (List.mem_singleton.1 hdot)
  · obtain ⟨n, -, rfl⟩ := List.mem_map.1 hpart
    exact .inr (isDigit_of_mem_decimal hu)

theorem parseIpv4_dotted (h : IsIpv4 octets) : parseIpv4 (dotted octets) = some octets := by
  have hparts : splitUnit (unit '.') (dotted octets) =
      [octets.1, octets.2.1, octets.2.2.1, octets.2.2.2].map decimal := by
    refine splitUnit_join (fun part hpart hdot => ?_) (by simp)
    obtain ⟨n, -, rfl⟩ := List.mem_map.1 hpart
    exact absurd (isDigit_of_mem_decimal hdot) (by decide)
  obtain ⟨ha, hb, hc, hd⟩ := h
  simp [parseIpv4, hparts, parseOctet_decimal _ ha, parseOctet_decimal _ hb, parseOctet_decimal _ hc,
    parseOctet_decimal _ hd]

theorem octet_lt {raw : JsString} {n : ℕ} (h : parseOctet raw = some n) : n < 256 := by
  simp only [parseOctet] at h
  split at h
  · cases h
  · split at h
    · cases h
    · split at h
      · cases h
      · obtain rfl := Option.some.inj h
        omega

theorem isDigit_of_parseOctet {raw : JsString} {n : ℕ} (h : parseOctet raw = some n) :
    ∀ u ∈ raw, isDigit u = true := by
  rw [parseOctet] at h
  split at h
  · cases h
  · rename_i hraw
    simp only [Bool.or_eq_true, not_or, Bool.not_eq_true', Bool.not_eq_false] at hraw
    exact List.all_eq_true.1 hraw.2

/-- An address in IPv4: four octets, and a text of digits and dots. -/
theorem isIpv4_of_parseIpv4 {text : JsString} (h : parseIpv4 text = some octets) :
    IsIpv4 octets ∧ ∀ u ∈ text, u = unit '.' ∨ isDigit u = true := by
  have htext : join [unit '.'] (splitUnit (unit '.') text) = text := List.intercalate_splitOn (unit '.')
  rw [parseIpv4] at h
  split at h
  · rename_i a b c d hparts
    obtain ⟨a', ha, h⟩ := Option.bind_eq_some_iff.1 h
    obtain ⟨b', hb, h⟩ := Option.bind_eq_some_iff.1 h
    obtain ⟨c', hc, h⟩ := Option.bind_eq_some_iff.1 h
    obtain ⟨d', hd, h⟩ := Option.bind_eq_some_iff.1 h
    obtain rfl := Option.some.inj h
    refine ⟨⟨octet_lt ha, octet_lt hb, octet_lt hc, octet_lt hd⟩, fun u hu => ?_⟩
    rw [← htext, hparts] at hu
    rcases mem_join hu with hdot | ⟨part, hpart, hmem⟩
    · exact .inl (List.mem_singleton.1 hdot)
    · refine .inr ?_
      simp only [List.mem_cons, List.not_mem_nil, or_false] at hpart
      rcases hpart with rfl | rfl | rfl | rfl
      · exact isDigit_of_parseOctet ha u hmem
      · exact isDigit_of_parseOctet hb u hmem
      · exact isDigit_of_parseOctet hc u hmem
      · exact isDigit_of_parseOctet hd u hmem
  · cases h

theorem dot_mem_of_parseIpv4 {text : JsString} (h : parseIpv4 text = some octets) : unit '.' ∈ text := by
  by_contra hdot
  have hparts : splitUnit (unit '.') (join [unit '.'] [text]) = [text] :=
    splitUnit_join (by simpa using hdot) (List.cons_ne_nil _ _)
  have hjoin : join [unit '.'] [text] = text := by simp [join]
  rw [hjoin] at hparts
  rw [parseIpv4, hparts] at h
  cases h

theorem hexValue_lt {u : UInt16} {d : ℕ} (h : hexValue u = some d) : d < 16 := by
  simp only [hexValue, isDigit, Bool.and_eq_true, decide_eq_true_eq, UInt16.le_iff_toNat_le] at h
  split at h
  · rename_i hrange
    obtain rfl := Option.some.inj h
    have hle : u.toNat ≤ 57 := hrange.2
    omega
  · split at h
    · rename_i hrange
      obtain rfl := Option.some.inj h
      have hle : u.toNat ≤ 102 := hrange.2
      omega
    · split at h
      · rename_i hrange
        obtain rfl := Option.some.inj h
        have hle : u.toNat ≤ 70 := hrange.2
        omega
      · cases h

theorem foldl_hex_lt {digits : List ℕ} (h : ∀ d ∈ digits, d < 16) :
    digits.foldl (fun n d => 16 * n + d) 0 < 16 ^ digits.length := by
  induction digits using List.reverseRecOn with
  | nil => simp
  | append_singleton digits d ih =>
    have hd : d < 16 := h d (by simp)
    have hrest := ih fun x hx => h x (List.mem_append_left _ hx)
    rw [List.foldl_append, List.length_append, List.length_singleton, pow_succ]
    simp only [List.foldl_cons, List.foldl_nil]
    omega

theorem parseHexGroup_lt {part : JsString} {n : ℕ} (h : parseHexGroup part = some n) : n < 2 ^ 16 := by
  obtain ⟨digits, hdigits, h⟩ := Option.bind_eq_some_iff.1 h
  split at h
  · cases h
  · rename_i hfits
    obtain rfl := Option.some.inj h
    simp only [Bool.or_eq_true, decide_eq_true_eq, not_or, not_lt] at hfits
    have hlt := foldl_hex_lt fun d hd => by
      obtain ⟨u, -, hu⟩ := (exists_of_forall₂ (mapM_eq_some.1 hdigits)).2 d hd
      exact hexValue_lt hu
    exact hlt.trans_le (Nat.pow_le_pow_right (by decide) hfits.2)

/-! ## What a text denotes -/

/-- Eight groups, or fewer around a `::` that stands for the zeros between them. -/
inductive PlainText : JsString → List ℕ → Prop
  | full {parts : List JsString} {groups : List ℕ} (h : ReadAs parts groups)
      (hlength : groups.length = 8) : PlainText (join (js ":") parts) groups
  | compressed {left right : List JsString} {front back : List ℕ} {n : ℕ} (h : ReadAs left front)
      (h' : ReadAs right back) (hn : 0 < n) (hlength : front.length + n + back.length = 8) :
      PlainText (join (js ":") left ++ js "::" ++ join (js ":") right)
        (front ++ List.replicate n 0 ++ back)

/-- The groups of the address that a text denotes: the last two may be written as an address in IPv4,
which takes the place of `0:0`. -/
inductive Denotes : JsString → List ℕ → Prop
  | plain {text : JsString} {groups : List ℕ} (h : PlainText text groups) : Denotes text groups
  | embedded {head last : JsString} {groups : List ℕ} {a b c d : ℕ}
      (hlast : parseIpv4 last = some (a, b, c, d)) (h : PlainText (head ++ js ":0:0") groups) :
      Denotes (head ++ unit ':' :: last) (groups.take 6 ++ [a * 256 + b, c * 256 + d])

variable {text : JsString}

theorem PlainText.mem (h : PlainText text groups) (hu : u ∈ text) : u = unit ':' ∨ (hexValue u).isSome := by
  cases h with
  | full h _ => exact h.mem hu
  | compressed h h' _ _ =>
    rcases List.mem_append.1 hu with hu | hright
    · rcases List.mem_append.1 hu with hleft | hcolons
      · exact h.mem hleft
      · have hall : (js "::").all (fun u => u = unit ':') = true := by decide
        exact .inl (of_decide_eq_true (List.all_eq_true.1 hall u hcolons))
    · exact h'.mem hright

theorem PlainText.dot_notMem (h : PlainText text groups) : unit '.' ∉ text := by
  intro hdot
  rcases h.mem hdot with hcolon | hhex
  · exact absurd hcolon (by decide)
  · exact absurd hhex (by decide)

theorem eq_join_side (raw : JsString) :
    join (js ":") (if raw = [] then [] else splitUnit (unit ':') raw) = raw := by
  split
  · rename_i hnil
    rw [hnil]
    rfl
  · exact List.intercalate_splitOn (unit ':')

theorem readAs_of_parseHexGroups (h : parseHexGroups parts = some groups) :
    ReadAs parts groups ∧ groups.length = 8 := by
  obtain ⟨read, hread, h⟩ := Option.bind_eq_some_iff.1 h
  split at h
  · cases h
  · rename_i hlength
    obtain rfl := Option.some.inj h
    exact ⟨mapM_eq_some.1 hread, not_not.1 hlength⟩

/-- What is filled with zeros is read as the groups around zeros. -/
theorem ReadAs.filled {n : ℕ} (h : ReadAs (left ++ List.replicate n (js "0") ++ right) groups) :
    ∃ front back, ReadAs left front ∧ ReadAs right back ∧
      groups = front ++ List.replicate n 0 ++ back := by
  have hread : (left ++ List.replicate n (js "0") ++ right).mapM parseHexGroup = some groups :=
    mapM_eq_some.2 h
  have hzeros : (List.replicate n (js "0")).mapM parseHexGroup = some (List.replicate n 0) :=
    mapM_eq_some.2 (readAs_zeros n)
  rw [List.mapM_append, List.mapM_append] at hread
  obtain ⟨most, hmost, hread⟩ := Option.bind_eq_some_iff.1 hread
  obtain ⟨front, hfront, hmost⟩ := Option.bind_eq_some_iff.1 hmost
  obtain ⟨zeros, hzeros', hmost⟩ := Option.bind_eq_some_iff.1 hmost
  obtain ⟨back, hback, hread⟩ := Option.bind_eq_some_iff.1 hread
  obtain rfl := Option.some.inj (hzeros.symm.trans hzeros')
  obtain rfl := Option.some.inj hmost
  obtain rfl := Option.some.inj hread
  exact ⟨front, back, mapM_eq_some.1 hfront, mapM_eq_some.1 hback, rfl⟩

theorem parseIpv6Plain_eq_some : parseIpv6Plain text = some groups ↔ PlainText text groups := by
  constructor
  · intro h
    rw [parseIpv6Plain] at h
    split at h
    · cases h
    · split at h
      · obtain ⟨hread, hlength⟩ := readAs_of_parseHexGroups h
        have htext : join (js ":") (splitUnit (unit ':') text) = text :=
          List.intercalate_splitOn (unit ':')
        exact htext ▸ PlainText.full hread hlength
      · rename_i leftRaw rightRaw hpair
        have htext : leftRaw ++ js "::" ++ rightRaw = text := by
          have hjoin := (join_splitPair (unit ':') text).2
          rw [hpair, join_cons_cons] at hjoin
          rw [← hjoin, List.append_assoc]
          simp [join]
          rfl
        have hleft := eq_join_side leftRaw
        have hright := eq_join_side rightRaw
        generalize (if leftRaw = [] then [] else splitUnit (unit ':') leftRaw) = left at h hleft
        generalize (if rightRaw = [] then [] else splitUnit (unit ':') rightRaw) = right at h hright
        dsimp only at h
        split at h
        · cases h
        · split at h
          · cases h
          · rename_i hmissing
            obtain ⟨hread, hlength⟩ := readAs_of_parseHexGroups h
            obtain ⟨front, back, hfront, hback, rfl⟩ := hread.filled
            rw [← htext, ← hleft, ← hright]
            refine PlainText.compressed hfront hback (by omega) ?_
            simpa [Nat.add_assoc] using hlength
      · cases h
  · intro h
    cases h with
    | full h hlength => exact parseIpv6Plain_full h hlength
    | compressed h h' hn hlength => exact parseIpv6Plain_compressed h h' hn hlength

/-- The inner text of one with an embedded address is plain. -/
theorem parseIpv6Nested_zeroed {head : JsString} {depth : ℕ} (hzone : unit '%' ∉ head) :
    parseIpv6Nested (depth + 1) (head ++ js ":0:0") = parseIpv6Plain (head ++ js ":0:0") := by
  have hstrip : stripZone (stripBrackets (head ++ js ":0:0")) = head ++ js ":0:0" := by
    have hend : endsWith (head ++ js ":0:0") (js "]") = false := by
      refine Bool.eq_false_iff.2 fun h => ?_
      obtain ⟨front, hfront⟩ := List.isSuffixOf_iff_suffix.1 h
      have hlast : (front ++ js "]").getLast? = (head ++ js ":0:0").getLast? := by rw [hfront]
      rw [List.getLast?_append, List.getLast?_append] at hlast
      have hunits : some (unit ']') = some (unit '0') := hlast
      exact absurd hunits (by decide)
    rw [stripBrackets, hend, Bool.and_false]
    refine List.takeWhile_eq_self_iff.2 fun u hu => ?_
    rw [decide_eq_true_eq]
    rintro rfl
    rcases List.mem_append.1 hu with hhead | hzero
    · exact hzone hhead
    · exact absurd hzero (by decide)
  rw [parseIpv6Nested]
  simp only [hstrip]
  split
  · rename_i hdot
    have hcut : cutLast (unit ':') (head ++ js ":0:0") = some (head ++ js ":0", js "0") := by
      have htext : head ++ js ":0:0" = (head ++ js ":0") ++ unit ':' :: js "0" := by
        rw [List.append_assoc]
        rfl
      rw [htext]
      exact cutLast_append (by decide)
    have hfour : parseIpv4 (js "0") = none := by decide
    have hnone : parseIpv6Plain (head ++ js ":0:0") = none := by
      rw [Option.eq_none_iff_forall_ne_some]
      intro groups hplain
      exact (parseIpv6Plain_eq_some.1 hplain).dot_notMem hdot
    simp [hcut, hfour, hnone]
  · rfl

/-- **The parser accepts the texts that denote an address**, without brackets and zone. -/
theorem parseIpv6Groups_eq_some {value : JsString} :
    parseIpv6Groups value = some groups ↔ Denotes (stripZone (stripBrackets value)) groups := by
  have hzone : unit '%' ∉ stripZone (stripBrackets value) := by
    intro hmem
    exact absurd (List.mem_takeWhile_imp hmem) (by decide)
  rw [parseIpv6Groups, parseIpv6Nested]
  dsimp only
  generalize stripZone (stripBrackets value) = ip at hzone
  constructor
  · intro h
    split at h
    · obtain ⟨⟨head, last⟩, hcut, h⟩ := Option.bind_eq_some_iff.1 h
      obtain ⟨⟨a, b, c, d⟩, hlast, h⟩ := Option.bind_eq_some_iff.1 h
      obtain ⟨inner, hinner, h⟩ := Option.bind_eq_some_iff.1 h
      obtain rfl := Option.some.inj h
      obtain ⟨rfl, -⟩ := eq_of_cutLast hcut
      rw [parseIpv6Nested_zeroed fun hmem => hzone (List.mem_append_left _ hmem)] at hinner
      exact Denotes.embedded hlast (parseIpv6Plain_eq_some.1 hinner)
    · exact Denotes.plain (parseIpv6Plain_eq_some.1 h)
  · intro h
    cases h with
    | plain h => rw [if_neg h.dot_notMem, parseIpv6Plain_eq_some.2 h]
    | @embedded head last groups a b c d hlast h =>
      obtain ⟨-, hunits⟩ := isIpv4_of_parseIpv4 hlast
      have hcolon : unit ':' ∉ last := by
        intro hmem
        rcases hunits _ hmem with hdot | hdigit
        · exact absurd hdot (by decide)
        · exact absurd hdigit (by decide)
      have hdot : unit '.' ∈ head ++ unit ':' :: last :=
        List.mem_append_right _ (List.mem_cons_of_mem _ (dot_mem_of_parseIpv4 hlast))
      rw [if_pos hdot, cutLast_append hcolon]
      simp only [Option.bind_eq_bind, Option.bind_some, hlast,
        parseIpv6Nested_zeroed fun hmem => hzone (List.mem_append_left _ hmem),
        parseIpv6Plain_eq_some.2 h]
      rfl

/-! ## Addresses in IPv6 -/

/-- The groups of an address: 128 bits. -/
def IsAddress (groups : List ℕ) : Prop := groups.length = 8 ∧ ∀ g ∈ groups, g < 2 ^ 16

theorem ReadAs.lt (h : ReadAs parts groups) : ∀ g ∈ groups, g < 2 ^ 16 := by
  intro g hg
  obtain ⟨part, -, hpart⟩ := (exists_of_forall₂ h).2 g hg
  exact parseHexGroup_lt hpart

theorem PlainText.isAddress (h : PlainText text groups) : IsAddress groups := by
  cases h with
  | full h hlength => exact ⟨hlength, h.lt⟩
  | @compressed left right front back n h h' hn hlength =>
    refine ⟨by simpa [Nat.add_assoc] using hlength, fun g hg => ?_⟩
    rcases List.mem_append.1 hg with hg | hback
    · rcases List.mem_append.1 hg with hfront | hzero
      · exact h.lt g hfront
      · rw [(List.mem_replicate.1 hzero).2]
        decide
    · exact h'.lt g hback

theorem Denotes.isAddress (h : Denotes text groups) : IsAddress groups := by
  cases h with
  | plain h => exact h.isAddress
  | @embedded head last groups a b c d hlast h =>
    obtain ⟨⟨ha, hb, hc, hd⟩, -⟩ := isIpv4_of_parseIpv4 hlast
    dsimp only at ha hb hc hd
    obtain ⟨hlength, hlt⟩ := h.isAddress
    refine ⟨by simp [hlength], fun g hg => ?_⟩
    rcases List.mem_append.1 hg with hg | hg
    · exact hlt g (List.mem_of_mem_take hg)
    · simp only [List.mem_cons, List.not_mem_nil, or_false] at hg
      rcases hg with rfl | rfl
      · omega
      · omega

theorem formatIpv6_cases (groups : List ℕ) :
    (∃ g h, groups = [0, 0, 0, 0, 0, 0xFFFF, g, h] ∧
        formatIpv6 groups = js "::ffff:" ++ dotted (g / 256, g % 256, h / 256, h % 256)) ∨
      formatIpv6 groups = join (js ":") (groups.map (natText 16)) ∨
      ∃ front back n, 0 < n ∧ groups = front ++ List.replicate n 0 ++ back ∧
        formatIpv6 groups = join (js ":") (front.map (natText 16)) ++ js "::" ++ join (js ":") (back.map (natText 16)) := by
  unfold formatIpv6
  split
  · rename_i g h
    exact .inl ⟨g, h, rfl, rfl⟩
  · refine .inr ?_
    have hrun : ZeroRun ([] ++ groups) (longestZeroRun 0 0 0 (0, 0) groups) :=
      zeroRun_longestZeroRun ⟨[], [], rfl, rfl⟩ ⟨[], rfl, fun h => absurd h (by decide)⟩
    generalize longestZeroRun 0 0 0 (0, 0) groups = run at hrun
    obtain ⟨start, length⟩ := run
    dsimp only
    split
    · exact .inl rfl
    · obtain ⟨front, back, hgroups, hfront⟩ := hrun
      rw [List.nil_append] at hgroups
      dsimp only at hgroups hfront
      refine .inr ⟨front, back, length, by omega, hgroups, ?_⟩
      have htake : groups.take start = front := by
        rw [hgroups, List.append_assoc]
        exact List.take_left' hfront
      have hdrop : groups.drop (start + length) = back := by
        rw [hgroups]
        exact List.drop_left' (by simp [hfront])
      rw [htake, hdrop]

/-- What the formatter writes denotes the groups that it was given. -/
theorem denotes_formatIpv6 (h : IsAddress groups) : Denotes (formatIpv6 groups) groups := by
  obtain ⟨hlength, hlt⟩ := h
  rcases formatIpv6_cases groups with ⟨g, h, rfl, hformat⟩ | hformat | ⟨front, back, n, hn, hgroups, hformat⟩
  · have hg : g < 2 ^ 16 := hlt g (by simp)
    have hh : h < 2 ^ 16 := hlt h (by simp)
    have hoctets : IsIpv4 (g / 256, g % 256, h / 256, h % 256) := by
      refine ⟨?_, ?_, ?_, ?_⟩ <;> dsimp only <;> omega
    have hhead : PlainText (js "::ffff" ++ js ":0:0") [0, 0, 0, 0, 0, 0xFFFF, 0, 0] :=
      parseIpv6Plain_eq_some.1 (by decide +kernel)
    have hdenotes := Denotes.embedded (parseIpv4_dotted hoctets) hhead
    have hjoin : ∀ n, n / 256 * 256 + n % 256 = n := by
      intro n
      omega
    rw [hjoin, hjoin] at hdenotes
    have htext : formatIpv6 [0, 0, 0, 0, 0, 0xFFFF, g, h] =
        js "::ffff" ++ unit ':' :: dotted (g / 256, g % 256, h / 256, h % 256) := by
      rw [hformat, show js "::ffff:" = js "::ffff" ++ [unit ':'] from rfl, List.append_assoc]
      rfl
    rw [htext]
    exact hdenotes
  · rw [hformat]
    exact Denotes.plain (.full (readAs_natText hlt) hlength)
  · have hcount : front.length + n + back.length = 8 := by
      rw [← hlength, hgroups]
      simp [Nat.add_assoc]
    have hfront : ∀ g ∈ front, g < 2 ^ 16 := fun g hg => hlt g (by rw [hgroups]; simp [hg])
    have hback : ∀ g ∈ back, g < 2 ^ 16 := fun g hg => hlt g (by rw [hgroups]; simp [hg])
    have hdenotes := Denotes.plain (.compressed (readAs_natText hfront) (readAs_natText hback) hn hcount)
    rwa [hformat, hgroups]

theorem Denotes.units (h : Denotes text groups) : ∀ u ∈ text, AddressUnit u := by
  intro u hu
  cases h with
  | plain h => exact (h.mem hu).imp_right .inr
  | embedded hlast h =>
    rcases List.mem_append.1 hu with hhead | hrest
    · exact (h.mem (List.mem_append_left _ hhead)).imp_right .inr
    · rcases List.mem_cons.1 hrest with hcolon | hu
      · exact .inl hcolon
      · refine .inr (((isIpv4_of_parseIpv4 hlast).2 u hu).imp_right fun hdigit => ?_)
        rw [hexValue, if_pos hdigit]
        rfl

/-- **What is formatted is parsed again.** -/
theorem parseIpv6Groups_formatIpv6 (h : IsAddress groups) :
    parseIpv6Groups (formatIpv6 groups) = some groups := by
  have hdenotes := denotes_formatIpv6 h
  rw [parseIpv6Groups_eq_some, strip_of_forall hdenotes.units]
  exact hdenotes

/-! ## Canonical texts -/

/-- The address of a text: in IPv4, or the groups of one in IPv6. -/
inductive IpAddress
  | v4 (octets : ℕ × ℕ × ℕ × ℕ)
  | v6 (groups : List ℕ)
  deriving DecidableEq

def IpAddress.format : IpAddress → JsString
  | v4 octets => dotted octets
  | v6 groups => formatIpv6 groups

/-- What `canonicalizeIp` parses. -/
def parseIp (value : JsString) : Option IpAddress :=
  let trimmed := stripZone (stripBrackets (trim value))
  match parseIpv4 trimmed with
  | some octets => some (.v4 octets)
  | none => (parseIpv6Groups trimmed).map .v6

theorem canonicalizeIp_eq (value : JsString) : canonicalizeIp value = (parseIp value).map IpAddress.format := by
  rw [canonicalizeIp, parseIp]
  cases parseIpv4 (stripZone (stripBrackets (trim value))) with
  | some octets => rfl
  | none => simp [Function.comp_def, IpAddress.format]

theorem isSpace_of_addressUnit (h : AddressUnit u) : isSpace u = false := by
  rcases h with rfl | rfl | h
  · decide
  · decide
  · have hrange : u.toNat ≤ 102 ∧ 48 ≤ u.toNat := by
      obtain ⟨d, hd⟩ := Option.isSome_iff_exists.1 h
      simp only [hexValue, isDigit, Bool.and_eq_true, decide_eq_true_eq, UInt16.le_iff_toNat_le,
        UInt16.reduceToNat] at hd
      split at hd
      · omega
      · split at hd
        · omega
        · split at hd
          · omega
          · cases hd
    simp only [isSpace, Bool.or_eq_false_iff, Bool.and_eq_false_iff, decide_eq_false_iff_not,
      UInt16.le_iff_toNat_le, ← UInt16.toNat_inj, UInt16.reduceToNat]
    omega

theorem trim_of_forall (h : ∀ u ∈ text, AddressUnit u) : trim text = text := by
  have hspace : ∀ u ∈ text, isSpace u = false := fun u hu => isSpace_of_addressUnit (h u hu)
  have hstart : trimStart text = text := by
    rw [trimStart, List.dropWhile_eq_self_iff]
    intro hl
    simp [hspace _ (List.getElem_mem hl)]
  rw [trim, hstart, List.rdropWhile_eq_self_iff]
  intro hl
  simp [hspace _ (List.getLast_mem hl)]

theorem Denotes.colon_mem (h : Denotes text groups) : unit ':' ∈ text := by
  have hcolon : unit ':' ∈ js ":" := by decide
  cases h with
  | plain h =>
    cases h with
    | @full parts _ h hlength =>
      match parts, h.length_eq.trans hlength with
      | first :: second :: rest, _ =>
        rw [join_cons_cons]
        exact List.mem_append_right _ (List.mem_append_left _ hcolon)
    | compressed h h' hn hlength =>
      exact List.mem_append_left _ (List.mem_append_right _ (by decide))
  | embedded hlast h => exact List.mem_append_right _ List.mem_cons_self

theorem parseIp_dotted (h : IsIpv4 octets) : parseIp (dotted octets) = some (.v4 octets) := by
  have hunits : ∀ u ∈ dotted octets, AddressUnit u := by
    intro u hu
    refine .inr ((mem_dotted hu).imp_right fun hdigit => ?_)
    rw [hexValue, if_pos hdigit]
    rfl
  rw [parseIp, trim_of_forall hunits, strip_of_forall hunits, parseIpv4_dotted h]

theorem parseIp_formatIpv6 (h : IsAddress groups) : parseIp (formatIpv6 groups) = some (.v6 groups) := by
  have hdenotes := denotes_formatIpv6 h
  have hfour : parseIpv4 (formatIpv6 groups) = none := by
    rw [Option.eq_none_iff_forall_ne_some]
    intro octets hoctets
    rcases (isIpv4_of_parseIpv4 hoctets).2 _ hdenotes.colon_mem with hdot | hdigit
    · exact absurd hdot (by decide)
    · exact absurd hdigit (by decide)
  rw [parseIp, trim_of_forall hdenotes.units, strip_of_forall hdenotes.units, hfour,
    parseIpv6Groups_formatIpv6 h]
  rfl

/-- **The canonical text of an address is parsed as the address.** -/
theorem parseIp_format {value : JsString} {address : IpAddress} (h : parseIp value = some address) :
    parseIp address.format = some address := by
  rw [parseIp] at h
  split at h
  · rename_i octets hfour
    obtain rfl := Option.some.inj h
    exact parseIp_dotted (isIpv4_of_parseIpv4 hfour).1
  · obtain ⟨groups, hgroups, rfl⟩ := Option.map_eq_some_iff.1 h
    exact parseIp_formatIpv6 (parseIpv6Groups_eq_some.1 hgroups).isAddress

theorem exists_parseIp {value text : JsString} (h : canonicalizeIp value = some text) :
    ∃ address, parseIp value = some address ∧ text = address.format := by
  rw [canonicalizeIp_eq] at h
  obtain ⟨address, haddress, rfl⟩ := Option.map_eq_some_iff.1 h
  exact ⟨address, haddress, rfl⟩

theorem foldl_groups_inj {groups groups' : List ℕ} {n n' : ℕ} (hlength : groups.length = groups'.length)
    (h : ∀ g ∈ groups, g < 2 ^ 16) (h' : ∀ g ∈ groups', g < 2 ^ 16)
    (heq : groups.foldl (fun n g => n * 2 ^ 16 + g) n = groups'.foldl (fun n g => n * 2 ^ 16 + g) n') :
    n = n' ∧ groups = groups' := by
  induction groups generalizing groups' n n' with
  | nil =>
    obtain rfl := List.length_eq_zero_iff.1 hlength.symm
    exact ⟨heq, rfl⟩
  | cons g groups ih =>
    obtain ⟨g', groups', rfl⟩ := List.exists_cons_of_length_eq_add_one hlength.symm
    obtain ⟨hg, hgroups⟩ := List.forall_mem_cons.1 h
    obtain ⟨hg', hgroups'⟩ := List.forall_mem_cons.1 h'
    obtain ⟨hn, rfl⟩ := ih (Nat.succ.inj hlength) hgroups hgroups' heq
    have hnext : n * 2 ^ 16 + g = n' * 2 ^ 16 + g' := hn
    have hsame : n = n' ∧ g = g' := by omega
    exact ⟨hsame.1, by rw [hsame.2]⟩

/-- The 128 bits of an address are its groups. -/
theorem ipv6ToBigint_inj {groups groups' : List ℕ} (h : IsAddress groups) (h' : IsAddress groups')
    (heq : ipv6ToBigint groups = ipv6ToBigint groups') : groups = groups' :=
  (foldl_groups_inj (h.1.trans h'.1.symm) h.2 h'.2 heq).2

/-- The text of an address in IPv6, without what is written around it. -/
def bareText (value : JsString) : JsString :=
  stripZone (stripBrackets (stripZone (stripBrackets (trim value))))

theorem parseIp_eq_v6 {value : JsString} :
    parseIp value = some (.v6 groups) ↔ Denotes (bareText value) groups := by
  rw [parseIp, bareText]
  generalize stripZone (stripBrackets (trim value)) = trimmed
  constructor
  · intro h
    split at h
    · cases h
    · obtain ⟨read, hread, heq⟩ := Option.map_eq_some_iff.1 h
      obtain rfl := IpAddress.v6.inj heq
      exact parseIpv6Groups_eq_some.1 hread
  · intro h
    have hfour : parseIpv4 trimmed = none := by
      rw [Option.eq_none_iff_forall_ne_some]
      intro octets hoctets
      have hcolon : unit ':' ∈ trimmed := by
        have hmem := List.takeWhile_subset _ h.colon_mem
        rw [stripBrackets] at hmem
        split at hmem
        · exact List.mem_of_mem_drop (List.dropLast_subset _ hmem)
        · exact hmem
      rcases (isIpv4_of_parseIpv4 hoctets).2 _ hcolon with hdot | hdigit
      · exact absurd hdot (by decide)
      · exact absurd hdigit (by decide)
    rw [hfour, parseIpv6Groups_eq_some.2 h]
    rfl

/-- **Canonical addresses**: the canonical text has the same address and is its own canonical text, two
texts of IPv6 addresses have the same canonical text exactly when the addresses are the same 128 bits, and
formatted groups are parsed as they were. -/
theorem addresses_canonical :
    (∀ value text, canonicalizeIp value = some text →
      parseIp text = parseIp value ∧ canonicalizeIp text = some text) ∧
    (∀ value value' groups groups', Denotes (bareText value) groups → Denotes (bareText value') groups' →
        (canonicalizeIp value = canonicalizeIp value' ↔ ipv6ToBigint groups = ipv6ToBigint groups')) ∧
    ∀ groups, IsAddress groups → parseIpv6Groups (formatIpv6 groups) = some groups := by
  refine ⟨fun value text h => ?_, fun value value' groups groups' h h' => ?_,
    fun groups => parseIpv6Groups_formatIpv6⟩
  · obtain ⟨address, haddress, rfl⟩ := exists_parseIp h
    have hsame := parseIp_format haddress
    exact ⟨hsame.trans haddress.symm, by rw [canonicalizeIp_eq, hsame]; rfl⟩
  · have hgroups := h.isAddress
    have hgroups' := h'.isAddress
    rw [canonicalizeIp_eq, canonicalizeIp_eq, parseIp_eq_v6.2 h, parseIp_eq_v6.2 h']
    constructor
    · intro hsame
      have htext : formatIpv6 groups = formatIpv6 groups' := Option.some.inj hsame
      have hread : some groups = some groups' := by
        rw [← parseIpv6Groups_formatIpv6 hgroups, htext, parseIpv6Groups_formatIpv6 hgroups']
      rw [Option.some.inj hread]
    · intro hbits
      rw [ipv6ToBigint_inj hgroups hgroups' hbits]

theorem addresses_canonical_compressed :
    canonicalizeIp "[2001:0DB8::0:1]" = some (js "2001:db8::1") ∧
      canonicalizeIp "2001:db8::1" = some (js "2001:db8::1") := by
  have hvalue : canonicalizeIp "[2001:0DB8::0:1]" = some (js "2001:db8::1") := by decide +kernel
  exact ⟨hvalue, (addresses_canonical.1 _ _ hvalue).2⟩

end Kinglet.Armor
