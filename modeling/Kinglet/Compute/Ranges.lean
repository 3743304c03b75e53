import Kinglet.Armor.Canonical
import Kinglet.Compute.Rule

/-!
# Membership in a range

A range is an address and a number of leading bits. Three pieces of code deal with ranges: the check
of a policy's ranges, the normalisation when the policy is stored, and the comparison under a mask
when a request is matched. Here they are compared with the bits themselves.

## Strategy

* **Masks.** `getLsbD_mask4` and `testBit_mask6` say which bits a mask keeps, for all prefix lengths,
  so that equality under a mask is equality of leading bits (`masked4_iff`, `masked6_iff`).
* **Texts.** `parseCidr_eq` reads a range as an address and a length, and `addressOf_v4` and
  `addressOf_v6` do the same for the text of an address.
* **Normalisation.** `cidrOf_normalizeCidr` shows that a normalised range is read as it was.
-/

namespace Kinglet.Compute

open Js Armor

/-! ## Bits -/

/-- The `w` bits of a number, the highest first. -/
def bitsOf (w n : ℕ) : List Bool := (List.range w).map fun i => n.testBit (w - 1 - i)

theorem bitsOf_append {v w x y : ℕ} (hy : y < 2 ^ w) :
    bitsOf (v + w) (x * 2 ^ w + y) = bitsOf v x ++ bitsOf w y := by
  have hbit : ∀ i, (x * 2 ^ w + y).testBit i =
      if i < w then y.testBit i else x.testBit (i - w) := by
    intro i
    rw [Nat.mul_comm, Nat.testBit_two_pow_mul_add x hy]
  rw [bitsOf, List.range_add, List.map_append, List.map_map]
  congr 1
  · refine List.map_congr_left fun i hi => ?_
    have hlt := List.mem_range.1 hi
    rw [hbit, if_neg (by omega)]
    congr 1
    omega
  · refine List.map_congr_left fun i hi => ?_
    have hlt := List.mem_range.1 hi
    rw [Function.comp_apply, hbit, if_pos (by omega)]
    congr 1
    omega

/-- The first bits of two numbers agree when the high bits do. -/
theorem take_bitsOf_eq_iff {w p x y : ℕ} (hp : p ≤ w) :
    (bitsOf w x).take p = (bitsOf w y).take p ↔
      ∀ i, w - p ≤ i → i < w → x.testBit i = y.testBit i := by
  rw [bitsOf, bitsOf, ← List.map_take, ← List.map_take, List.take_range, Nat.min_eq_left hp,
    List.map_inj_left]
  constructor
  · intro h i hlow hhigh
    have hbit := h (w - 1 - i) (List.mem_range.2 (by omega))
    rwa [show w - 1 - (w - 1 - i) = i by omega] at hbit
  · intro h i hi
    have hlt := List.mem_range.1 hi
    exact h (w - 1 - i) (by omega) (by omega)

/-! ## Masks -/

theorem getLsbD_mask4 {p : ℕ} (hp : p ≤ 32) (i : ℕ) :
    (mask4 p).getLsbD i = (decide (32 - p ≤ i) && decide (i < 32)) := by
  rw [mask4]
  split
  · rename_i hzero
    have hnone : ¬ (32 - p ≤ i ∧ i < 32) := by omega
    simpa using hnone
  · rw [BitVec.getLsbD_shiftLeft, BitVec.getLsbD_allOnes]
    grind

theorem testBit_mask6 {p : ℕ} (hp : p ≤ 128) (i : ℕ) :
    (mask6 p).testBit i = (decide (128 - p ≤ i) && decide (i < 128)) := by
  rw [mask6]
  split
  · rename_i hzero
    have hnone : ¬ (128 - p ≤ i ∧ i < 128) := by omega
    simpa using hnone
  · split
    · have hlow : 128 - p ≤ i := by omega
      rw [Nat.testBit_two_pow_sub_one]
      simp [hlow]
    · rw [Nat.testBit_shiftLeft, Nat.testBit_two_pow_sub_one]
      grind

/-- Two numbers agree under the mask of a prefix length when their high bits agree. -/
theorem masked4_iff {p x y : ℕ} (hp : p ≤ 32) :
    BitVec.ofNat 32 x &&& mask4 p = BitVec.ofNat 32 y &&& mask4 p ↔
      ∀ i, 32 - p ≤ i → i < 32 → x.testBit i = y.testBit i := by
  have hbit : ∀ n i, (BitVec.ofNat 32 n &&& mask4 p).getLsbD i =
      (n.testBit i && (decide (32 - p ≤ i) && decide (i < 32))) := by
    intro n i
    rw [BitVec.getLsbD_and, getLsbD_mask4 hp, BitVec.getLsbD_ofNat]
    grind
  constructor
  · intro h i hlow hhigh
    have hsame : (BitVec.ofNat 32 x &&& mask4 p).getLsbD i =
        (BitVec.ofNat 32 y &&& mask4 p).getLsbD i := by rw [h]
    rw [hbit, hbit] at hsame
    simpa [hlow, hhigh] using hsame
  · intro h
    refine BitVec.eq_of_getLsbD_eq fun i hi => ?_
    rw [hbit, hbit]
    by_cases hlow : 32 - p ≤ i
    · rw [h i hlow hi]
    · simp [hlow]

theorem masked6_iff {p x y : ℕ} (hp : p ≤ 128) :
    x &&& mask6 p = y &&& mask6 p ↔
      ∀ i, 128 - p ≤ i → i < 128 → x.testBit i = y.testBit i := by
  have hbit : ∀ n i, (n &&& mask6 p).testBit i =
      (n.testBit i && (decide (128 - p ≤ i) && decide (i < 128))) := by
    intro n i
    rw [Nat.testBit_and, testBit_mask6 hp]
  constructor
  · intro h i hlow hhigh
    have hsame := congrArg (Nat.testBit · i) h
    simpa [hbit, hlow, hhigh] using hsame
  · intro h
    refine Nat.eq_of_testBit_eq fun i => ?_
    rw [hbit, hbit]
    by_cases hrange : 128 - p ≤ i ∧ i < 128
    · rw [h i hrange.1 hrange.2]
    · have hoff : (decide (128 - p ≤ i) && decide (i < 128)) = false := by simpa using hrange
      rw [hoff, Bool.and_false, Bool.and_false]

/-! ## Addresses as bits -/

/-- The bits of an address, the highest first. -/
def addressBits : IpAddress → List Bool
  | .v4 (a, b, c, d) => [a, b, c, d].flatMap (bitsOf 8)
  | .v6 groups => groups.flatMap (bitsOf 16)

/-- The number of bits of an address of the family. -/
def familyWidth : IpAddress → ℕ
  | .v4 _ => 32
  | .v6 _ => 128

/-- The parts of an address are in range. -/
def ValidAddress : IpAddress → Prop
  | .v4 octets => IsIpv4 octets
  | .v6 groups => IsAddress groups

theorem addressBits_v4 {octets : ℕ × ℕ × ℕ × ℕ} (h : IsIpv4 octets) :
    addressBits (.v4 octets) = bitsOf 32 (ipv4ToInt octets) := by
  obtain ⟨a, b, c, d⟩ := octets
  obtain ⟨ha, hb, hc, hd⟩ := h
  dsimp only at ha hb hc hd
  have htwo : bitsOf 16 (a * 2 ^ 8 + b) = bitsOf 8 a ++ bitsOf 8 b := bitsOf_append (v := 8) hb
  have hthree : bitsOf 24 ((a * 2 ^ 8 + b) * 2 ^ 8 + c) = bitsOf 16 (a * 2 ^ 8 + b) ++ bitsOf 8 c :=
    bitsOf_append (v := 16) hc
  have hfour : bitsOf 32 (((a * 2 ^ 8 + b) * 2 ^ 8 + c) * 2 ^ 8 + d) =
      bitsOf 24 ((a * 2 ^ 8 + b) * 2 ^ 8 + c) ++ bitsOf 8 d := bitsOf_append (v := 24) hd
  have hvalue : ipv4ToInt (a, b, c, d) = ((a * 2 ^ 8 + b) * 2 ^ 8 + c) * 2 ^ 8 + d := by
    rw [ipv4ToInt]
    omega
  rw [hvalue, hfour, hthree, htwo]
  simp [addressBits]

theorem bitsOf_foldl {groups : List ℕ} (h : ∀ g ∈ groups, g < 2 ^ 16) (v n : ℕ) :
    bitsOf (v + 16 * groups.length) (groups.foldl (fun n g => n * 2 ^ 16 + g) n) =
      bitsOf v n ++ groups.flatMap (bitsOf 16) := by
  induction groups generalizing v n with
  | nil => simp
  | cons g groups ih =>
    obtain ⟨hg, hgroups⟩ := List.forall_mem_cons.1 h
    have hrest := ih hgroups (v + 16) (n * 2 ^ 16 + g)
    rw [List.length_cons, List.foldl_cons, List.flatMap_cons,
      show v + 16 * (groups.length + 1) = v + 16 + 16 * groups.length by omega, hrest,
      bitsOf_append hg, List.append_assoc]

theorem addressBits_v6 {groups : List ℕ} (h : IsAddress groups) :
    addressBits (.v6 groups) = bitsOf 128 (ipv6ToBigint groups) := by
  have hbits := bitsOf_foldl h.2 0 0
  rw [h.1] at hbits
  exact hbits.symm

/-! ## The texts of addresses -/

/-- The address an IP text denotes, white space and brackets around it aside. An IPv4 address has
no zone. -/
def addressOf (ip : JsString) : Option IpAddress :=
  match parseIp ip with
  | some (.v4 octets) => if unit '%' ∈ ip then none else some (.v4 octets)
  | other => other

theorem mem_stripBrackets {text : JsString} {u : UInt16} (hu : u ∈ text) (hopen : u ≠ unit '[')
    (hclose : u ≠ unit ']') : u ∈ stripBrackets text := by
  rw [stripBrackets]
  split
  · rename_i hboth
    rw [Bool.and_eq_true] at hboth
    obtain ⟨hstart, hend⟩ := hboth
    obtain ⟨rest, rfl⟩ := List.isPrefixOf_iff_prefix.1 hstart
    obtain ⟨front, hfront⟩ := List.isSuffixOf_iff_suffix.1 hend
    have hone : js "[" = [unit '['] := rfl
    have hlast : js "]" = [unit ']'] := rfl
    rw [hone, hlast] at hfront
    rw [hone] at hu ⊢
    have hmem : u ∈ rest := (List.mem_cons.1 hu).resolve_left hopen
    cases front with
    | nil =>
      have hclash := (List.cons.inj hfront).1
      exact absurd hclash (by decide)
    | cons v front =>
      have htail : front ++ [unit ']'] = rest := (List.cons.inj hfront).2
      subst htail
      simp only [List.singleton_append, List.drop_succ_cons, List.drop_zero,
        List.dropLast_concat]
      rcases List.mem_append.1 hmem with hin | hin
      · exact hin
      · exact absurd (List.mem_singleton.1 hin) hclose
  · exact hu

theorem mem_dropWhile {p : UInt16 → Bool} {text : JsString} {u : UInt16} (hu : u ∈ text)
    (hp : p u = false) : u ∈ text.dropWhile p := by
  rw [← List.takeWhile_append_dropWhile (p := p) (l := text)] at hu
  rcases List.mem_append.1 hu with htake | hdrop
  · have := List.mem_takeWhile_imp htake
    rw [hp] at this
    exact absurd this (by decide)
  · exact hdrop

theorem mem_trim {text : JsString} {u : UInt16} (hu : u ∈ text) (hspace : isSpace u = false) :
    u ∈ trim text := by
  rw [trim, List.rdropWhile, List.mem_reverse]
  exact mem_dropWhile (List.mem_reverse.2 (mem_dropWhile hu hspace)) hspace

theorem percent_notMem_of_parseIpv4 {text : JsString} {octets : ℕ × ℕ × ℕ × ℕ}
    (h : parseIpv4 text = some octets) : unit '%' ∉ text := by
  intro hmem
  rcases (isIpv4_of_parseIpv4 h).2 _ hmem with hdot | hdigit
  · exact absurd hdot (by decide)
  · exact absurd hdigit (by decide)

theorem stripZone_of_notMem {text : JsString} (h : unit '%' ∉ text) : stripZone text = text :=
  List.takeWhile_eq_self_iff.2 fun u hu => by
    rw [decide_eq_true_eq]
    rintro rfl
    exact h hu

theorem mem_of_mem_strip {text : JsString} {u : UInt16} (h : u ∈ stripBrackets (trim text)) :
    u ∈ text := by
  have htrim : u ∈ trim text := by
    rw [stripBrackets] at h
    split at h
    · exact List.mem_of_mem_drop (List.dropLast_subset _ h)
    · exact h
  exact (List.dropWhile_sublist isSpace).subset ((List.rdropWhile_prefix isSpace _).subset htrim)

/-- What the comparison in IPv4 reads is the address of the text. -/
theorem addressOf_v4 {ip : JsString} {octets : ℕ × ℕ × ℕ × ℕ} :
    parseIpv4 (stripBrackets (trim ip)) = some octets ↔ addressOf ip = some (.v4 octets) := by
  constructor
  · intro h
    have hbare := percent_notMem_of_parseIpv4 h
    have hzone : unit '%' ∉ ip := fun hmem =>
      hbare (mem_stripBrackets (mem_trim hmem (by decide)) (by decide) (by decide))
    have hread : parseIp ip = some (.v4 octets) := by
      rw [parseIp, stripZone_of_notMem hbare, h]
    rw [addressOf, hread]
    exact if_neg hzone
  · intro h
    rw [addressOf] at h
    split at h
    · rename_i read hread
      split at h
      · cases h
      · rename_i hzone
        obtain rfl := IpAddress.v4.inj (Option.some.inj h)
        rw [parseIp, stripZone_of_notMem fun hmem => hzone (mem_of_mem_strip hmem)] at hread
        split at hread
        · rename_i found hfound
          obtain rfl := IpAddress.v4.inj (Option.some.inj hread)
          exact hfound
        · obtain ⟨groups, -, hclash⟩ := Option.map_eq_some_iff.1 hread
          cases hclash
    · rename_i hother
      exact absurd h (hother octets)

theorem addressOf_v6 {ip : JsString} {groups : List ℕ} :
    parseIpv6Groups (stripZone (stripBrackets (trim ip))) = some groups ↔
      addressOf ip = some (.v6 groups) := by
  have hparse : parseIpv6Groups (stripZone (stripBrackets (trim ip))) = some groups ↔
      parseIp ip = some (.v6 groups) := by
    rw [parseIp_eq_v6, parseIpv6Groups_eq_some, bareText]
  rw [hparse, addressOf]
  split
  · rename_i octets hread
    rw [hread]
    split <;> simp
  · rfl

/-! ## The texts of ranges -/

/-- The address of a text with nothing around it, as the check of a range reads it. -/
def readAddress (text : JsString) : Option IpAddress :=
  match parseIpv4 text with
  | some octets => some (.v4 octets)
  | none => (parseIpv6Groups text).map .v6

/-- The text before the last slash, and the text after it when there is one. -/
def splitRange (range : JsString) : JsString × Option JsString :=
  match cutLast (unit '/') (trim range) with
  | none => (trim range, none)
  | some (addr, raw) => (addr, some raw)

/-- The address and the number of leading bits of a range; a single address stands for itself. -/
def cidrOf (range : JsString) : Option (IpAddress × ℕ) := do
  let network ← readAddress (splitRange range).1
  return (network, ← parsePrefixLength (splitRange range).2 (familyWidth network))

/-- The numbers a range is compared by. -/
def toCidr : IpAddress × ℕ → Cidr
  | (.v4 octets, length) => .v4 (ipv4ToInt octets) length
  | (.v6 groups, length) => .v6 (ipv6ToBigint groups) length

theorem parseCidr_eq (range : JsString) : parseCidr range = (cidrOf range).map toCidr := by
  have hsplit : parseCidr range =
      (parseIpv4 (splitRange range).1).elim
        ((parseIpv6Groups (splitRange range).1).elim none fun groups =>
          (parsePrefixLength (splitRange range).2 128).map (.v6 (ipv6ToBigint groups)))
        fun octets => (parsePrefixLength (splitRange range).2 32).map (.v4 (ipv4ToInt octets)) := by
    cases hcut : cutLast (unit '/') (trim range) <;>
      simp only [parseCidr, splitRange, hcut] <;> split <;> simp only [*, Option.elim] <;> split <;>
      simp only [*]
  rw [hsplit, cidrOf, readAddress]
  cases parseIpv4 (splitRange range).1 with
  | some octets => cases hlength : parsePrefixLength (splitRange range).2 32 <;>
      simp [familyWidth, hlength, toCidr]
  | none =>
    cases parseIpv6Groups (splitRange range).1 with
    | none => rfl
    | some groups => cases hlength : parsePrefixLength (splitRange range).2 128 <;>
        simp [familyWidth, hlength, toCidr]

theorem parsePrefixLength_le {raw : Option JsString} {max length : ℕ}
    (h : parsePrefixLength raw max = some length) : length ≤ max := by
  cases raw with
  | none => exact (Option.some.inj h).ge
  | some digits =>
    rw [parsePrefixLength] at h
    split at h
    · cases h
    · rename_i hsmall
      simp only [Bool.or_eq_true, decide_eq_true_eq, not_or] at hsmall
      obtain rfl := Option.some.inj h
      omega

theorem validAddress_of_readAddress {text : JsString} {address : IpAddress}
    (h : readAddress text = some address) : ValidAddress address := by
  rw [readAddress] at h
  split at h
  · rename_i octets hfour
    obtain rfl := Option.some.inj h
    exact (isIpv4_of_parseIpv4 hfour).1
  · obtain ⟨groups, hgroups, rfl⟩ := Option.map_eq_some_iff.1 h
    exact (parseIpv6Groups_eq_some.1 hgroups).isAddress

/-- A range has an address in range and no more leading bits than its family has. -/
theorem cidrOf_spec {range : JsString} {network : IpAddress} {length : ℕ}
    (h : cidrOf range = some (network, length)) :
    readAddress (splitRange range).1 = some network ∧ ValidAddress network ∧
      parsePrefixLength (splitRange range).2 (familyWidth network) = some length ∧
        length ≤ familyWidth network := by
  obtain ⟨read, hread, h⟩ := Option.bind_eq_some_iff.1 h
  obtain ⟨found, hfound, h⟩ := Option.bind_eq_some_iff.1 h
  obtain ⟨rfl, rfl⟩ := Prod.mk.inj (Option.some.inj h)
  exact ⟨hread, validAddress_of_readAddress hread, hfound, parsePrefixLength_le hfound⟩

/-! ## Membership -/

/-- An address lies in a range: the families are the same and so are the first bits. -/
def InRange (address : IpAddress) (range : IpAddress × ℕ) : Prop :=
  familyWidth address = familyWidth range.1 ∧
    (addressBits address).take range.2 = (addressBits range.1).take range.2

instance (address : IpAddress) (range : IpAddress × ℕ) : Decidable (InRange address range) :=
  inferInstanceAs (Decidable (_ ∧ _))

theorem inRange_v4 {octets network : ℕ × ℕ × ℕ × ℕ} (h : IsIpv4 octets) (h' : IsIpv4 network)
    {length : ℕ} (hlength : length ≤ 32) :
    InRange (.v4 octets) (.v4 network, length) ↔
      BitVec.ofNat 32 (ipv4ToInt octets) &&& mask4 length =
        BitVec.ofNat 32 (ipv4ToInt network) &&& mask4 length := by
  rw [masked4_iff hlength, ← take_bitsOf_eq_iff hlength, ← addressBits_v4 h, ← addressBits_v4 h']
  exact and_iff_right rfl

theorem inRange_v6 {groups network : List ℕ} (h : IsAddress groups) (h' : IsAddress network)
    {length : ℕ} (hlength : length ≤ 128) :
    InRange (.v6 groups) (.v6 network, length) ↔
      ipv6ToBigint groups &&& mask6 length = ipv6ToBigint network &&& mask6 length := by
  rw [masked6_iff hlength, ← take_bitsOf_eq_iff hlength, ← addressBits_v6 h, ← addressBits_v6 h']
  exact and_iff_right rfl

/-- **Membership is equality of leading bits**, for every text of an address and every range. -/
theorem ipInCidr_iff (ip range : JsString) :
    ipInCidr ip range = true ↔
      ∃ address network length, addressOf ip = some address ∧
        cidrOf range = some (network, length) ∧ InRange address (network, length) := by
  rw [ipInCidr, parseCidr_eq]
  cases hrange : cidrOf range with
  | none => simp
  | some parsed =>
    obtain ⟨network, length⟩ := parsed
    obtain ⟨-, hvalid, -, hlength⟩ := cidrOf_spec hrange
    cases network with
    | v4 network =>
      dsimp only [Option.map_some, toCidr]
      cases hfour : parseIpv4 (stripBrackets (trim ip)) with
      | none =>
        refine iff_of_false (by simp) ?_
        rintro ⟨address, _, _, haddress, hsame, hfamily, -⟩
        obtain ⟨rfl, rfl⟩ := Prod.mk.inj (Option.some.inj hsame)
        cases address with
        | v4 octets => rw [addressOf_v4.2 haddress] at hfour; cases hfour
        | v6 groups => exact absurd hfamily (by simp [familyWidth])
      | some octets =>
        have haddress := addressOf_v4.1 hfour
        have hin := inRange_v4 (isIpv4_of_parseIpv4 hfour).1 hvalid hlength
        rw [decide_eq_true_eq, ← hin]
        constructor
        · exact fun h => ⟨_, _, _, haddress, rfl, h⟩
        · rintro ⟨address, _, _, hread, hsame, h⟩
          obtain ⟨rfl, rfl⟩ := Prod.mk.inj (Option.some.inj hsame)
          obtain rfl := Option.some.inj (haddress.symm.trans hread)
          exact h
    | v6 network =>
      dsimp only [Option.map_some, toCidr]
      cases hsix : parseIpv6Groups (stripZone (stripBrackets (trim ip))) with
      | none =>
        refine iff_of_false (by simp) ?_
        rintro ⟨address, _, _, haddress, hsame, hfamily, -⟩
        obtain ⟨rfl, rfl⟩ := Prod.mk.inj (Option.some.inj hsame)
        cases address with
        | v4 octets => exact absurd hfamily (by simp [familyWidth])
        | v6 groups => rw [addressOf_v6.2 haddress] at hsix; cases hsix
      | some groups =>
        have haddress := addressOf_v6.1 hsix
        have hin := inRange_v6 (parseIpv6Groups_eq_some.1 hsix).isAddress hvalid hlength
        rw [decide_eq_true_eq, ← hin]
        constructor
        · exact fun h => ⟨_, _, _, haddress, rfl, h⟩
        · rintro ⟨address, _, _, hread, hsame, h⟩
          obtain ⟨rfl, rfl⟩ := Prod.mk.inj (Option.some.inj hsame)
          obtain rfl := Option.some.inj (haddress.symm.trans hread)
          exact h

/-! ## White space and zones -/

theorem dropWhile_append_cons {p : UInt16 → Bool} {u : UInt16} (hu : p u = false)
    (front back : JsString) :
    (front ++ u :: back).dropWhile p = front.dropWhile p ++ u :: back := by
  rw [List.dropWhile_append]
  split
  · rename_i hempty
    rw [List.isEmpty_iff.1 hempty, List.dropWhile_cons_of_neg (by simp [hu])]
    rfl
  · rfl

theorem rdropWhile_append_cons {p : UInt16 → Bool} {u : UInt16} (hu : p u = false)
    (front back : JsString) :
    (front ++ u :: back).rdropWhile p = front ++ u :: back.rdropWhile p := by
  simp only [List.rdropWhile, List.reverse_append, List.reverse_cons, List.append_assoc,
    List.singleton_append, dropWhile_append_cons hu, List.reverse_reverse]

/-- Trimming around a unit that is no space trims the two sides. -/
theorem trim_append_cons {u : UInt16} (hu : isSpace u = false) (front back : JsString) :
    trim (front ++ u :: back) = trimStart front ++ u :: back.rdropWhile isSpace := by
  rw [trim, trimStart, dropWhile_append_cons hu, rdropWhile_append_cons hu]
  rfl

theorem trim_trimStart (text : JsString) : trim (trimStart text) = trim text := by
  rw [trim, trim, trimStart, trimStart, List.dropWhile_idempotent]

theorem trim_trim (text : JsString) : trim (trim text) = trim text := by
  have hstart : trimStart (trim text) = trim text := by
    by_cases hempty : trim text = []
    · rw [hempty]
      rfl
    · obtain ⟨u, rest, hcons⟩ := List.exists_cons_of_ne_nil hempty
      -- the first unit was kept by `trimStart`
      have hprefix : trim text <+: trimStart text := List.rdropWhile_prefix ..
      obtain ⟨more, hmore⟩ := hprefix
      rw [hcons] at hmore
      have hhead := List.head?_dropWhile_not isSpace text
      rw [← trimStart, ← hmore] at hhead
      have hspace : isSpace u = false := by simpa using hhead
      rw [hcons, trimStart, List.dropWhile_cons_of_neg (by simp [hspace])]
  rw [trim, hstart, trim, List.rdropWhile_idempotent]

theorem stripBrackets_cons {u : UInt16} (hu : u ≠ unit '[') (text : JsString) :
    stripBrackets (u :: text) = u :: text := by
  have hstart : startsWith (u :: text) (js "[") = false := by
    have hone : js "[" = [unit '['] := rfl
    simp [startsWith, hone, List.isPrefixOf, Ne.symm hu]
  rw [stripBrackets, hstart]
  rfl

theorem trim_of_brackets {text : JsString}
    (h : (startsWith text (js "[") && endsWith text (js "]")) = true) : trim text = text := by
  rw [Bool.and_eq_true] at h
  obtain ⟨rest, hrest⟩ := List.isPrefixOf_iff_prefix.1 h.1
  obtain ⟨front, hfront⟩ := List.isSuffixOf_iff_suffix.1 h.2
  have hopen : js "[" = [unit '['] := rfl
  have hclose : js "]" = [unit ']'] := rfl
  rw [hopen] at hrest
  rw [hclose] at hfront
  rw [← hfront, trim_append_cons (by decide)]
  cases front with
  | nil =>
    rw [← hrest] at hfront
    exact absurd (List.cons.inj hfront).1 (by decide)
  | cons u front =>
    have hu : u = unit '[' := by
      rw [← hrest] at hfront
      exact (List.cons.inj hfront).1
    subst hu
    rw [trimStart, List.dropWhile_cons_of_neg (by decide)]
    rfl

/-- What stands before a zone is not changed by trimming. -/
theorem strip_trim {text : JsString} (h : ∀ u ∈ stripZone (stripBrackets text), AddressUnit u)
    (hne : stripZone (stripBrackets text) ≠ []) :
    stripZone (stripBrackets (trim text)) = stripZone (stripBrackets text) := by
  cases hbrackets : startsWith text (js "[") && endsWith text (js "]") with
  | true => rw [trim_of_brackets hbrackets]
  | false =>
    have hbare : stripBrackets text = text := by
      rw [stripBrackets, hbrackets]
      rfl
    rw [hbare] at h hne ⊢
    have hparts : stripZone text ++ text.dropWhile (· ≠ unit '%') = text :=
      List.takeWhile_append_dropWhile
    cases hrest : text.dropWhile (· ≠ unit '%') with
    | nil =>
      rw [hrest, List.append_nil] at hparts
      rw [hparts] at h
      rw [trim_of_forall h, hbare]
    | cons v zone =>
      have hv : v = unit '%' := by
        have hhead := List.head?_dropWhile_not (· ≠ unit '%') text
        rw [hrest] at hhead
        simpa using hhead
      subst hv
      rw [hrest] at hparts
      generalize hbefore : stripZone text = before at h hne hparts ⊢
      have hstart : trimStart before = before := by
        rw [trimStart, List.dropWhile_eq_self_iff]
        intro hl
        rw [isSpace_of_addressUnit (h _ (List.getElem_mem hl))]
        decide
      have htrim : trim text = before ++ unit '%' :: zone.rdropWhile isSpace := by
        rw [← hparts, trim_append_cons (by decide), hstart]
      obtain ⟨u, more, rfl⟩ := List.exists_cons_of_ne_nil hne
      have hopen : u ≠ unit '[' := by
        rintro rfl
        exact absurd (h _ List.mem_cons_self) (by simp [AddressUnit]; decide)
      have hzone : ∀ w ∈ u :: more, decide (w ≠ unit '%') = true := by
        intro w hw
        rw [decide_eq_true_eq]
        rintro rfl
        exact absurd (h _ hw) (by simp [AddressUnit]; decide)
      rw [htrim, List.cons_append, stripBrackets_cons hopen, ← List.cons_append, stripZone,
        List.takeWhile_append_of_pos hzone, List.takeWhile_cons_of_neg (by simp),
        List.append_nil]

/-- The check of a range and the canonical form read the same address. -/
theorem parseIp_of_readAddress {text : JsString} {address : IpAddress}
    (h : readAddress text = some address) : parseIp text = some address := by
  rw [readAddress] at h
  split at h
  · rename_i octets hfour
    obtain rfl := Option.some.inj h
    have hunits : ∀ u ∈ text, AddressUnit u := by
      intro u hu
      refine .inr (((isIpv4_of_parseIpv4 hfour).2 u hu).imp_right fun hdigit => ?_)
      rw [hexValue, if_pos hdigit]
      rfl
    rw [parseIp, trim_of_forall hunits, strip_of_forall hunits, hfour]
  · obtain ⟨groups, hgroups, rfl⟩ := Option.map_eq_some_iff.1 h
    have hdenotes := parseIpv6Groups_eq_some.1 hgroups
    have hne := List.ne_nil_of_mem hdenotes.colon_mem
    rw [parseIp_eq_v6, bareText, strip_trim hdenotes.units hne,
      strip_of_forall hdenotes.units]
    exact hdenotes

/-! ## Normalisation -/

/-- A text without a slash, or the parts around its last slash. -/
theorem slash_cases (range : JsString) :
    unit '/' ∉ range ∨ ∃ ip raw, range = ip ++ unit '/' :: raw ∧ unit '/' ∉ raw := by
  by_cases hmem : unit '/' ∈ range
  · obtain ⟨back, front, hreverse, hback⟩ := List.eq_append_cons_of_mem (List.mem_reverse.2 hmem)
    refine .inr ⟨front.reverse, back.reverse, ?_, by simpa using hback⟩
    rw [← List.reverse_reverse range, hreverse]
    simp
  · exact .inl hmem

theorem cutLast_of_notMem {u : UInt16} {text : JsString} (h : u ∉ text) : cutLast u text = none := by
  have hnone : text.reverse.idxOf? u = none := by simpa [List.idxOf?_eq_none_iff] using h
  simp [cutLast, cut, hnone]

theorem splitRange_bare {range : JsString} (h : unit '/' ∉ range) :
    splitRange range = (trim range, none) := by
  have htrim : unit '/' ∉ trim range := fun hmem =>
    h ((List.dropWhile_sublist isSpace).subset ((List.rdropWhile_prefix isSpace _).subset hmem))
  rw [splitRange, cutLast_of_notMem htrim]

theorem splitRange_slash (ip : JsString) {raw : JsString} (h : unit '/' ∉ raw) :
    splitRange (ip ++ unit '/' :: raw) = (trimStart ip, some (raw.rdropWhile isSpace)) := by
  have hraw : unit '/' ∉ raw.rdropWhile isSpace := fun hmem =>
    h ((List.rdropWhile_prefix isSpace _).subset hmem)
  rw [splitRange, trim_append_cons (by decide), cutLast_append hraw]

theorem parseIp_trimStart (text : JsString) : parseIp (trimStart text) = parseIp text := by
  rw [parseIp, parseIp, trim_trimStart]

theorem parseIp_trim (text : JsString) : parseIp (trim text) = parseIp text := by
  rw [parseIp, parseIp, trim_trim]

/-- Stars are not part of the text of a range with an address. -/
theorem ne_star_of_readAddress {range : JsString} {network : IpAddress}
    (h : readAddress (splitRange range).1 = some network) : range ≠ js "*" := by
  rintro rfl
  exact absurd h (by rw [show readAddress (splitRange (js "*")).1 = none by decide]; nofun)

theorem normalizeCidr_bare {range : JsString} {network : IpAddress} (hslash : unit '/' ∉ range)
    (h : readAddress (trim range) = some network) : normalizeCidr range = network.format := by
  have hstar : range ≠ js "*" := ne_star_of_readAddress (by rwa [splitRange_bare hslash])
  have hread := parseIp_of_readAddress h
  rw [parseIp_trim] at hread
  rw [normalizeCidr, if_neg hstar, cutLast_of_notMem hslash]
  simp [canonicalizeIp_eq, hread]

theorem normalizeCidr_slash {ip raw : JsString} {network : IpAddress} (hraw : unit '/' ∉ raw)
    (h : readAddress (trimStart ip) = some network) :
    normalizeCidr (ip ++ unit '/' :: raw) = network.format ++ unit '/' :: raw := by
  have hstar : ip ++ unit '/' :: raw ≠ js "*" :=
    ne_star_of_readAddress (by rwa [splitRange_slash ip hraw])
  have hread := parseIp_of_readAddress h
  rw [parseIp_trimStart] at hread
  rw [normalizeCidr, if_neg hstar, cutLast_append hraw]
  simp [canonicalizeIp_eq, hread]

theorem units_format {address : IpAddress} (h : ValidAddress address) :
    ∀ u ∈ address.format, AddressUnit u := by
  cases address with
  | v4 octets =>
    intro u hu
    refine .inr ((mem_dotted hu).imp_right fun hdigit => ?_)
    rw [hexValue, if_pos hdigit]
    rfl
  | v6 groups => exact (denotes_formatIpv6 h).units

theorem slash_notMem_format {address : IpAddress} (h : ValidAddress address) :
    unit '/' ∉ address.format := fun hmem =>
  absurd (units_format h _ hmem) (by simp [AddressUnit]; decide)

theorem readAddress_format {address : IpAddress} (h : ValidAddress address) :
    readAddress address.format = some address := by
  cases address with
  | v4 octets => simp [readAddress, IpAddress.format, parseIpv4_dotted h]
  | v6 groups =>
    have hfour : parseIpv4 (formatIpv6 groups) = none := by
      rw [Option.eq_none_iff_forall_ne_some]
      intro octets hoctets
      rcases (isIpv4_of_parseIpv4 hoctets).2 _ (denotes_formatIpv6 h).colon_mem with
        hdot | hdigit
      · exact absurd hdot (by decide)
      · exact absurd hdigit (by decide)
    simp [readAddress, IpAddress.format, hfour, parseIpv6Groups_formatIpv6 h]

theorem trimStart_format {address : IpAddress} (h : ValidAddress address) :
    trimStart address.format = address.format := by
  rw [trimStart, List.dropWhile_eq_self_iff]
  intro hl
  rw [isSpace_of_addressUnit (units_format h _ (List.getElem_mem hl))]
  decide

/-- **A normalised range** is read as it was and is its own normal form. -/
theorem cidrOf_normalizeCidr {range : JsString} {network : IpAddress} {length : ℕ}
    (h : cidrOf range = some (network, length)) :
    cidrOf (normalizeCidr range) = some (network, length) ∧
      normalizeCidr (normalizeCidr range) = normalizeCidr range := by
  obtain ⟨hread, hvalid, hlength, -⟩ := cidrOf_spec h
  have hagain := readAddress_format hvalid
  rcases slash_cases range with hslash | ⟨ip, raw, rfl, hraw⟩
  · rw [splitRange_bare hslash] at hread hlength
    have hformat := slash_notMem_format hvalid
    have htrim := trim_of_forall (units_format hvalid)
    rw [normalizeCidr_bare hslash hread]
    refine ⟨?_, normalizeCidr_bare hformat (by rw [htrim, hagain])⟩
    simp [cidrOf, splitRange_bare hformat, htrim, hagain, hlength]
  · rw [splitRange_slash ip hraw] at hread hlength
    have hstart := trimStart_format hvalid
    rw [normalizeCidr_slash hraw hread]
    refine ⟨?_, normalizeCidr_slash hraw (by rw [hstart, hagain])⟩
    simp [cidrOf, splitRange_slash _ hraw, hstart, hagain, hlength]

/-! ## Ranges of a policy -/

/-- What the check lets pass: all addresses, or a range that can be read. -/
theorem accepted_cases {range : JsString} (h : checkSrcIpRange (.str range) = .ok ()) :
    range = js "*" ∨ ∃ network length, cidrOf range = some (network, length) := by
  rw [checkSrcIpRange] at h
  split at h
  · rename_i haccepted
    rw [Bool.or_eq_true, decide_eq_true_eq] at haccepted
    refine haccepted.imp_right fun hvalid => ?_
    rw [isValidCidr, parseCidr_eq, Option.isSome_map] at hvalid
    obtain ⟨⟨network, length⟩, hparsed⟩ := Option.isSome_iff_exists.1 hvalid
    exact ⟨network, length, hparsed⟩
  · cases h

/-- **Membership in a range**: for every text and every range the check of a policy lets pass, the
comparison under a mask says whether the text is an address of the same family with the same first
bits. The normal form of the range has the same members and is its own normal form. -/
theorem cidr_membership {range : JsString} (haccepted : checkSrcIpRange (.str range) = .ok ()) :
    (∀ ip, ipInCidr ip range = true ↔
      ∃ address network length, addressOf ip = some address ∧
        cidrOf range = some (network, length) ∧ InRange address (network, length)) ∧
    (∀ ip, ipInCidr ip (normalizeCidr range) = ipInCidr ip range) ∧
    normalizeCidr (normalizeCidr range) = normalizeCidr range := by
  refine ⟨fun ip => ipInCidr_iff ip range, ?_⟩
  rcases accepted_cases haccepted with rfl | ⟨network, length, hrange⟩
  · have hstar : normalizeCidr (js "*") = js "*" := if_pos rfl
    rw [hstar, hstar]
    exact ⟨fun ip => rfl, rfl⟩
  · obtain ⟨hsame, hagain⟩ := cidrOf_normalizeCidr hrange
    refine ⟨fun ip => Bool.eq_iff_iff.2 ?_, hagain⟩
    rw [ipInCidr_iff, ipInCidr_iff, hsame, hrange]

theorem cidr_membership_private :
    checkSrcIpRange (.str " 010.0.0.0/8") ≠ .ok () ∧ checkSrcIpRange (.str "10.1.2.3/9") = .ok () ∧
      ipInCidr "10.127.255.255" "10.1.2.3/9" = true ∧
      ipInCidr "10.128.0.0" "10.1.2.3/9" = false ∧
      normalizeCidr (normalizeCidr "2001:DB8:0::/33") = normalizeCidr "2001:DB8:0::/33" :=
  ⟨by decide, by decide +kernel,
    ((@cidr_membership "10.1.2.3/9" (by decide +kernel)).1 "10.127.255.255").2
      ⟨.v4 (10, 127, 255, 255), .v4 (10, 1, 2, 3), 9, by decide +kernel, by decide +kernel,
        by decide +kernel⟩, by decide +kernel,
    (@cidr_membership "2001:DB8:0::/33" (by decide +kernel)).2.2⟩

end Kinglet.Compute
