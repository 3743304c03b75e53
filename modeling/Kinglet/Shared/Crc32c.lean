import Kinglet.Library.Checksum
import Mathlib.Data.Int.Notation
import Mathlib.Data.List.Basic

/-!
# CRC32C

The table-driven checksums of the key operations and of the stored objects. Their numbers are the
integers that the 32-bit operators of JavaScript give: signed ones, but unsigned ones for `>>>`.

## Strategy

Each operator is the one on bit vectors, read as a number again, so the whole loop runs on the bit
vectors that its numbers stand for. There it is the step by table of a reflected check.
-/

namespace Kinglet.Shared.Crc32c

open Library.Checksum

/-! ## 32-bit operators -/

/-- The bits of a number as a 32-bit operator takes them. -/
def toInt32 (x : ℤ) : BitVec 32 := BitVec.ofInt 32 x

/-- `x ^ y`. -/
def bitXor (x y : ℤ) : ℤ := (toInt32 x ^^^ toInt32 y).toInt

/-- `x & y`. -/
def bitAnd (x y : ℤ) : ℤ := (toInt32 x &&& toInt32 y).toInt

/-- `x >>> n`. -/
def shiftRight (x : ℤ) (n : ℕ) : ℤ := (toInt32 x >>> n).toNat

/-! ## The source -/

/-- The inner loop of `initCrc32cTable`, with the rounds that are left. -/
def shiftLoop : ℕ → ℤ → ℤ
  | 0, crc => crc
  | rounds + 1, crc =>
      shiftLoop rounds
        (if bitAnd crc 1 ≠ 0 then bitXor (shiftRight crc 1) 0x82f63b78 else shiftRight crc 1)

/-- `initCrc32cTable()`; the array keeps its elements as unsigned numbers. -/
def initCrc32cTable : List ℤ :=
  (List.range 256).map fun i : ℕ => ((toInt32 (shiftLoop 8 i)).toNat : ℤ)

/-- One round of the loop over the data. An element that is not there counts as zero. -/
def tableRound (table : List ℤ) (crc : ℤ) (byte : UInt8) : ℤ :=
  bitXor (shiftRight crc 8)
    (table.getD (bitAnd (bitXor crc byte.toNat) 0xff).toNat 0)

/-- The checksum by a table. -/
def checksumBy (table : List ℤ) (data : List UInt8) : ℤ :=
  shiftRight (bitXor (data.foldl (tableRound table) 0xffffffff) 0xffffffff) 0

/-- `CRC32C_TABLE` of the shared utilities. -/
def crc32cTable : List ℤ := initCrc32cTable

/-- `crc32c(data)` of the shared utilities. -/
def crc32c (data : List UInt8) : ℤ := checksumBy crc32cTable data

/-- `CRC32C_TABLE` of the blob store. -/
def blobStoreTable : List ℤ := initCrc32cTable

/-- `computeCrc32c(data)` of the blob store. -/
def computeCrc32c (data : List UInt8) : ℤ := checksumBy blobStoreTable data

/-! ## The definition of the checksum -/

/-- The Castagnoli polynomial, without its highest power. -/
def castagnoli : BitVec 32 := 0x1EDC6F41

/-- The bits of a byte, the lowest first. -/
def byteBits (byte : UInt8) : List Bool := bits 8 byte.toBitVec

/-- CRC32C bit by bit: the remainder starts with all bits set, and all of them are inverted at the
end. -/
def castagnoliCrc (data : List UInt8) : BitVec 32 :=
  (data.flatMap byteBits).foldl (feed castagnoli.reverse) 0xFFFFFFFF ^^^ 0xFFFFFFFF

/-! ## Numbers and bit vectors -/

theorem toInt32_toInt (x : BitVec 32) : toInt32 x.toInt = x := BitVec.ofInt_toInt

theorem toInt32_natCast (n : ℕ) : toInt32 n = BitVec.ofNat 32 n := BitVec.ofInt_natCast 32 n

theorem toInt32_toNat (x : BitVec 32) : toInt32 x.toNat = x := by
  rw [toInt32_natCast, BitVec.ofNat_toNat, BitVec.setWidth_eq]

@[simp] theorem toInt32_bitXor (x y : ℤ) : toInt32 (bitXor x y) = toInt32 x ^^^ toInt32 y :=
  toInt32_toInt _

@[simp] theorem toInt32_shiftRight (x : ℤ) (n : ℕ) :
    toInt32 (shiftRight x n) = toInt32 x >>> n :=
  toInt32_toNat _

/-- The low bit as the condition of the loop reads it. -/
theorem bitAnd_one (x : ℤ) : bitAnd x 1 ≠ 0 ↔ (toInt32 x).getLsbD 0 = true := by
  have hone : toInt32 1 = 1#32 := by decide
  rw [bitAnd, hone, BitVec.and_one_eq_setWidth_ofBool_getLsbD]
  cases (toInt32 x).getLsbD 0 <;> decide

theorem toInt32_shiftLoop (rounds : ℕ) (crc : ℤ) :
    toInt32 (shiftLoop rounds crc) = shifts castagnoli.reverse rounds (toInt32 crc) := by
  have hpoly : toInt32 0x82f63b78 = castagnoli.reverse := by decide +kernel
  induction rounds generalizing crc with
  | zero => rfl
  | succ rounds ih =>
    rw [shiftLoop, ih, shifts, shift]
    by_cases hlow : (toInt32 crc).getLsbD 0 = true
    · rw [if_pos ((bitAnd_one crc).2 hlow), if_pos hlow, toInt32_bitXor, toInt32_shiftRight, hpoly]
    · rw [if_neg (mt (bitAnd_one crc).1 hlow), if_neg hlow, toInt32_shiftRight]

/-- The index of an element is never negative, nor beyond the table. -/
theorem toNat_bitAnd_mask (x : ℤ) :
    (bitAnd x 0xff).toNat < 256 ∧
      toInt32 ((bitAnd x 0xff).toNat : ℤ) = toInt32 x &&& mask 8 := by
  have hmask : toInt32 0xff = mask 8 := by decide
  have hlt : (toInt32 x &&& mask 8).toNat < 256 := by
    rw [BitVec.toNat_and]
    exact Nat.lt_of_le_of_lt Nat.and_le_right (by decide)
  have hsmall : 2 * (toInt32 x &&& mask 8).toNat < 2 ^ 32 := by omega
  have hvalue : bitAnd x 0xff = ((toInt32 x &&& mask 8).toNat : ℤ) := by
    rw [bitAnd, hmask, BitVec.toInt_eq_toNat_of_lt hsmall]
  rw [hvalue, Int.toNat_natCast]
  exact ⟨hlt, toInt32_toNat _⟩

theorem initCrc32cTable_getD {i : ℕ} (h : i < 256) :
    initCrc32cTable.getD i 0 = ((toInt32 (shiftLoop 8 i)).toNat : ℤ) := by
  unfold initCrc32cTable
  rw [List.getD_eq_getElem?_getD, List.getElem?_map, List.getElem?_range h]
  rfl

/-- One round is one step by the table of the reflected check. -/
theorem toInt32_tableRound (crc : ℤ) (byte : UInt8) :
    toInt32 (tableRound initCrc32cTable crc byte) =
      tableStep castagnoli.reverse 8 (toInt32 crc) (BitVec.ofNat 32 byte.toNat) := by
  obtain ⟨hlt, hindex⟩ := toNat_bitAnd_mask (bitXor crc byte.toNat)
  rw [tableRound, initCrc32cTable_getD hlt, toInt32_bitXor, toInt32_shiftRight, toInt32_toNat,
    toInt32_shiftLoop, hindex, toInt32_bitXor, toInt32_natCast]
  rfl

theorem toInt32_foldl_tableRound (data : List UInt8) (crc : ℤ) :
    toInt32 (data.foldl (tableRound initCrc32cTable) crc) =
      (data.map fun byte => BitVec.ofNat 32 byte.toNat).foldl
        (tableStep castagnoli.reverse 8) (toInt32 crc) := by
  induction data generalizing crc with
  | nil => rfl
  | cons byte data ih => rw [List.foldl_cons, ih, toInt32_tableRound, List.map_cons, List.foldl_cons]

/-! ## Both checksums are CRC32C -/

/-- The bits of a byte do not depend on the width of the vector that holds it. -/
theorem byteBits_eq (byte : UInt8) : bits 8 (BitVec.ofNat 32 byte.toNat) = byteBits byte := by
  have hbits : ∀ {w : ℕ} (n : ℕ) (x : BitVec w),
      bits n x = (List.range n).map fun i => x.getLsbD i := by
    intro w n
    induction n with
    | zero => intro x; rfl
    | succ n ih =>
      intro x
      rw [bits, ih, List.range_succ_eq_map, List.map_cons, List.map_map]
      refine congrArg _ (List.map_congr_left fun i _ => ?_)
      rw [BitVec.getLsbD_ushiftRight, Function.comp_apply, Nat.succ_eq_add_one, Nat.add_comm]
  rw [byteBits, hbits, hbits]
  refine List.map_congr_left fun i hi => ?_
  have hlt : i < 8 := List.mem_range.1 hi
  have hwide : i < 32 := by omega
  rw [BitVec.getLsbD_ofNat, decide_eq_true hwide, Bool.true_and]
  rfl

theorem checksumBy_initCrc32cTable (data : List UInt8) :
    checksumBy initCrc32cTable data = (castagnoliCrc data).toNat := by
  have hshort : ∀ x ∈ data.map (fun byte => BitVec.ofNat 32 byte.toNat), x >>> 8 = 0#32 := by
    intro x hx
    obtain ⟨byte, -, rfl⟩ := List.mem_map.1 hx
    have hbyte : byte.toNat < 2 ^ 8 := byte.toNat_lt
    apply BitVec.eq_of_toNat_eq
    rw [BitVec.toNat_ushiftRight, BitVec.toNat_ofNat, Nat.mod_eq_of_lt (by omega),
      Nat.shiftRight_eq_div_pow, Nat.div_eq_of_lt hbyte]
    rfl
  have hmessage : data.flatMap byteBits =
      (data.map fun byte => BitVec.ofNat 32 byte.toNat).flatMap (bits 8) := by
    rw [List.flatMap_map]
    exact List.flatMap_congr fun byte _ => (byteBits_eq byte).symm
  have hones : toInt32 0xffffffff = (0xFFFFFFFF : BitVec 32) := by decide
  calc checksumBy initCrc32cTable data
      = (toInt32 (data.foldl (tableRound initCrc32cTable) 0xffffffff) ^^^
          toInt32 0xffffffff).toNat := by
        rw [checksumBy, shiftRight, toInt32_bitXor, BitVec.ushiftRight_zero]
    _ = (castagnoliCrc data).toNat := by
        rw [toInt32_foldl_tableRound, hones, castagnoliCrc, hmessage,
          foldl_feed_flatMap _ hshort]

/-- **CRC32C.** Both table-driven checksums are, for all data, the reflected check by the Castagnoli
polynomial taken bit by bit. -/
theorem crc32c_eq_castagnoliCrc (data : List UInt8) :
    crc32c data = (castagnoliCrc data).toNat ∧ computeCrc32c data = (castagnoliCrc data).toNat ∧
      crc32c data = computeCrc32c data := by
  have hchecksum := checksumBy_initCrc32cTable data
  exact ⟨hchecksum, hchecksum, rfl⟩

/-! ## Damage -/

/-- The bits of the data differ, and only among some 32 that follow each other. -/
def Damaged (data data' : List UInt8) : Prop :=
  ∃ before burst burst' after, data.flatMap byteBits = before ++ burst ++ after ∧
    data'.flatMap byteBits = before ++ burst' ++ after ∧ burst.length = burst'.length ∧
    burst.length ≤ 32 ∧ burst ≠ burst'

theorem castagnoliCrc_ne {data data' : List UInt8} (h : Damaged data data') :
    castagnoliCrc data ≠ castagnoliCrc data' := by
  obtain ⟨before, burst, burst', after, hdata, hdata', hlength, hshort, hne⟩ := h
  have hpoly : castagnoli.reverse.msb = true := by decide +kernel
  intro hcrc
  rw [castagnoliCrc, castagnoliCrc, hdata, hdata', BitVec.xor_left_inj] at hcrc
  simp only [List.foldl_append] at hcrc
  exact foldl_feed_burst hpoly hlength hshort hne _ (foldl_feed_injective hpoly after hcrc)

theorem crc32c_eq (data : List UInt8) : crc32c data = (castagnoliCrc data).toNat :=
  checksumBy_initCrc32cTable data

example : crc32c [49, 50, 51, 52, 53, 54, 55, 56, 57] = 0xE3069283 := by decide +kernel

end Kinglet.Shared.Crc32c
