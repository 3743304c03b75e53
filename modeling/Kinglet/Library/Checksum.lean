import Mathlib.Algebra.Group.Nat.Defs

/-!
# Reflected cyclic redundancy checks

A cyclic redundancy check keeps the remainder of the message read so far modulo a polynomial. The
reflected form keeps that remainder, and the polynomial, with the highest power in the lowest bit.
A message is its bits in the order in which they are sent.

## Strategy

A shift of the remainder is linear in exclusive or, and a remainder whose low `n` bits are clear
only moves down in `n` shifts. So `n` shifts of a remainder are those of its low `n` bits, which a
table can hold, and the remainder moved down `n` places. Taking in `n` bits is `n` shifts of the
remainder with these bits laid over it.
-/

namespace Kinglet.Library.Checksum

variable {w : ℕ}

/-- The remainder after one zero bit. -/
def shift (poly r : BitVec w) : BitVec w :=
  if r.getLsbD 0 then (r >>> 1) ^^^ poly else r >>> 1

/-- The remainder after `n` zero bits. -/
def shifts (poly : BitVec w) : ℕ → BitVec w → BitVec w
  | 0, r => r
  | n + 1, r => shifts poly n (shift poly r)

/-- The remainder after the bit `b`. -/
def feed (poly r : BitVec w) (b : Bool) : BitVec w :=
  if r.getLsbD 0 ^^ b then (r >>> 1) ^^^ poly else r >>> 1

/-- The low `n` bits of `x`, the lowest first. -/
def bits : ℕ → BitVec w → List Bool
  | 0, _ => []
  | n + 1, x => x.getLsbD 0 :: bits n (x >>> 1)

/-- The low `n` bits set. -/
def mask (n : ℕ) : BitVec w := BitVec.ofNat w (2 ^ n - 1)

/-- The remainder after `n` bits that stand in `x`, with the shifts of low bits as a table holds
them. -/
def tableStep (poly : BitVec w) (n : ℕ) (r x : BitVec w) : BitVec w :=
  (r >>> n) ^^^ shifts poly n ((r ^^^ x) &&& mask n)

variable {poly r x y : BitVec w} {n : ℕ} {b : Bool}

/-! ## Shifts are linear -/

theorem shift_xor (x y : BitVec w) : shift poly (x ^^^ y) = shift poly x ^^^ shift poly y := by
  unfold shift
  rw [BitVec.getLsbD_xor, BitVec.ushiftRight_xor_distrib]
  cases hx : x.getLsbD 0 <;> cases hy : y.getLsbD 0
  · rfl
  · simp only [Bool.false_xor, if_true, Bool.false_eq_true, if_false]
    ac_rfl
  · simp only [Bool.xor_false, if_true, Bool.false_eq_true, if_false]
    ac_rfl
  · -- both add the polynomial, which cancels
    simp only [Bool.xor_self, if_true, Bool.false_eq_true, if_false]
    calc (x >>> 1) ^^^ (y >>> 1)
        = ((x >>> 1) ^^^ (y >>> 1)) ^^^ (poly ^^^ poly) := by simp
      _ = ((x >>> 1) ^^^ poly) ^^^ ((y >>> 1) ^^^ poly) := by ac_rfl

theorem shifts_xor (n : ℕ) (x y : BitVec w) :
    shifts poly n (x ^^^ y) = shifts poly n x ^^^ shifts poly n y := by
  induction n generalizing x y with
  | zero => rfl
  | succ n ih => simp only [shifts, shift_xor, ih]

/-- A remainder whose low `n` bits are clear only moves down in `n` shifts. -/
theorem shifts_of_clear (hclear : ∀ i < n, y.getLsbD i = false) : shifts poly n y = y >>> n := by
  induction n generalizing y with
  | zero => simp [shifts]
  | succ n ih =>
    have hlow : shift poly y = y >>> 1 := by simp [shift, hclear 0 (by omega)]
    have hrest : ∀ i < n, (y >>> 1).getLsbD i = false := by
      intro i hi
      rw [BitVec.getLsbD_ushiftRight]
      exact hclear (1 + i) (by omega)
    rw [shifts, hlow, ih hrest, ← BitVec.shiftRight_add, Nat.add_comm]

theorem getLsbD_mask (n i : ℕ) : (mask n : BitVec w).getLsbD i = decide (i < w ∧ i < n) := by
  rw [mask, BitVec.getLsbD_ofNat, Nat.testBit_two_pow_sub_one, Bool.decide_and]

theorem shifts_split (n : ℕ) (x : BitVec w) :
    shifts poly n x = (x >>> n) ^^^ shifts poly n (x &&& mask n) := by
  have hsplit : x = (x &&& ~~~mask n) ^^^ (x &&& mask n) := by
    apply BitVec.eq_of_getLsbD_eq
    intro i hi
    simp only [BitVec.getLsbD_xor, BitVec.getLsbD_and, BitVec.getLsbD_not]
    cases x.getLsbD i <;> cases (mask n : BitVec w).getLsbD i <;> simp [hi]
  have hclear : ∀ i < n, (x &&& ~~~mask n).getLsbD i = false := by
    intro i hi
    rw [BitVec.getLsbD_and, BitVec.getLsbD_not, getLsbD_mask]
    by_cases hw : i < w <;> simp [hw, hi]
  have hdown : (x &&& ~~~mask n) >>> n = x >>> n := by
    apply BitVec.eq_of_getLsbD_eq
    intro i hi
    rw [BitVec.getLsbD_ushiftRight, BitVec.getLsbD_ushiftRight, BitVec.getLsbD_and,
      BitVec.getLsbD_not, getLsbD_mask]
    by_cases hw : n + i < w
    · simp [hw]
    · simp [BitVec.getLsbD_of_ge x (n + i) (by omega)]
  calc shifts poly n x
      = shifts poly n ((x &&& ~~~mask n) ^^^ (x &&& mask n)) := by rw [← hsplit]
    _ = (x >>> n) ^^^ shifts poly n (x &&& mask n) := by
        rw [shifts_xor, shifts_of_clear hclear, hdown]

/-! ## Bits through shifts and tables -/

theorem feed_eq (poly r x : BitVec w) :
    feed poly r (x.getLsbD 0) = shift poly (r ^^^ x) ^^^ (x >>> 1) := by
  unfold feed shift
  rw [BitVec.getLsbD_xor, BitVec.ushiftRight_xor_distrib]
  have hback : ∀ z : BitVec w, z = (z ^^^ (x >>> 1)) ^^^ (x >>> 1) := by
    intro z
    rw [BitVec.xor_assoc, BitVec.xor_self, BitVec.xor_zero]
  split
  · rw [hback ((r >>> 1) ^^^ poly)]
    ac_rfl
  · exact hback _

theorem foldl_feed_bits (hx : x >>> n = 0) :
    (bits n x).foldl (feed poly) r = shifts poly n (r ^^^ x) := by
  induction n generalizing r x with
  | zero =>
    rw [BitVec.ushiftRight_zero] at hx
    subst hx
    simp [bits, shifts]
  | succ n ih =>
    have hrest : (x >>> 1) >>> n = 0 := by rw [← BitVec.shiftRight_add, Nat.add_comm, hx]
    calc (bits (n + 1) x).foldl (feed poly) r
        = (bits n (x >>> 1)).foldl (feed poly) (feed poly r (x.getLsbD 0)) := rfl
      _ = shifts poly n (feed poly r (x.getLsbD 0) ^^^ (x >>> 1)) := ih hrest
      _ = shifts poly n (shift poly (r ^^^ x)) := by
          rw [feed_eq, BitVec.xor_assoc, BitVec.xor_self, BitVec.xor_zero]

/-- Taking in `n` bits one by one is one step by the table. -/
theorem foldl_feed_eq_tableStep (hx : x >>> n = 0) :
    (bits n x).foldl (feed poly) r = tableStep poly n r x := by
  rw [foldl_feed_bits hx, shifts_split, tableStep, BitVec.ushiftRight_xor_distrib, hx]
  simp

/-- A message in chunks of `n` bits, taken in bit by bit or chunk by chunk. -/
theorem foldl_feed_flatMap (chunks : List (BitVec w)) (hchunks : ∀ x ∈ chunks, x >>> n = 0)
    (r : BitVec w) :
    (chunks.flatMap (bits n)).foldl (feed poly) r = chunks.foldl (tableStep poly n) r := by
  induction chunks generalizing r with
  | nil => rfl
  | cons x chunks ih =>
    rw [List.flatMap_cons, List.foldl_append, List.foldl_cons,
      foldl_feed_eq_tableStep (hchunks x List.mem_cons_self)]
    exact ih (fun y hy => hchunks y (List.mem_cons_of_mem _ hy)) _

/-! ## Bursts -/

theorem feed_eq_shift (r : BitVec w) (b : Bool) :
    feed poly r b = shift poly r ^^^ if b then poly else 0 := by
  unfold feed shift
  cases r.getLsbD 0 <;> cases b <;> simp [BitVec.xor_assoc]

theorem feed_xor (r r' : BitVec w) (b b' : Bool) :
    feed poly r b ^^^ feed poly r' b' = feed poly (r ^^^ r') (b ^^ b') := by
  have hbits : (if b then poly else 0) ^^^ (if b' then poly else 0) = if b ^^ b' then poly else 0 := by
    cases b <;> cases b' <;> simp
  rw [feed_eq_shift, feed_eq_shift, feed_eq_shift, shift_xor, ← hbits]
  ac_rfl

theorem msb_shiftRight_xor (hpoly : poly.msb = true) (r : BitVec w) :
    ((r >>> 1) ^^^ poly).msb = true := by
  simp [hpoly]

/-- A bit takes a remainder down by one place at most: the polynomial fills the highest place. -/
theorem le_feed (hpoly : poly.msb = true) (h : 2 ^ (n + 1) ≤ r.toNat) :
    2 ^ n ≤ (feed poly r b).toNat := by
  have hlt := r.isLt
  unfold feed
  split
  · -- a shift leaves the highest place free, and the polynomial sets it
    have hmsb := msb_shiftRight_xor hpoly r
    rw [BitVec.msb_eq_true_iff_two_mul_ge] at hmsb
    omega
  · rw [BitVec.toNat_ushiftRight, Nat.shiftRight_eq_div_pow]
    omega

/-- The remainder before a bit can be told from the one after it. -/
theorem feed_injective (hpoly : poly.msb = true) (b : Bool) :
    Function.Injective fun r => feed poly r b := by
  intro r r' (h : feed poly r b = feed poly r' b)
  have hzero : feed poly (r ^^^ r') false = 0#w := by
    rw [← Bool.xor_self b, ← feed_xor, h, BitVec.xor_self]
  unfold feed at hzero
  split at hzero
  · have hmsb := msb_shiftRight_xor hpoly (r ^^^ r')
    rw [hzero] at hmsb
    simp at hmsb
  · rename_i hlow
    refine BitVec.xor_eq_zero_iff.1 (BitVec.eq_of_getLsbD_eq fun i hi => ?_)
    cases i with
    | zero => simpa using hlow
    | succ i => simpa [Nat.add_comm] using congrArg (fun z => z.getLsbD i) hzero

/-- Remainders that differ in a high place differ after that many bits. -/
theorem foldl_feed_ne {bits bits' : List Bool} (hpoly : poly.msb = true)
    (hlength : bits.length = bits'.length) {r r' : BitVec w} (h : 2 ^ bits.length ≤ (r ^^^ r').toNat) :
    bits.foldl (feed poly) r ≠ bits'.foldl (feed poly) r' := by
  induction bits generalizing bits' r r' with
  | nil =>
    obtain rfl := List.eq_nil_of_length_eq_zero hlength.symm
    rintro rfl
    simp at h
  | cons b bits ih =>
    cases bits' with
    | nil => cases hlength
    | cons b' bits' =>
      rw [List.foldl_cons, List.foldl_cons]
      refine ih (by simpa using hlength) ?_
      rw [feed_xor]
      exact le_feed hpoly h

/-- Bursts that fit in the remainder leave different remainders. -/
theorem foldl_feed_burst {burst burst' : List Bool} (hpoly : poly.msb = true)
    (hlength : burst.length = burst'.length) (hshort : burst.length ≤ w) (hne : burst ≠ burst')
    (r : BitVec w) : burst.foldl (feed poly) r ≠ burst'.foldl (feed poly) r := by
  induction burst generalizing burst' r with
  | nil => exact absurd (List.eq_nil_of_length_eq_zero hlength.symm).symm hne
  | cons b burst ih =>
    cases burst' with
    | nil => cases hlength
    | cons b' burst' =>
      rw [List.foldl_cons, List.foldl_cons]
      rw [List.length_cons, List.length_cons, Nat.succ_inj] at hlength
      by_cases hb : b = b'
      · -- the first bits tell nothing apart
        subst hb
        exact ih hlength (Nat.le_of_succ_le hshort) (fun h => hne (congrArg _ h)) _
      · -- the remainders now differ by the polynomial, which is too high for the bits that are left
        have hfirst : feed poly r b ^^^ feed poly r b' = poly := by
          rw [feed_xor, BitVec.xor_self]
          simp [feed, hb]
        rw [BitVec.msb_eq_true_iff_two_mul_ge] at hpoly
        have hpow : 2 ^ (burst.length + 1) ≤ 2 ^ w := Nat.pow_le_pow_right (by decide) hshort
        refine foldl_feed_ne (by rwa [BitVec.msb_eq_true_iff_two_mul_ge]) hlength ?_
        rw [hfirst]
        omega

theorem foldl_feed_injective (hpoly : poly.msb = true) (bits : List Bool) :
    Function.Injective fun r => bits.foldl (feed poly) r := by
  induction bits with
  | nil => exact fun _ _ h => h
  | cons b bits ih => exact ih.comp (feed_injective hpoly b)

end Kinglet.Library.Checksum
