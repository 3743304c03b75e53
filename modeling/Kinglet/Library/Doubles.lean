import Mathlib.Algebra.Field.Rat
import Mathlib.Data.Int.Notation
import Mathlib.Data.Nat.Notation
import Mathlib.Tactic.Linarith
import Mathlib.Tactic.Ring

/-!
# The numbers of doubles

Every finite double is a multiple of `2 ^ -1074`, so that its number is an integer in that unit, and
the operations on doubles are operations on integers: comparison is their order, and sums and
differences are theirs, rounded to 53 binary digits. Of rounding two facts are enough here. A number
of at most 53 digits is not changed, and rounding does not pass such a number.

Only sums and differences that are not negative are treated.
-/

namespace Kinglet.Library.Doubles

open Float.Model Float.Model.UnpackedFloat

/-- The binary digits of `n` beyond the first 53. -/
def excess (n : ℕ) : ℕ := n.log2 - 52

/-- What rounding `n` to 53 binary digits promises of the result `r`. -/
structure RoundsTo (n r : ℕ) : Prop where
  floor_le : n / 2 ^ excess n * 2 ^ excess n ≤ r
  eq_of_dvd : 2 ^ excess n ∣ n → r = n

/-- A finite number as a multiple of `2 ^ -1074`. -/
def units : UnpackedFloat → Option ℤ
  | .zero _ => some 0
  | .finite sign m e _ => some (sign.apply (m * 2 ^ (e + 1074).toNat : ℕ))
  | .infinity _ | .notANumber => none

theorem units_finite (sign : Sign) (m : ℕ) (e : ℤ) (hm : 0 < m) :
    units (.finite sign m e hm) = some (sign.apply (m * 2 ^ (e + 1074).toNat : ℕ)) := rfl

/-- The numbers that `unpack` returns. -/
def Canonical : UnpackedFloat → Prop
  | .finite _ m e _ => -1074 ≤ e ∧ e ≤ 971 ∧ m < 2 ^ 53 ∧ (2 ^ 52 ≤ m ∨ e = -1074)
  | .zero _ | .infinity _ | .notANumber => True

/-! ### Shifting a mantissa -/

theorem shiftRight_succ (em : ExtendedMantissa) (s : ℕ) :
    em >>> (s + 1) = (em >>> s).shiftRightOne := rfl

theorem shiftRight_mantissa (em : ExtendedMantissa) (s : ℕ) :
    (em >>> s).mantissa = em.mantissa / 2 ^ s := by
  induction s with
  | zero => exact (Nat.div_one _).symm
  | succ s ih =>
    rw [shiftRight_succ, ExtendedMantissa.shiftRightOne, ih, pow_succ, Nat.div_div_eq_div_mul]

theorem shiftRight_of_dvd {m s : ℕ} (h : 2 ^ s ∣ m) :
    (⟨m, false, false⟩ : ExtendedMantissa) >>> s = ⟨m / 2 ^ s, false, false⟩ := by
  induction s with
  | zero => rw [pow_zero, Nat.div_one]; rfl
  | succ s ih =>
    have hs : 2 ^ s ∣ m := (pow_dvd_pow 2 (Nat.le_succ s)).trans h
    have heven : m / 2 ^ s % 2 = 0 := by
      apply Nat.mod_eq_zero_of_dvd
      exact (Nat.dvd_div_iff_mul_dvd hs).2 (by rwa [← pow_succ])
    rw [shiftRight_succ, ih hs, ExtendedMantissa.shiftRightOne]
    simp only [heven, pow_succ, Nat.div_div_eq_div_mul, bne_self_eq_false, Bool.or_self]

theorem le_roundedMantissa (em : ExtendedMantissa) :
    em.mantissa ≤ em.roundedMantissa ∧ em.roundedMantissa ≤ em.mantissa + 1 := by
  obtain ⟨m, r, s⟩ := em
  cases r <;> cases s <;>
    simp only [ExtendedMantissa.roundedMantissa, ExtendedMantissa.accuracy,
      Accuracy.roundToNearestEven] <;> omega

theorem targetExponent_eq (m : ℕ) (e : ℤ) :
    Format.binary64.targetExponent (totalExponent m e) = max (m.log2 + e - 52) (-1074) := by
  unfold Format.targetExponent totalExponent Format.minExponent Format.mantissaBits
  simp only
  omega


/-! ### Rounding -/

theorem log2_mul_two_pow {m : ℕ} (hm : m ≠ 0) (k : ℕ) : (m * 2 ^ k).log2 = m.log2 + k := by
  rw [Nat.log2_eq_iff (by positivity), pow_add, pow_succ, pow_add]
  constructor
  · exact Nat.mul_le_mul_right _ (Nat.log2_self_le hm)
  · calc m * 2 ^ k < 2 ^ (m.log2 + 1) * 2 ^ k :=
          (Nat.mul_lt_mul_right (by positivity)).2 Nat.lt_log2_self
      _ = 2 ^ m.log2 * 2 ^ k * 2 := by ring

theorem div_two_pow_excess_lt (n : ℕ) : n / 2 ^ excess n < 2 ^ 53 := by
  apply (Nat.div_lt_iff_lt_mul (by positivity)).2
  rw [← pow_add]
  exact Nat.lt_log2_self.trans_le (Nat.pow_le_pow_right (by decide) (by unfold excess; omega))

theorem le_div_two_pow_excess {n : ℕ} (hn : excess n ≠ 0) : 2 ^ 52 ≤ n / 2 ^ excess n := by
  apply (Nat.le_div_iff_mul_le (by positivity)).2
  rw [← pow_add]
  unfold excess at hn ⊢
  rw [show 52 + (n.log2 - 52) = n.log2 by omega]
  exact Nat.log2_self_le (by rintro rfl; exact hn rfl)

theorem shiftToTargetExponent_exact (m : ℕ) (e : ℤ) :
    shiftToTargetExponent .binary64 m e .exact =
      ((⟨m, false, false⟩ : ExtendedMantissa) >>> (max (m.log2 + e - 52) (-1074) - e).toNat,
        e + (max (m.log2 + e - 52) (-1074) - e).toNat) := by
  unfold shiftToTargetExponent
  rw [targetExponent_eq]
  rfl

/-- A rounded mantissa is shifted once more, by a digit when it has grown to 54 digits. -/
theorem shiftToTargetExponent_rounded {m j : ℕ} (hlow : 2 ^ 52 ≤ m ∨ j = 0) (hpos : 0 < m)
    (hhigh : m ≤ 2 ^ 53) (hj : j ≤ 2000) :
    ∃ em e, shiftToTargetExponent .binary64 m (j - 1074) .exact = (em, e) ∧ 0 < em.mantissa ∧
      em.mantissa * 2 ^ (e + 1074).toNat = m * 2 ^ j ∧
      -1074 ≤ e ∧ e ≤ 971 ∧ em.mantissa < 2 ^ 53 ∧ (2 ^ 52 ≤ em.mantissa ∨ e = -1074) := by
  rw [shiftToTargetExponent_exact]
  refine ⟨_, _, rfl, ?_⟩
  rw [shiftRight_mantissa]
  dsimp only
  rcases hhigh.lt_or_eq with hlt | rfl
  · have hlog : m.log2 ≤ 52 := Nat.lt_succ_iff.1 ((Nat.log2_lt hpos.ne').2 hlt)
    rw [show (max ((m.log2 : ℤ) + (j - 1074) - 52) (-1074) - (j - 1074)).toNat = 0 by omega,
      show ((j : ℤ) - 1074 + (0 : ℕ) + 1074).toNat = j by omega, pow_zero, Nat.div_one]
    exact ⟨hpos, rfl, by omega, by omega, hlt, by omega⟩
  · rw [Nat.log2_two_pow,
      show (max (((53 : ℕ) : ℤ) + (j - 1074) - 52) (-1074) - (j - 1074)).toNat = 1 by omega,
      show ((j : ℤ) - 1074 + (1 : ℕ) + 1074).toNat = j + 1 by omega]
    exact ⟨by norm_num, by rw [pow_succ 2 j]; omega, by omega, by omega, by norm_num, by norm_num⟩

theorem roundWithAccuracy_units (sign : Sign) {m : ℕ} (hm : 0 < m) {i s : ℕ}
    (hs : excess (m * 2 ^ i) = i + s) (hbound : i + s ≤ 2000) :
    ∃ r : ℕ, RoundsTo (m * 2 ^ i) r ∧
      units (roundWithAccuracy .binary64 sign m (i - 1074) .exact) = some (sign.apply r) ∧
      Canonical (roundWithAccuracy .binary64 sign m (i - 1074) .exact) := by
  have hlog : (m * 2 ^ i).log2 = m.log2 + i := log2_mul_two_pow hm.ne' i
  have hdiv : m * 2 ^ i / 2 ^ (i + s) = m / 2 ^ s := by
    rw [Nat.add_comm, pow_add, Nat.mul_div_mul_right _ _ (by positivity)]
  have hshift : (max ((m.log2 : ℤ) + (i - 1074) - 52) (-1074) - (i - 1074)).toNat = s := by
    unfold excess at hs
    omega
  have hexponent : (i : ℤ) - 1074 + s = (i + s : ℕ) - 1074 := by push_cast; ring
  set em : ExtendedMantissa := (⟨m, false, false⟩ : ExtendedMantissa) >>> s with hem
  have hmantissa : em.mantissa = m / 2 ^ s := shiftRight_mantissa _ s
  obtain ⟨hle, hge⟩ := le_roundedMantissa em
  have hlow : 2 ^ 52 ≤ em.mantissa ∨ i + s = 0 := by
    rw [hmantissa, ← hdiv, ← hs]
    exact (eq_or_ne (excess (m * 2 ^ i)) 0).symm.imp le_div_two_pow_excess id
  have hpos : 0 < em.mantissa := by
    rcases hlow with h | h
    · exact lt_of_lt_of_le (by norm_num) h
    · rw [hmantissa, show s = 0 by omega, pow_zero, Nat.div_one]
      exact hm
  have hhigh : em.mantissa < 2 ^ 53 := by
    rw [hmantissa, ← hdiv, ← hs]
    exact div_two_pow_excess_lt _
  obtain ⟨em', e', hagain, hpos', hvalue, hcanonical⟩ :=
    shiftToTargetExponent_rounded (hlow.imp_left hle.trans') (hpos.trans_le hle)
      (by omega) hbound
  have hround : roundWithAccuracy .binary64 sign m (i - 1074) .exact =
      .finite sign em'.mantissa e' hpos' := by
    unfold roundWithAccuracy
    rw [shiftToTargetExponent_exact, hshift, hexponent, ← hem]
    dsimp only
    rw [hagain]
    dsimp only
    rw [dif_neg hpos'.ne']
  rw [hround]
  refine ⟨em.roundedMantissa * 2 ^ (i + s), ⟨?_, ?_⟩, ?_, hcanonical⟩
  · rw [hs, hdiv, ← hmantissa]
    exact Nat.mul_le_mul_right _ hle
  · rw [hs, Nat.add_comm i s, pow_add]
    intro hdvd
    have hdvd : 2 ^ s ∣ m := Nat.dvd_of_mul_dvd_mul_right (by positivity) hdvd
    have hexact : em.roundedMantissa = m / 2 ^ s := by rw [hem, shiftRight_of_dvd hdvd]; rfl
    rw [hexact, ← mul_assoc, Nat.div_mul_cancel hdvd]
  · rw [units_finite, hvalue]

/-- Rounding returns a number that a double has, and changes only digits beyond the first 53. -/
theorem round_units (sign : Sign) {m : ℕ} (hm : 0 < m) (k : ℕ)
    (hbound : excess (m * 2 ^ k) ≤ 2000) :
    ∃ r : ℕ, RoundsTo (m * 2 ^ k) r ∧
      units (UnpackedFloat.round .binary64 sign m (k - 1074)) = some (sign.apply r) ∧
      Canonical (UnpackedFloat.round .binary64 sign m (k - 1074)) := by
  have hlog : (m * 2 ^ k).log2 = m.log2 + k := log2_mul_two_pow hm.ne' k
  obtain ⟨j, hj⟩ : ∃ j, excess (m * 2 ^ k) = j := ⟨_, rfl⟩
  have hround : UnpackedFloat.round .binary64 sign m (k - 1074) =
      roundWithAccuracy .binary64 sign (m * 2 ^ (k - j)) ((min k j : ℕ) - 1074) .exact := by
    have htarget : max ((m.log2 : ℤ) + (k - 1074) - 52) (-1074) = j - 1074 := by
      unfold excess at hj
      omega
    unfold UnpackedFloat.round decreaseExponent
    rw [targetExponent_eq, htarget]
    dsimp only
    rw [Nat.shiftLeft_eq, show ((k : ℤ) - 1074 - (j - 1074)).toNat = k - j by omega,
      show (k : ℤ) - 1074 - (k - j : ℕ) = (min k j : ℕ) - 1074 by omega]
  have hunits : m * 2 ^ (k - j) * 2 ^ min k j = m * 2 ^ k := by
    rw [mul_assoc, ← pow_add, show k - j + min k j = k by omega]
  have h := roundWithAccuracy_units sign (m := m * 2 ^ (k - j)) (i := min k j) (s := j - k)
    (by positivity) (by rw [hunits]; omega) (by omega)
  rw [hunits] at h
  rw [hround]
  exact h

/-! ### Doubles -/

theorem canonical_finite {sign : Sign} {m : ℕ} {e : ℤ} {hm : 0 < m} :
    Canonical (.finite sign m e hm) ↔
      -1074 ≤ e ∧ e ≤ 971 ∧ m < 2 ^ 53 ∧ (2 ^ 52 ≤ m ∨ e = -1074) := Iff.rfl

theorem toNat_one_append (m : BitVec 52) : (1#1 ++ m).toNat = 2 ^ 52 + m.toNat := by
  rw [BitVec.toNat_append, ← Nat.shiftLeft_add_eq_or_of_lt m.isLt]
  rfl

theorem canonical_unpack (x : Float.Model) : Canonical x.unpack := by
  have hm : (@unpackMantissa .binary64 x.toBits.toBitVec).toNat < 2 ^ 52 := BitVec.isLt _
  have he : (@unpackExponent .binary64 x.toBits.toBitVec).toNat < 2 ^ 11 := BitVec.isLt _
  unfold Float.Model.unpack UnpackedFloat.unpack
  dsimp only
  refine iteInduction (motive := Canonical)
    (fun _ => iteInduction (motive := Canonical) (fun _ => trivial) fun _ => trivial)
    fun hinf => iteInduction (motive := Canonical) (fun hzero => ?_) fun hzero => ?_
  · by_cases hmantissa : @unpackMantissa .binary64 x.toBits.toBitVec = 0#_
    · rw [dif_pos hmantissa]
      trivial
    · rw [dif_neg hmantissa, hzero]
      exact ⟨by decide, by decide, by omega, .inr rfl⟩
  · have hne : (@unpackExponent .binary64 x.toBits.toBitVec).toNat ≠ 0 :=
      fun h => hzero (BitVec.eq_of_toNat_eq h)
    have hlast : (@unpackExponent .binary64 x.toBits.toBitVec).toNat ≠ 2047 :=
      fun h => hinf (BitVec.eq_of_toNat_eq h)
    have hbias : Format.binary64.exponentBias = 1023 := rfl
    rw [canonical_finite, toNat_one_append, hbias]
    omega

theorem unpackSign_packComponents {spec : Format} {sign : Sign} {e : BitVec spec.exponentBits}
    {m : BitVec spec.mantissaBitsWithoutImplicit} :
    unpackSign (packComponents spec sign e m) = sign.toBitVec := by
  apply BitVec.eq_of_getLsbD_eq
  intro i hi
  obtain rfl : i = 0 := by omega
  delta unpackSign
  simp [packComponents, BitVec.getLsbD_append, BitVec.getElem_append]

theorem ofBitVec_toBitVec (sign : Sign) : Sign.ofBitVec sign.toBitVec = sign := by
  cases sign <;> rfl

theorem finite_eq {sign sign' : Sign} {m m' : ℕ} {e e' : ℤ} (hpos : 0 < m) (hpos' : 0 < m')
    (hsign : sign = sign') (hm : m = m') (he : e = e') :
    UnpackedFloat.finite sign m e hpos = .finite sign' m' e' hpos' := by
  subst hsign hm he
  rfl

theorem unpack_normal (sign : Sign) {k m : ℕ} (hk : 0 < k) (hk' : k < 2047) (hm : 2 ^ 52 ≤ m)
    (hm' : m < 2 ^ 53) (hpos : 0 < m) :
    UnpackedFloat.unpack .binary64
        (packComponents .binary64 sign (BitVec.ofNat 11 k) (BitVec.ofNat 52 m)) =
      .finite sign m (k - 1075) hpos := by
  have he : (BitVec.ofNat 11 k).toNat = k := Nat.mod_eq_of_lt (by omega)
  have hinf : BitVec.ofNat 11 k ≠ -1#11 := by
    intro h
    rw [h] at he
    exact absurd he.symm hk'.ne
  have hzero : BitVec.ofNat 11 k ≠ 0#11 := by
    intro h
    rw [h] at he
    exact absurd he hk.ne
  unfold UnpackedFloat.unpack
  dsimp only
  rw [if_neg (by rwa [unpackExponent_packComponents]), if_neg (by rwa [unpackExponent_packComponents])]
  refine finite_eq _ hpos ?_ ?_ ?_
  · rw [unpackSign_packComponents, ofBitVec_toBitVec]
  · -- the leading digit is not stored
    rw [unpackMantissa_packComponents, toNat_one_append, BitVec.toNat_ofNat]
    omega
  · rw [unpackExponent_packComponents, he, show Format.binary64.exponentBias = 1023 from rfl]
    omega

theorem unpack_subnormal (sign : Sign) {m : ℕ} (hm : m < 2 ^ 52) (hpos : 0 < m) :
    UnpackedFloat.unpack .binary64 (packComponents .binary64 sign 0#11 (BitVec.ofNat 52 m)) =
      .finite sign m (-1074) hpos := by
  have hmantissa : (BitVec.ofNat 52 m).toNat = m := Nat.mod_eq_of_lt hm
  have hne : BitVec.ofNat 52 m ≠ 0#52 := by
    intro h
    rw [h] at hmantissa
    exact absurd hmantissa hpos.ne
  unfold UnpackedFloat.unpack
  dsimp only
  rw [if_neg (by rw [unpackExponent_packComponents]; decide),
    if_pos (unpackExponent_packComponents ..), dif_neg (by rwa [unpackMantissa_packComponents])]
  refine finite_eq _ hpos ?_ ?_ ?_
  · rw [unpackSign_packComponents, ofBitVec_toBitVec]
  · rw [unpackMantissa_packComponents, hmantissa]
  · rw [unpackExponent_packComponents]
    rfl

theorem unpack_pack {x : UnpackedFloat} (h : Canonical x) : (Float.Model.pack x).unpack = x := by
  cases x with
  | infinity sign => cases sign <;> rfl
  | notANumber => rfl
  | zero sign => cases sign <;> rfl
  | finite sign m e hm =>
    obtain ⟨hlow, hhigh, hm53, hnormal⟩ := h
    have hlog : m.log2 + 1 = 53 ↔ 2 ^ 52 ≤ m := by
      rw [Nat.succ_inj, Nat.log2_eq_iff hm.ne']
      omega
    change UnpackedFloat.unpack .binary64 (UnpackedFloat.pack .binary64 _) = _
    delta UnpackedFloat.pack
    dsimp only
    rw [show Format.binary64.exponentBias = 1023 from rfl,
      show Format.binary64.mantissaBits = 53 from rfl, if_neg (by norm_num; omega)]
    by_cases hm52 : 2 ^ 52 ≤ m
    · obtain ⟨k, rfl⟩ : ∃ k : ℕ, e = k - 1075 := ⟨(e + 1075).toNat, by omega⟩
      rw [if_pos (hlog.2 hm52),
        show ((k : ℤ) - 1075 + (1023 : ℕ) + (52 : ℕ)).toNat = k by omega]
      exact unpack_normal sign (by omega) (by omega) hm52 hm53 hm
    · obtain rfl : e = -1074 := hnormal.resolve_left hm52
      rw [if_neg (mt hlog.1 hm52)]
      exact unpack_subnormal sign (by omega) hm

/-- Numbers with a larger exponent are larger: only the smallest exponent has mantissas of less
than 53 digits. -/
theorem mul_two_pow_lt {m m' k k' : ℕ} (hm : m < 2 ^ 53) (hk' : 2 ^ 52 ≤ m' ∨ k' = 0)
    (h : k < k') : m * 2 ^ k < m' * 2 ^ k' := by
  have hm' : 2 ^ 52 ≤ m' := hk'.resolve_right (by omega)
  calc m * 2 ^ k < 2 ^ 53 * 2 ^ k := (Nat.mul_lt_mul_right (by positivity)).2 hm
    _ = 2 ^ 52 * 2 ^ (k + 1) := by ring
    _ ≤ m' * 2 ^ k' := Nat.mul_le_mul hm' (Nat.pow_le_pow_right (by decide) h)

theorem compare_mantissa {m m' : ℕ} {e e' : ℤ} (he : -1074 ≤ e) (he' : -1074 ≤ e')
    (hm : m < 2 ^ 53) (hk : 2 ^ 52 ≤ m ∨ e = -1074) (hm' : m' < 2 ^ 53)
    (hk' : 2 ^ 52 ≤ m' ∨ e' = -1074) :
    (compare e e').then (compare m m') =
      compare (m * 2 ^ (e + 1074).toNat : ℕ) (m' * 2 ^ (e' + 1074).toNat) := by
  rcases lt_trichotomy e e' with h | rfl | h
  · rw [compare_lt_iff_lt.2 h, eq_comm]
    exact compare_lt_iff_lt.2 (mul_two_pow_lt hm (by omega) (by omega))
  · rw [compare_eq_iff_eq.2 rfl]
    rw [Ordering.then, ← cmp_eq_compare, ← cmp_eq_compare]
    exact (StrictMono.cmp_map_eq (fun _ _ h => (Nat.mul_lt_mul_right (by positivity)).2 h) m m').symm
  · rw [compare_gt_iff_gt.2 h, eq_comm]
    exact compare_gt_iff_gt.2 (mul_two_pow_lt hm' (by omega) (by omega))

theorem compare_units {x y : UnpackedFloat} (hx : Canonical x) (hy : Canonical y) {a b : ℤ}
    (ha : units x = some a) (hb : units y = some b) : x.compare y = some (compare a b) := by
  have lt {c : Ordering} {a b : ℤ} (hc : c = .lt) (h : a < b) : some c = some (compare a b) := by
    rw [hc, compare_lt_iff_lt.2 h]
  have gt {c : Ordering} {a b : ℤ} (hc : c = .gt) (h : b < a) : some c = some (compare a b) := by
    rw [hc, compare_gt_iff_gt.2 h]
  cases x with
  | infinity s => cases ha
  | notANumber => cases ha
  | zero s =>
    cases ha
    cases y with
    | infinity s' => cases hb
    | notANumber => cases hb
    | zero s' => cases hb; cases s <;> cases s' <;> rfl
    | finite s' m' e' hm' =>
      have hpos : 0 < m' * 2 ^ (e' + 1074).toNat := by positivity
      cases s' <;> cases hb
      · exact gt rfl (neg_lt_zero.2 (Int.natCast_pos.2 hpos))
      · exact lt rfl (Int.natCast_pos.2 hpos)
  | finite s m e hm =>
    have hpos : 0 < m * 2 ^ (e + 1074).toNat := by positivity
    cases y with
    | infinity s' => cases hb
    | notANumber => cases hb
    | zero s' =>
      cases hb
      cases s <;> cases ha
      · exact lt rfl (neg_lt_zero.2 (Int.natCast_pos.2 hpos))
      · exact gt rfl (Int.natCast_pos.2 hpos)
    | finite s' m' e' hm' =>
      have hpos' : 0 < m' * 2 ^ (e' + 1074).toNat := by positivity
      have h := compare_mantissa hx.1 hy.1 hx.2.2.1 hx.2.2.2 hy.2.2.1 hy.2.2.2
      cases s <;> cases s' <;> cases ha <;> cases hb
      · change some (Ordering.swap _) = some (compare (-((_ : ℕ) : ℤ)) (-((_ : ℕ) : ℤ)))
        rw [h, ← cmp_eq_compare, ← cmp_eq_compare, cmp_swap]
        exact congrArg some (StrictAnti.cmp_map_eq (f := fun n : ℕ => -(n : ℤ))
          (fun _ _ h => neg_lt_neg (Int.ofNat_lt.2 h)) _ _).symm
      · exact lt rfl (by simp only [Sign.apply]; omega)
      · exact gt rfl (by simp only [Sign.apply]; omega)
      · change some _ = some (compare ((_ : ℕ) : ℤ) ((_ : ℕ) : ℤ))
        rw [h, ← cmp_eq_compare, ← cmp_eq_compare]
        exact congrArg some (Nat.strictMono_cast.cmp_map_eq _ _).symm

/-! ### Sums and differences -/

namespace RoundsTo

variable {n r m p : ℕ}

theorem refl (n : ℕ) : RoundsTo n n := ⟨Nat.div_mul_le_self _ _, fun _ => rfl⟩

/-- Numbers of 53 digits are not changed. -/
theorem eq_of_digits (h : RoundsTo n r) (hm : m < 2 ^ 53) (hn : n = m * 2 ^ p) : r = n := by
  apply h.eq_of_dvd
  rcases eq_or_ne m 0 with rfl | hm0
  · rw [hn, Nat.zero_mul]
    exact dvd_zero _
  · have hlog : n.log2 = m.log2 + p := by rw [hn, log2_mul_two_pow hm0]
    have hlog' : m.log2 < 53 := (Nat.log2_lt hm0).2 hm
    rw [hn]
    exact (pow_dvd_pow 2 (by rw [← hn]; unfold excess; omega)).trans (Nat.dvd_mul_left _ _)

/-- Rounding does not pass a number of 53 digits. -/
theorem le_of_digits (h : RoundsTo n r) (hm : m < 2 ^ 53) (hn : m * 2 ^ p ≤ n) : m * 2 ^ p ≤ r := by
  refine le_trans ?_ h.floor_le
  rcases lt_or_ge p (excess n) with hp | hp
  · calc m * 2 ^ p ≤ 2 ^ 53 * 2 ^ p := Nat.mul_le_mul_right _ hm.le
      _ = 2 ^ 52 * 2 ^ (p + 1) := by ring
      _ ≤ n / 2 ^ excess n * 2 ^ excess n :=
          Nat.mul_le_mul (le_div_two_pow_excess (by omega)) (Nat.pow_le_pow_right (by decide) hp)
  · obtain ⟨i, rfl⟩ := Nat.exists_eq_add_of_le' hp
    rw [pow_add, ← mul_assoc] at hn ⊢
    exact Nat.mul_le_mul_right _ ((Nat.le_div_iff_mul_le (by positivity)).2 hn)

end RoundsTo

theorem normalize_units {s : ℤ} (hs : 0 ≤ s) (k : ℕ) (hbound : s * 2 ^ k < 2 ^ 2052) :
    ∃ r : ℕ, RoundsTo (s * 2 ^ k).toNat r ∧
      units (UnpackedFloat.normalize .binary64 s (k - 1074) .positive) = some (r : ℤ) ∧
      Canonical (UnpackedFloat.normalize .binary64 s (k - 1074) .positive) := by
  obtain ⟨m, rfl⟩ := Int.eq_ofNat_of_zero_le hs
  have htoNat : ((m : ℤ) * 2 ^ k).toNat = m * 2 ^ k := by
    rw [show (m : ℤ) * 2 ^ k = (m * 2 ^ k : ℕ) by push_cast; rfl, Int.toNat_natCast]
  rw [htoNat]
  unfold UnpackedFloat.normalize
  rcases Nat.eq_zero_or_pos m with rfl | hm
  · rw [Nat.zero_mul]
    exact ⟨0, .refl 0, rfl, trivial⟩
  · rw [compare_gt_iff_gt.2 (Int.natCast_pos.2 hm)]
    have hlog : (m * 2 ^ k).log2 < 2052 := by
      apply (Nat.log2_lt (by positivity)).2
      exact_mod_cast hbound
    exact round_units .positive hm k (by unfold excess; omega)

theorem apply_neg (s : Sign) (n : ℤ) : (-s).apply n = -s.apply n := by
  cases s
  · exact (neg_neg n).symm
  · rfl

theorem sub_eq_add_neg (x y : UnpackedFloat) : sub .binary64 x y = add .binary64 x y.neg := by
  cases x with
  | finite s m e hm =>
    cases y with
    | finite s' m' e' hm' =>
      unfold UnpackedFloat.sub UnpackedFloat.add UnpackedFloat.neg
      dsimp only
      rw [apply_neg]
      rfl
    | _ => rfl
  | _ => cases y <;> rfl

theorem units_neg {x : UnpackedFloat} {a : ℤ} (ha : units x = some a) : units x.neg = some (-a) := by
  cases x with
  | infinity s => cases ha
  | notANumber => cases ha
  | zero s => cases ha; rfl
  | finite s m e hm =>
    cases ha
    exact congrArg some (apply_neg s _)

theorem canonical_neg {x : UnpackedFloat} (hx : Canonical x) : Canonical x.neg := by
  cases x <;> exact hx

/-- A mantissa shifted to a smaller exponent. -/
theorem apply_decreaseExponent (s : Sign) (m : ℕ) {e : ℤ} {k : ℕ} (h : (k : ℤ) - 1074 ≤ e) :
    s.apply (decreaseExponent m e (k - 1074)).1 * 2 ^ k =
      s.apply (m * 2 ^ (e + 1074).toNat : ℕ) := by
  have hexp : (e + 1074).toNat = (e - (k - 1074)).toNat + k := by omega
  have hmul : (m <<< (e - (k - 1074)).toNat) * 2 ^ k = m * 2 ^ (e + 1074).toNat := by
    rw [Nat.shiftLeft_eq, hexp, pow_add, mul_assoc]
  rw [← hmul]
  push_cast
  cases s
  · exact neg_mul _ _
  · rfl

theorem add_units {x y : UnpackedFloat} (hx : Canonical x) (hy : Canonical y) {a b : ℤ}
    (ha : units x = some a) (hb : units y = some b) (hsum : 0 ≤ a + b)
    (hbound : a + b < 2 ^ 2052) :
    ∃ r : ℕ, RoundsTo (a + b).toNat r ∧ units (add .binary64 x y) = some (r : ℤ) ∧
      Canonical (add .binary64 x y) := by
  cases x with
  | infinity s => cases ha
  | notANumber => cases ha
  | zero s =>
    cases ha
    rw [zero_add] at hsum ⊢
    refine ⟨b.toNat, .refl _, ?_⟩
    rw [Int.toNat_of_nonneg hsum]
    cases y with
    | infinity s' => cases hb
    | notANumber => cases hb
    | zero s' => cases s <;> cases s' <;> exact ⟨hb, trivial⟩
    | finite s' m' e' hm' => exact ⟨hb, hy⟩
  | finite s m e hm =>
    cases y with
    | infinity s' => cases hb
    | notANumber => cases hb
    | zero s' =>
      cases hb
      rw [add_zero] at hsum ⊢
      refine ⟨a.toNat, .refl _, ?_⟩
      rw [Int.toNat_of_nonneg hsum]
      exact ⟨ha, hx⟩
    | finite s' m' e' hm' =>
      have hx := hx.1
      have hy := hy.1
      obtain ⟨k, hk⟩ : ∃ k : ℕ, min e e' = k - 1074 := ⟨(min e e' + 1074).toNat, by omega⟩
      have hunits : (s.apply (decreaseExponent m e (k - 1074)).1 +
          s'.apply (decreaseExponent m' e' (k - 1074)).1) * 2 ^ k = a + b := by
        rw [add_mul, apply_decreaseExponent s m (by omega),
          apply_decreaseExponent s' m' (by omega)]
        exact congrArg₂ (· + ·) (Option.some.inj ha) (Option.some.inj hb)
      have h := normalize_units (k := k) (nonneg_of_mul_nonneg_left (hunits ▸ hsum)
        (by positivity)) (hunits ▸ hbound)
      rw [hunits] at h
      unfold UnpackedFloat.add
      dsimp only
      rw [hk]
      exact h

/-! ### Numbers -/

/-- A number as a multiple of `2 ^ -1074`, when it is finite. -/
def floatUnits (x : Float) : Option ℤ := units x.toModel.unpack

/-- The number one, in this unit. -/
@[irreducible] def one : ℕ := 2 ^ 1074

theorem one_eq : one = 2 ^ 1074 := by unfold one; rfl

theorem one_pos : 0 < one := by
  rw [one_eq]
  positivity

theorem RoundsTo.whole_le {n r m : ℕ} (h : RoundsTo n r) (hm : m < 2 ^ 53) (hn : m * one ≤ n) :
    m * one ≤ r := by
  rw [one_eq] at hn ⊢
  exact h.le_of_digits hm hn

/-- No sum of numbers below `2 ^ 53` overflows. -/
theorem lt_bound {n : ℕ} (h : n < 2 ^ 54 * one) : (n : ℤ) < 2 ^ 2052 := by
  have hpow : 2 ^ 54 * one ≤ 2 ^ 2052 := by
    rw [one_eq, ← pow_add]
    apply Nat.pow_le_pow_right <;> omega
  exact_mod_cast h.trans_le hpow

/-- The number a double is, when it is finite. -/
def value (x : Float) : Option ℚ := (floatUnits x).map fun n : ℤ => (n : ℚ) / one

variable {x y : Float} {a b : ℤ}

theorem value_eq_of_units (ha : floatUnits x = some a) : value x = some (a / one : ℚ) := by
  rw [value, ha, Option.map_some]

theorem value_eq_natCast {n : ℕ} :
    value x = some (n : ℚ) ↔ floatUnits x = some ((n * one : ℕ) : ℤ) := by
  have hone : (one : ℚ) ≠ 0 := Nat.cast_ne_zero.2 one_pos.ne'
  constructor
  · intro h
    obtain ⟨a, ha, hn⟩ := Option.map_eq_some_iff.1 h
    rw [div_eq_iff hone] at hn
    rw [ha, Option.some_inj]
    exact_mod_cast hn
  · intro h
    rw [value_eq_of_units h, Option.some_inj, div_eq_iff hone]
    push_cast
    rfl

theorem le_iff (x y : Float) :
    x ≤ y ↔ (x.toModel.unpack.compare y.toModel.unpack).any (·.isLE) = true := by
  change decide _ = true ↔ _
  rw [decide_eq_true_iff]
  rfl

theorem lt_iff (x y : Float) :
    x < y ↔ x.toModel.unpack.compare y.toModel.unpack = some .lt := by
  change decide _ = true ↔ _
  rw [decide_eq_true_iff]
  exact beq_iff_eq

theorem le_iff_units (ha : floatUnits x = some a) (hb : floatUnits y = some b) :
    x ≤ y ↔ a ≤ b := by
  rw [le_iff, compare_units (canonical_unpack _) (canonical_unpack _) ha hb, Option.any_some]
  exact Int.isLE_compare

theorem lt_iff_units (ha : floatUnits x = some a) (hb : floatUnits y = some b) :
    x < y ↔ a < b := by
  rw [lt_iff, compare_units (canonical_unpack _) (canonical_unpack _) ha hb, Option.some_inj,
    compare_lt_iff_lt]

theorem isNaN_eq_false (ha : floatUnits x = some a) : x.isNaN = false := by
  change x.toModel.unpack.isNaN = false
  unfold floatUnits at ha
  cases hx : x.toModel.unpack with
  | notANumber => rw [hx] at ha; cases ha
  | _ => rfl

/-- What lies between finite numbers is finite. -/
theorem exists_units_of_le {z : Float} (hxy : x ≤ y) (hyz : y ≤ z) (ha : floatUnits x = some a)
    (hb : floatUnits z = some b) : ∃ c, floatUnits y = some c := by
  rw [le_iff] at hxy hyz
  unfold floatUnits at *
  cases hy : y.toModel.unpack with
  | notANumber =>
    rw [hy] at hyz
    cases hyz
  | zero s => exact ⟨_, rfl⟩
  | finite s m e hm => exact ⟨_, rfl⟩
  | infinity s =>
    rw [hy] at hxy hyz
    generalize x.toModel.unpack = x at *
    generalize z.toModel.unpack = z at *
    cases s with
    | negative =>
      cases x with
      | infinity s => cases ha
      | notANumber => cases ha
      | zero s => cases hxy
      | finite s m e hm => cases hxy
    | positive =>
      cases z with
      | infinity s => cases hb
      | notANumber => cases hb
      | zero s => cases hyz
      | finite s m e hm => cases hyz

theorem floatUnits_add (ha : floatUnits x = some a) (hb : floatUnits y = some b)
    (hsum : 0 ≤ a + b) (hbound : a + b < 2 ^ 2052) :
    ∃ r : ℕ, RoundsTo (a + b).toNat r ∧ floatUnits (x + y) = some (r : ℤ) := by
  obtain ⟨r, hr, hunits, hcanonical⟩ :=
    add_units (canonical_unpack _) (canonical_unpack _) ha hb hsum hbound
  refine ⟨r, hr, ?_⟩
  change units (Float.Model.pack _).unpack = _
  rw [unpack_pack hcanonical, hunits]

theorem floatUnits_sub (ha : floatUnits x = some a) (hb : floatUnits y = some b)
    (hdiff : 0 ≤ a - b) (hbound : a - b < 2 ^ 2052) :
    ∃ r : ℕ, RoundsTo (a - b).toNat r ∧ floatUnits (x - y) = some (r : ℤ) := by
  obtain ⟨r, hr, hunits, hcanonical⟩ :=
    add_units (canonical_unpack _) (canonical_neg (canonical_unpack _)) ha (units_neg hb) hdiff
      hbound
  refine ⟨r, hr, ?_⟩
  change units (Float.Model.pack (UnpackedFloat.sub _ _ _)).unpack = _
  rw [sub_eq_add_neg, unpack_pack hcanonical, hunits]

/-- A finite number that is not negative has 53 digits. -/
theorem exists_digits (ha : floatUnits x = some a) (h : 0 ≤ a) :
    ∃ m p : ℕ, m < 2 ^ 53 ∧ a = (m * 2 ^ p : ℕ) := by
  have hx := canonical_unpack x.toModel
  unfold floatUnits at ha
  cases hu : x.toModel.unpack with
  | infinity s => rw [hu] at ha; cases ha
  | notANumber => rw [hu] at ha; cases ha
  | zero s =>
    rw [hu] at ha
    cases ha
    exact ⟨0, 0, by decide, rfl⟩
  | finite s m e hm =>
    rw [hu] at ha hx
    refine ⟨m, (e + 1074).toNat, hx.2.2.1, ?_⟩
    cases s <;> cases ha
    · have : 0 < m * 2 ^ (e + 1074).toNat := by positivity
      simp only [Sign.apply] at h
      omega
    · rfl
end Kinglet.Library.Doubles
