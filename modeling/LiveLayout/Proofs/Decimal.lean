import LiveLayout.Decimal.Reading
import Mathlib
/-!
Whole numbers as doubles. Below `2 ^ 53`, the double nearest to a whole number has just that value.
-/
namespace LiveLayout.Decimal

open Float.Model Float.Model.UnpackedFloat

variable {m l n : Nat}

theorem log2_mantissa (hlow : 2 ^ 52 ≤ m) (hhigh : m < 2 ^ 53) : m.log2 = 52 := by
  have hne : m ≠ 0 := by omega
  exact (Nat.log2_eq_iff hne).2 ⟨hlow, hhigh⟩

/-- The target exponent of a mantissa with all its bits is the exponent that it has. -/
theorem targetExponent_full (hlow : 2 ^ 52 ≤ m) (hhigh : m < 2 ^ 53) {e : Int} (he : -1074 ≤ e) :
    Format.binary64.targetExponent (totalExponent m e) = e := by
  unfold Format.targetExponent totalExponent Format.minExponent Format.mantissaBits
  rw [log2_mantissa hlow hhigh]
  simp
  omega

theorem pack_full (hlow : 2 ^ 52 ≤ m) (hhigh : m < 2 ^ 53) (hl : l ≤ 52) (hm : 0 < m) :
    UnpackedFloat.pack Format.binary64 (.finite .positive m ((l : Int) - 52) hm) =
      packComponents Format.binary64 .positive (BitVec.ofNat 11 (l + 1023)) (BitVec.ofNat 52 m) := by
  have hbiased : ((l : Int) - 52 + (Format.binary64.exponentBias : Int) + (52 : Nat)).toNat = l + 1023 := by
    unfold Format.exponentBias
    simp
    omega
  unfold UnpackedFloat.pack
  dsimp only
  rw [hbiased, log2_mantissa hlow hhigh, if_neg (by simp; omega), if_pos (by rfl)]

theorem toNat_packComponents {x y : Nat} (hx : x < 2 ^ 11) (hy : y < 2 ^ 52) :
    (packComponents Format.binary64 .positive (BitVec.ofNat 11 x) (BitVec.ofNat 52 y)).toNat = x * 2 ^ 52 + y := by
  have hexponent : (BitVec.ofNat 11 x).toNat = x := by
    rw [BitVec.toNat_ofNat, Nat.mod_eq_of_lt hx]
  have hmantissa : (BitVec.ofNat 52 y).toNat = y := by
    rw [BitVec.toNat_ofNat, Nat.mod_eq_of_lt hy]
  have hsign : (Sign.positive.toBitVec ++ BitVec.ofNat 11 x).toNat = x := by
    rw [BitVec.toNat_append, hexponent]
    change 0 <<< 11 ||| x = x
    simp
  unfold packComponents
  rw [BitVec.toNat_append, hsign, hmantissa, ← Nat.shiftLeft_add_eq_or_of_lt hy, Nat.shiftLeft_eq]

theorem toNat_append_one (y : BitVec 52) : (1#1 ++ y).toNat = 2 ^ 52 + y.toNat := by
  rw [BitVec.toNat_append, ← Nat.shiftLeft_add_eq_or_of_lt y.isLt, Nat.shiftLeft_eq]
  rfl

theorem unpack_pack_full (hlow : 2 ^ 52 ≤ m) (hhigh : m < 2 ^ 53) (hl : l ≤ 52) (hm : 0 < m) :
    (Float.Model.pack (.finite .positive m ((l : Int) - 52) hm)).unpack = .finite .positive m ((l : Int) - 52) hm := by
  have hexponent : (BitVec.ofNat 11 (l + 1023)).toNat = l + 1023 := by
    rw [BitVec.toNat_ofNat, Nat.mod_eq_of_lt (by omega)]
  have hzero : BitVec.ofNat 11 (l + 1023) ≠ 0#11 := by
    intro h
    have := congrArg BitVec.toNat h
    rw [hexponent] at this
    simp at this
  have hones : BitVec.ofNat 11 (l + 1023) ≠ -1#11 := by
    intro h
    have := congrArg BitVec.toNat h
    rw [hexponent] at this
    simp at this
    omega
  have hmantissa : (1#1 ++ BitVec.ofNat 52 m).toNat = m := by
    rw [toNat_append_one, BitVec.toNat_ofNat]
    omega
  change UnpackedFloat.unpack Format.binary64 (UnpackedFloat.pack Format.binary64 _) = _
  rw [pack_full hlow hhigh hl hm]
  unfold UnpackedFloat.unpack
  simp only [unpackMantissa_packComponents, unpackExponent_packComponents, unpackSign_packComponents,
    Sign.ofBitVec_toBitVec, hones, hzero, if_false, hmantissa, hexponent]
  have hbias : ((l + 1023 : Nat) : Int) - (Format.binary64.exponentBias + (52 : Nat)) = (l : Int) - 52 := by
    simp [Format.exponentBias]
    omega
  simp only [hbias]

/-- To round a mantissa that has its bits already changes nothing. -/
theorem shift_full (hlow : 2 ^ 52 ≤ m) (hhigh : m < 2 ^ 53) {e : Int} (he : -1074 ≤ e) :
    shiftToTargetExponent Format.binary64 m e .exact = (⟨m, false, false⟩, e) := by
  unfold shiftToTargetExponent shiftToExponent
  rw [targetExponent_full hlow hhigh he]
  simp only [Int.sub_self, Int.toNat_zero]
  simp [HShiftRight.hShiftRight, Nat.repeat, ExtendedMantissa.ofMantissaAndAccuracy]

theorem repeat_shiftRightOne (k : Nat) : k.repeat ExtendedMantissa.shiftRightOne ⟨m * 2 ^ k, false, false⟩ =
    ⟨m, false, false⟩ := by
  induction k generalizing m with
  | zero => simp [Nat.repeat]
  | succ k ih =>
    rw [Nat.repeat, Nat.pow_succ, ← Nat.mul_assoc, Nat.mul_right_comm, ih]
    simp [ExtendedMantissa.shiftRightOne]

/-- Rounding drops trailing zeros. -/
theorem roundWithAccuracy_full (hlow : 2 ^ 52 ≤ m) (hhigh : m < 2 ^ 53) (hm : 0 < m) (k : Nat) {e : Int} (he : -1074 ≤ e) :
    roundWithAccuracy Format.binary64 .positive (m * 2 ^ k) (e - k) .exact = .finite .positive m e hm := by
  have hlog : (m * 2 ^ k).log2 = 52 + k := by
    apply (Nat.log2_eq_iff (by positivity)).2
    constructor
    · rw [Nat.pow_add]
      exact Nat.mul_le_mul_right _ hlow
    · have : 2 ^ (52 + k + 1) = 2 ^ 53 * 2 ^ k := by ring
      rw [this]
      exact Nat.mul_lt_mul_of_pos_right hhigh (by positivity)
  have htarget : Format.binary64.targetExponent (totalExponent (m * 2 ^ k) (e - k)) = e := by
    unfold Format.targetExponent totalExponent Format.minExponent Format.mantissaBits
    rw [hlog]
    simp
    omega
  have hshift : shiftToTargetExponent Format.binary64 (m * 2 ^ k) (e - k) .exact = (⟨m, false, false⟩, e) := by
    unfold shiftToTargetExponent shiftToExponent
    rw [htarget]
    have hk : (e - (e - (k : Int))).toNat = k := by omega
    dsimp only
    rw [hk]
    have hrep := repeat_shiftRightOne (m := m) k
    change (k.repeat ExtendedMantissa.shiftRightOne ⟨m * 2 ^ k, false, false⟩, _) = _
    rw [hrep]
    simp
  have hrounded : ExtendedMantissa.roundedMantissa ⟨m, false, false⟩ = m := rfl
  unfold roundWithAccuracy
  simp only [hshift, hrounded, shift_full hlow hhigh he, hm.ne', dite_false]

/-- The mantissa of a number with all its bits. -/
def mantissaOf (n : Nat) : Nat := n * 2 ^ (52 - n.log2)

theorem log2_le (h : n < 2 ^ 53) : n.log2 ≤ 52 := by
  by_cases hn : n = 0
  · subst hn
    simp
  · have := (Nat.log2_lt hn).2 h
    omega

theorem mantissaOf_bounds (hn : n ≠ 0) (h : n < 2 ^ 53) : 2 ^ 52 ≤ mantissaOf n ∧ mantissaOf n < 2 ^ 53 := by
  have hl := log2_le h
  have hlow : 2 ^ n.log2 ≤ n := (Nat.le_log2 hn).1 (le_refl _)
  have hhigh : n < 2 ^ (n.log2 + 1) := (Nat.log2_lt hn).1 (Nat.lt_succ_self _)
  have hpow : 2 ^ n.log2 * 2 ^ (52 - n.log2) = 2 ^ 52 := by
    rw [← Nat.pow_add]
    congr 1
    omega
  have hpow' : 2 ^ (n.log2 + 1) * 2 ^ (52 - n.log2) = 2 ^ 53 := by
    rw [← Nat.pow_add]
    congr 1
    omega
  unfold mantissaOf
  constructor
  · rw [← hpow]
    exact Nat.mul_le_mul_right _ hlow
  · rw [← hpow']
    exact Nat.mul_lt_mul_of_pos_right hhigh (by positivity)

theorem ofNat_eq (hn : n ≠ 0) (h : n < 2 ^ 53) (hm : 0 < mantissaOf n) :
    UnpackedFloat.ofNat Format.binary64 n = .finite .positive (mantissaOf n) ((n.log2 : Int) - 52) hm := by
  have hl := log2_le h
  obtain ⟨hlow, hhigh⟩ := mantissaOf_bounds hn h
  have htarget : Format.binary64.targetExponent (totalExponent n 0) = (n.log2 : Int) - 52 := by
    unfold Format.targetExponent totalExponent Format.minExponent Format.mantissaBits
    simp
    omega
  have hshift : decreaseExponent n 0 ((n.log2 : Int) - 52) = (mantissaOf n, (n.log2 : Int) - 52) := by
    have hk : (0 - ((n.log2 : Int) - 52)).toNat = 52 - n.log2 := by omega
    unfold decreaseExponent mantissaOf
    simp only [hk, Nat.shiftLeft_eq, Prod.mk.injEq, true_and]
    omega
  have hround := roundWithAccuracy_full hlow hhigh hm 0 (e := (n.log2 : Int) - 52) (by omega)
  have hcompare : compare (n : Int) 0 = .gt := by
    rw [compare_gt_iff_gt]
    omega
  unfold UnpackedFloat.ofNat UnpackedFloat.ofInt UnpackedFloat.normalize
  rw [hcompare]
  dsimp only
  unfold UnpackedFloat.round
  rw [Int.toNat_natCast, htarget]
  dsimp only
  rw [hshift]
  simpa using hround

theorem unpack_one : (Float.ofBits 0x3FF0000000000000).toModel.unpack =
    .finite .positive (2 ^ 52) ((0 : Nat) - 52 : Int) (by decide) :=
  unpack_pack_full (l := 0) (by decide) (by decide) (by decide) (by decide)

theorem length_le (h : n < 2 ^ 53) : length n ≤ 16 := by
  unfold length
  split
  · omega
  · apply (Nat.length_toDigits_le_iff (by omega) (by omega)).2
    omega

theorem toModel_nearest (hn : n ≠ 0) (h : n < 2 ^ 53) (hm : 0 < mantissaOf n) :
    (nearest n 0).toModel = Float.Model.pack (.finite .positive (mantissaOf n) ((n.log2 : Int) - 52) hm) := by
  have hl := log2_le h
  obtain ⟨hlow, hhigh⟩ := mantissaOf_bounds hn h
  have hlength := length_le h
  have hnearest : nearest n 0 = n.toUInt64.toFloat * Float.ofBits 0x3FF0000000000000 := by
    unfold nearest
    dsimp only
    rw [if_neg (by omega), if_neg (by omega)]
    change Float.ofScientific n false 0 = _
    unfold Float.ofScientific
    rw [dif_pos ⟨h, by omega⟩]
    rfl
  have htoNat : n.toUInt64.toNat = n := by
    rw [Nat.toUInt64, UInt64.toNat_ofNat_of_lt']
    exact lt_trans h (by decide)
  have hwhole : n.toUInt64.toFloat.toModel = Float.Model.pack (.finite .positive (mantissaOf n) ((n.log2 : Int) - 52) hm) := by
    change Float.Model.pack (UnpackedFloat.ofNat Format.binary64 n.toUInt64.toNat) = _
    rw [htoNat, ofNat_eq hn h hm]
  have hround := roundWithAccuracy_full hlow hhigh hm 52 (e := (n.log2 : Int) - 52) (by omega)
  rw [hnearest]
  change Float.Model.pack (UnpackedFloat.mul Format.binary64 n.toUInt64.toFloat.toModel.unpack
    (Float.ofBits 0x3FF0000000000000).toModel.unpack) = _
  rw [hwhole, unpack_pack_full hlow hhigh hl hm, unpack_one]
  congr 1

theorem whole?_mantissaOf (h : n < 2 ^ 53) :
    Binary.whole? ⟨false, mantissaOf n, (n.log2 : Int) - 52⟩ = some (n : Int) := by
  have hl := log2_le h
  unfold Binary.whole? mantissaOf
  dsimp only
  split
  · have hzero : 52 - n.log2 = 0 := by omega
    have hzero' : ((n.log2 : Int) - 52).toNat = 0 := by omega
    rw [hzero, hzero']
    simp [pow2]
  · have habs : ((n.log2 : Int) - 52).natAbs = 52 - n.log2 := by omega
    have hpos : 0 < 2 ^ (52 - n.log2) := by positivity
    rw [habs]
    simp only [pow2, Nat.pow_eq, Nat.mul_mod_left, if_true, Nat.mul_div_cancel _ hpos]
    rfl

/-- Whole numbers below `2 ^ 53` are read as what they are. -/
theorem whole?_nearest (h : n < 2 ^ 53) : whole? (nearest n 0) = some (n : Int) := by
  by_cases hn : n = 0
  · subst hn
    decide +kernel
  have hl := log2_le h
  obtain ⟨hlow, hhigh⟩ := mantissaOf_bounds hn h
  have hm : 0 < mantissaOf n := by omega
  have hmodel := toModel_nearest hn h hm
  have hunpack := unpack_pack_full hlow hhigh hl hm
  have hnan : (nearest n 0).isNaN = false := by
    change (nearest n 0).toModel.unpack.isNaN = false
    rw [hmodel, hunpack]
    rfl
  have hinf : (nearest n 0).isInf = false := by
    change (nearest n 0).toModel.unpack.isInf = false
    rw [hmodel, hunpack]
    rfl
  have hbits : (nearest n 0).toBits.toNat = (n.log2 + 1023) * 2 ^ 52 + mantissaOf n % 2 ^ 52 := by
    have hpack := pack_full hlow hhigh hl hm
    have hmod : BitVec.ofNat 52 (mantissaOf n) = BitVec.ofNat 52 (mantissaOf n % 2 ^ 52) := by
      apply BitVec.eq_of_toNat_eq
      simp
    change (nearest n 0).toModel.toBits.toNat = _
    rw [hmodel]
    change (UnpackedFloat.pack Format.binary64 _).toNat = _
    rw [hpack, hmod, toNat_packComponents (by omega) (by omega)]
  have hbinary : Binary.ofFloat (nearest n 0) = ⟨false, mantissaOf n, (n.log2 : Int) - 52⟩ := by
    have hfield : ((n.log2 + 1023) * 2 ^ 52 + mantissaOf n % 2 ^ 52) / 2 ^ 52 % 2 ^ 11 = n.log2 + 1023 := by omega
    have hfraction : ((n.log2 + 1023) * 2 ^ 52 + mantissaOf n % 2 ^ 52) % 2 ^ 52 = mantissaOf n % 2 ^ 52 := by omega
    have hsign : ¬2 ^ 63 ≤ (n.log2 + 1023) * 2 ^ 52 + mantissaOf n % 2 ^ 52 := by omega
    have hmantissa : mantissaOf n % 2 ^ 52 + 2 ^ 52 = mantissaOf n := by omega
    have hexponent : ((n.log2 + 1023 : Nat) : Int) - 1075 = (n.log2 : Int) - 52 := by omega
    unfold Binary.ofFloat
    rw [hbits]
    simp only [pow2, Nat.pow_eq, hfield, hfraction, hsign, hmantissa, hexponent, decide_false, Nat.add_eq_zero_iff,
      OfNat.ofNat_ne_zero, and_false, if_false]
  unfold whole?
  rw [hnan, hinf, hbinary]
  simp only [Bool.or_self, Bool.false_eq_true, if_false]
  exact whole?_mantissaOf h

end LiveLayout.Decimal
