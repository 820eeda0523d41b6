import Mathlib
import RegexInsight.Decimal.Binary64
import RegexInsight.Proofs.Decimal.Order

/-! # Rounding between zero and one

    The difference of one and a double between zero and one lies between
    zero and one again, and so does the double nearest to a proper fraction:
    rounding never leaves the interval, because both of its ends are doubles.

    Rounding shifts a significand until it has 53 bits, fewer only at the
    least exponent, and adds at most one to it.  If this makes a power of two
    of it, the exponent grows by one.  So a number below one ends at an
    exponent at which only one itself is not less than one. -/

namespace RegexInsight

namespace Double

open Float.Model Float.Model.UnpackedFloat

/-! ## Section 1: The form of doubles -/

/-- A significand and an exponent that a double can have: the significand has
    53 bits, or fewer at the least exponent. -/
structure Fits (m : Nat) (e : Int) : Prop where
  significand_lt : m < 2 ^ 53
  least_le : -1074 ≤ e
  le_greatest : e ≤ 971
  full : 2 ^ 52 ≤ m ∨ e = -1074

section Packing

variable {m : Nat} {e : Int}

theorem toNat_append_one (v : BitVec 52) : (1#1 ++ v).toNat = 2 ^ 52 + v.toNat := by
  rw [BitVec.toNat_append, ← Nat.shiftLeft_add_eq_or_of_lt v.isLt]
  rfl

theorem log2_lt_of_lt {n : Nat} (hpos : 0 < n) (hlt : m < 2 ^ n) : m.log2 < n := by
  rcases Nat.eq_zero_or_pos m with rfl | hm
  · exact hpos
  · exact (Nat.log2_lt (by omega)).mpr hlt

theorem log2_shiftLeft (hpos : 0 < m) (k : Nat) : (m <<< k).log2 = m.log2 + k := by
  induction k with
  | zero => rfl
  | succ k ih =>
    rw [Nat.shiftLeft_succ, Nat.log2_two_mul, ih, Nat.add_assoc]
    exact (Nat.shiftLeft_pos_iff.mpr hpos).ne'

theorem log2_of_full (hfull : 2 ^ 52 ≤ m) (hlt : m < 2 ^ 53) : m.log2 = 52 :=
  (Nat.log2_eq_iff (by omega)).mpr ⟨hfull, hlt⟩

/-- What is unpacked has the form of doubles. -/
theorem fits_of_unpack {v : Float.Model} {s : Sign} {hpos : 0 < m}
    (h : v.unpack = .finite s m e hpos) : Fits m e := by
  have hfraction : (@unpackMantissa .binary64 v.toBits.toBitVec).toNat < 2 ^ 52 :=
    BitVec.isLt _
  have hfield : (@unpackExponent .binary64 v.toBits.toBitVec).toNat < 2048 :=
    BitVec.isLt _
  unfold Float.Model.unpack UnpackedFloat.unpack at h
  dsimp only at h
  split at h
  next => split at h <;> cases h
  next hfinite =>
    have hbelow : (@unpackExponent .binary64 v.toBits.toBitVec).toNat ≠ 2047 :=
      fun heq => hfinite (BitVec.eq_of_toNat_eq heq)
    split at h
    -- a subnormal number has no leading bit of its own
    next hleast =>
      split at h
      next => cases h
      next =>
        cases h
        rw [hleast]
        exact ⟨by omega, by decide, by decide, .inr (by decide)⟩
    next hnormal =>
      have habove : (@unpackExponent .binary64 v.toBits.toBitVec).toNat ≠ 0 :=
        fun heq => hnormal (BitVec.eq_of_toNat_eq heq)
      cases h
      rw [toNat_append_one]
      refine ⟨by omega, ?_, ?_, .inl (by omega)⟩
      · show (-1074 : Int) ≤ _ - (1023 + 52)
        omega
      · show _ - (1023 + 52) ≤ (971 : Int)
        omega

theorem unpack_normal (s : Sign) {field : BitVec 11} (fraction : BitVec 52)
    (hleast : field ≠ 0#11) (hfinite : field ≠ -1#11) :
    UnpackedFloat.unpack .binary64 (packComponents .binary64 s field fraction) =
      .finite s (2 ^ 52 + fraction.toNat) (field.toNat - 1075) (by omega) := by
  unfold UnpackedFloat.unpack
  simp only [unpackMantissa_packComponents, unpackExponent_packComponents,
    unpackSign_packComponents, Sign.ofBitVec_toBitVec, toNat_append_one]
  rw [if_neg hfinite, if_neg hleast]
  rfl

theorem unpack_subnormal (s : Sign) {fraction : BitVec 52} (hpos : 0 < fraction.toNat) :
    UnpackedFloat.unpack .binary64 (packComponents .binary64 s 0#11 fraction) =
      .finite s fraction.toNat (-1074) hpos := by
  have hne : fraction ≠ 0#52 := fun heq => by simp [heq] at hpos
  unfold UnpackedFloat.unpack
  simp only [unpackMantissa_packComponents, unpackExponent_packComponents,
    unpackSign_packComponents, Sign.ofBitVec_toBitVec]
  rw [if_neg (by decide), if_pos trivial, dif_neg hne]
  rfl

theorem pack_normal (s : Sign) (hpos : 0 < m) (hbits : m.log2 = 52) (hgreatest : e ≤ 971) :
    UnpackedFloat.pack .binary64 (.finite s m e hpos) =
      packComponents .binary64 s (BitVec.ofNat 11 (e + 1075).toNat) (BitVec.ofNat 52 m) := by
  have hfield : (e + (1023 : Nat) + (52 : Nat)).toNat = (e + 1075).toNat := by omega
  unfold UnpackedFloat.pack
  dsimp only
  rw [hbits, if_neg, if_pos (show 52 + 1 = Format.binary64.mantissaBits from rfl)]
  · exact congrArg (fun n => packComponents .binary64 s (BitVec.ofNat 11 n) _) hfield
  · show ¬ 2048 ≤ (e + (1023 : Nat) + (52 : Nat)).toNat + 1
    omega

theorem pack_subnormal (s : Sign) (hpos : 0 < m) (hbits : m.log2 < 52) :
    UnpackedFloat.pack .binary64 (.finite s m (-1074) hpos) =
      packComponents .binary64 s 0#11 (BitVec.ofNat 52 m) := by
  unfold UnpackedFloat.pack
  dsimp only
  rw [if_neg (by decide), if_neg]
  show ¬ m.log2 + 1 = 53
  omega

/-- What has the form of doubles is packed without loss. -/
theorem unpack_pack_of_fits (s : Sign) (hpos : 0 < m) (h : Fits m e) :
    (Float.Model.pack (.finite s m e hpos)).unpack = .finite s m e hpos := by
  obtain ⟨hlt, hleast, hgreatest, hfull⟩ := h
  show UnpackedFloat.unpack .binary64 (UnpackedFloat.pack .binary64 (.finite s m e hpos)) = _
  by_cases hnormal : 2 ^ 52 ≤ m
  · have hfield : (BitVec.ofNat 11 (e + 1075).toNat).toNat = (e + 1075).toNat :=
      Nat.mod_eq_of_lt (by omega)
    have hfraction : 2 ^ 52 + (BitVec.ofNat 52 m).toNat = m := by
      rw [BitVec.toNat_ofNat]
      omega
    rw [pack_normal s hpos (log2_of_full hnormal hlt) hgreatest, unpack_normal]
    · simp only [hfield, hfraction]
      congr 1
      omega
    -- the field belongs neither to zero nor to infinity
    · intro heq
      rw [heq] at hfield
      change 0 = _ at hfield
      omega
    · intro heq
      rw [heq] at hfield
      change 2047 = _ at hfield
      omega
  · obtain rfl := hfull.resolve_left hnormal
    have hfraction : (BitVec.ofNat 52 m).toNat = m := Nat.mod_eq_of_lt (by omega)
    rw [pack_subnormal s hpos (log2_lt_of_lt (by decide) (by omega)), unpack_subnormal]
    · simp only [hfraction]
    · omega

end Packing

/-! ## Section 2: Shifting and rounding -/

section Shifting

variable {m : Nat} {e : Int}

@[simp] theorem targetExponent_eq (t : Int) :
    Format.binary64.targetExponent t = max (t - 53) (-1074) :=
  rfl

theorem mantissa_shiftRight (em : ExtendedMantissa) (k : Nat) :
    (em >>> k).mantissa = em.mantissa / 2 ^ k := by
  induction k with
  | zero => exact (Nat.div_one _).symm
  | succ k ih =>
    show (em >>> k).mantissa / 2 = _
    rw [ih, Nat.div_div_eq_div_mul, Nat.pow_succ]

theorem mantissa_ofMantissaAndAccuracy (m : Nat) (accuracy : Accuracy) :
    (ExtendedMantissa.ofMantissaAndAccuracy m accuracy).mantissa = m := by
  rcases accuracy with _ | (_ | _ | _) <;> rfl

/-- Rounding adds at most one. -/
theorem roundedMantissa_bounds (em : ExtendedMantissa) :
    em.mantissa ≤ em.roundedMantissa ∧ em.roundedMantissa ≤ em.mantissa + 1 := by
  rcases em with ⟨m, _ | _, _ | _⟩ <;>
    simp only [ExtendedMantissa.roundedMantissa, ExtendedMantissa.accuracy,
      Accuracy.roundToNearestEven] <;>
    omega

/-- A significand that has the form of doubles already is not shifted. -/
theorem shiftToTargetExponent_of_lt (hlt : m < 2 ^ 53) (hleast : -1074 ≤ e) :
    shiftToTargetExponent .binary64 m e .exact = (⟨m, false, false⟩, e) := by
  have hbits : m.log2 < 53 := log2_lt_of_lt (by decide) hlt
  have hshift : (max ((m.log2 : Int) + 1 + e - 53) (-1074) - e).toNat = 0 := by omega
  unfold shiftToTargetExponent shiftToExponent totalExponent
  simp only [targetExponent_eq, hshift]
  exact Prod.ext rfl (Int.add_zero e)

/-- A significand that rounding made a power of two is shifted once. -/
theorem shiftToTargetExponent_of_eq (hleast : -1074 ≤ e) :
    shiftToTargetExponent .binary64 (2 ^ 53) e .exact = (⟨2 ^ 52, false, false⟩, e + 1) := by
  have hshift : (max (((2 ^ 53).log2 : Int) + 1 + e - 53) (-1074) - e).toNat = 1 := by
    rw [Nat.log2_two_pow]
    omega
  unfold shiftToTargetExponent shiftToExponent totalExponent
  simp only [targetExponent_eq, hshift]
  rfl

/-- The first shift leaves at most 53 bits, and fewer only at the least
    exponent. -/
theorem firstShift_bounds {em : ExtendedMantissa} {t : Int} {accuracy : Accuracy}
    (hfine : e ≤ max ((m.log2 : Int) + 1 + e - 53) (-1074))
    (hfirst : shiftToTargetExponent .binary64 m e accuracy = (em, t)) :
    t = max ((m.log2 : Int) + 1 + e - 53) (-1074) ∧ em.mantissa < 2 ^ 53 ∧
      (2 ^ 52 ≤ em.mantissa ∨ t = -1074) := by
  unfold shiftToTargetExponent shiftToExponent totalExponent at hfirst
  simp only [targetExponent_eq, Prod.mk.injEq] at hfirst
  obtain ⟨rfl, rfl⟩ := hfirst
  generalize hk : (max ((m.log2 : Int) + 1 + e - 53) (-1074) - e).toNat = k
  rw [mantissa_shiftRight, mantissa_ofMantissaAndAccuracy]
  refine ⟨by omega, ?_, ?_⟩
  · rw [Nat.div_lt_iff_lt_mul (Nat.two_pow_pos k), ← Nat.pow_add]
    calc m < 2 ^ (m.log2 + 1) := Nat.lt_log2_self
      _ ≤ 2 ^ (53 + k) := Nat.pow_le_pow_right (by decide) (by omega)
  · by_cases hleast : e + k = -1074
    · exact .inr hleast
    · left
      have hbits : m.log2 = 52 + k := by omega
      have hpos : m ≠ 0 := fun hzero => by
        rw [hzero, Nat.log2_zero] at hbits
        omega
      rw [Nat.le_div_iff_mul_le (Nat.two_pow_pos k), ← Nat.pow_add, ← hbits]
      exact Nat.log2_self_le hpos

end Shifting

/-! ## Section 3: Between zero and one -/

/-- Zero, or a positive number in the form of doubles that is not greater than
    one. -/
inductive InUnit : UnpackedFloat → Prop where
  | zero (s : Sign) : InUnit (.zero s)
  | finite {m : Nat} {e : Int} (hpos : 0 < m) (hfits : Fits m e)
      (hle : e ≤ -53 ∨ m = 2 ^ 52 ∧ e = -52) : InUnit (.finite .positive m e hpos)

section Unit

variable {m : Nat} {e : Int} {u : UnpackedFloat}

/-- A number between zero and one is packed without loss. -/
theorem InUnit.unpack_pack (h : InUnit u) : InUnit (Float.Model.pack u).unpack := by
  cases h with
  | zero s =>
    cases s with
    | negative => exact .zero .negative
    | positive => exact .zero .positive
  | finite hpos hfits hle =>
    rw [unpack_pack_of_fits .positive hpos hfits]
    exact .finite hpos hfits hle

/-- What is below one is rounded to at most one. -/
theorem inUnit_roundWithAccuracy (accuracy : Accuracy) (hbelow : (m.log2 : Int) + 1 + e ≤ 0)
    (hfine : e ≤ max ((m.log2 : Int) + 1 + e - 53) (-1074)) :
    InUnit (roundWithAccuracy .binary64 .positive m e accuracy) := by
  rcases hfirst : shiftToTargetExponent .binary64 m e accuracy with ⟨em, t⟩
  obtain ⟨ht, hlt, hfull⟩ := firstShift_bounds hfine hfirst
  obtain ⟨hlow, hhigh⟩ := roundedMantissa_bounds em
  unfold roundWithAccuracy
  rw [hfirst]
  dsimp only
  generalize em.roundedMantissa = rounded at hlow hhigh
  -- the second shift does nothing unless rounding carried into a new bit
  rcases Nat.lt_or_ge rounded (2 ^ 53) with hrounded | hcarried
  · have hfits : Fits rounded t := ⟨hrounded, by omega, by omega, by omega⟩
    rw [shiftToTargetExponent_of_lt hrounded (by omega)]
    split
    next => exact .zero .positive
    next => exact .finite _ hfits (.inl (by omega))
  · obtain rfl : rounded = 2 ^ 53 := by omega
    rw [shiftToTargetExponent_of_eq (by omega)]
    dsimp only
    exact .finite (by decide) ⟨by decide, by omega, by omega, .inl le_rfl⟩ (by omega)

theorem inUnit_round (hpos : 0 < m) (hbelow : (m.log2 : Int) + 1 + e ≤ 0) :
    InUnit (UnpackedFloat.round .binary64 .positive m e) := by
  unfold UnpackedFloat.round decreaseExponent totalExponent
  simp only [targetExponent_eq]
  generalize hk : (e - max ((m.log2 : Int) + 1 + e - 53) (-1074)).toNat = k
  have hbits : (m <<< k).log2 = m.log2 + k := log2_shiftLeft hpos k
  apply inUnit_roundWithAccuracy
  · rw [hbits]
    omega
  · rw [hbits]
    omega

/-- The double one. -/
def one : UnpackedFloat :=
  .finite .positive (2 ^ 52) (-52) (by decide)

theorem inUnit_one : InUnit one :=
  .finite _ ⟨by decide, by decide, by decide, .inl le_rfl⟩ (.inr ⟨rfl, rfl⟩)

/-- The difference of one and a number between zero and one. -/
theorem inUnit_one_sub (h : InUnit u) : InUnit (UnpackedFloat.sub .binary64 one u) := by
  cases h with
  | zero s => exact inUnit_one
  | @finite m e hpos hfits hle =>
    unfold one UnpackedFloat.sub decreaseExponent
    dsimp only
    rcases hle with hless | ⟨rfl, rfl⟩
    -- at the exponent of the number one has the significand `2 ^ (53 + n)`
    · obtain ⟨n, rfl⟩ : ∃ n : Nat, e = -(53 + n) := ⟨(-53 - e).toNat, by omega⟩
      have hmin : min (-52) (-(53 + (n : Int))) = -(53 + n) := by omega
      have hone : (-52 - -(53 + (n : Int))).toNat = 1 + n := by omega
      have hpow : 2 ^ 52 <<< (1 + n) = 2 ^ (53 + n) := by
        rw [Nat.shiftLeft_eq, ← Nat.pow_add]
        congr 1
        omega
      have hlarge : m < 2 ^ (53 + n) :=
        hfits.significand_lt.trans_le (Nat.pow_le_pow_right (by decide) (by omega))
      rw [hmin, hone, hpow, Int.sub_self]
      show InUnit (UnpackedFloat.normalize .binary64 (((2 ^ (53 + n) : Nat) : Int) - m) _ _)
      unfold UnpackedFloat.normalize
      rw [Int.compare_eq_gt.mpr (by omega)]
      apply inUnit_round (by omega)
      have hbits : ((((2 ^ (53 + n) : Nat) : Int) - m).toNat).log2 < 53 + n :=
        log2_lt_of_lt (by omega) (by omega)
      omega
    · exact .zero .positive

/-- Shifted by 53 bits and by the bits that the divisor has more, a dividend
    gives a quotient of 53 bits. -/
theorem full_of_quotient {num den n : Nat} (hnum : 0 < num) (hden : 0 < den)
    (hn : num.log2 + n = 53 + den.log2) : 2 ^ 52 ≤ num * 2 ^ n / den := by
  rw [Nat.le_div_iff_mul_le hden]
  calc 2 ^ 52 * den ≤ 2 ^ 52 * 2 ^ (den.log2 + 1) := Nat.mul_le_mul_left _ Nat.lt_log2_self.le
    _ = 2 ^ num.log2 * 2 ^ n := by
      rw [← Nat.pow_add, ← Nat.pow_add, hn]
      congr 1
      omega
    _ ≤ num * 2 ^ n := Nat.mul_le_mul_right _ (Nat.log2_self_le hnum.ne')

/-- A proper fraction, divided with as many bits as a double may need. -/
theorem inUnit_round_quotient {num den n : Nat} (accuracy : Accuracy) (hnum : 0 < num)
    (hless : num < den) (hn : n = min (53 + den.log2 - num.log2) 1074) :
    InUnit (roundWithAccuracy .binary64 .positive (num * 2 ^ n / den) (-n) accuracy) := by
  have hden : 0 < den := by omega
  have hbits : num.log2 ≤ den.log2 :=
    (Nat.le_log2 hden.ne').mpr ((Nat.log2_self_le hnum.ne').trans hless.le)
  have hbelow : (num * 2 ^ n / den).log2 < n := by
    apply log2_lt_of_lt (by omega)
    rw [Nat.div_lt_iff_lt_mul hden, Nat.mul_comm]
    exact Nat.mul_lt_mul_of_pos_left hless (Nat.two_pow_pos n)
  apply inUnit_roundWithAccuracy
  · omega
  -- the quotient has all bits unless the shift was cut at the least exponent
  · by_cases hleast : n = 1074
    · omega
    · have hfull : 2 ^ 52 ≤ num * 2 ^ n / den := full_of_quotient hnum hden (by omega)
      have hlog := (Nat.le_log2 (by omega)).mpr hfull
      omega

theorem roundWithAccuracy_one : roundWithAccuracy .binary64 .positive (2 ^ 53) (-53) .exact = one :=
  rfl

/-- The quotient of two numbers of which the first is not greater. -/
theorem inUnit_div {num den : Nat} (hle : num ≤ den) (hden : 0 < den) :
    InUnit (UnpackedFloat.div .binary64 (unrounded num) (unrounded den)) := by
  unfold unrounded
  rw [dif_pos hden]
  split
  next hnum =>
    have hbits : num.log2 ≤ den.log2 :=
      (Nat.le_log2 hden.ne').mpr ((Nat.log2_self_le hnum.ne').trans hle)
    obtain ⟨n, hn⟩ : ∃ n, n = min (53 + den.log2 - num.log2) 1074 := ⟨_, rfl⟩
    have hexponent : min (0 - 0) (max ((num.log2 : Int) + 1 + 0 - (den.log2 + 1 + 0) - 53)
        (-1074)) = -n := by omega
    have hshift : (0 - 0 - -(n : Int)).toNat = n := by omega
    unfold UnpackedFloat.div divCore totalExponent
    simp only [targetExponent_eq]
    rw [hexponent, hshift, Nat.shiftLeft_eq]
    rcases hle.lt_or_eq with hless | rfl
    · exact inUnit_round_quotient _ hnum hless hn
    · obtain rfl : n = 53 := by omega
      rw [Nat.mul_div_cancel_left _ hnum, Nat.mul_mod_right]
      exact roundWithAccuracy_one ▸ inUnit_one
  next => exact .zero .positive

end Unit

/-! ## Section 4: Doubles between zero and one -/

section Packed

variable {x : Float}

theorem unpack_zero : (0.0 : Float).toModel.unpack = .zero .positive := by
  rfl

theorem unpack_one : (1.0 : Float).toModel.unpack = one := by
  rfl

theorem le_one_iff {m : Nat} {e : Int} {hpos : 0 < m} :
    (UnpackedFloat.finite .positive m e hpos).le one = true ↔
      e < -52 ∨ e = -52 ∧ m ≤ 2 ^ 52 := by
  rw [le_iff_place rfl rfl]
  simp [one, place, Prod.Lex.toLex_le_toLex]

/-- The doubles between zero and one. -/
theorem inUnit_unpack_iff : InUnit x.toModel.unpack ↔ 0.0 ≤ x ∧ x ≤ 1.0 := by
  rw [le_iff, le_iff, unpack_zero, unpack_one]
  constructor
  · generalize x.toModel.unpack = u
    rintro (s | ⟨hpos, hfits, hle⟩)
    · exact ⟨rfl, rfl⟩
    · exact ⟨rfl, le_one_iff.mpr (by omega)⟩
  · rintro ⟨hzero, hone⟩
    rcases hx : x.toModel.unpack with (_ | _) | _ | s | ⟨_ | _, m, e, hpos⟩ <;>
      rw [hx] at hzero hone
    case zero => exact .zero s
    case finite.positive =>
      have hfits := fits_of_unpack hx
      have hle := le_one_iff.mp hone
      have hfull := hfits.full
      exact .finite hpos hfits (by omega)
    case infinity.positive => exact Bool.noConfusion hone
    all_goals exact Bool.noConfusion hzero

theorem zero_bounds : (0.0 : Float) ≤ 0.0 ∧ (0.0 : Float) ≤ 1.0 :=
  inUnit_unpack_iff.mp (unpack_zero ▸ .zero .positive)

theorem one_bounds : (0.0 : Float) ≤ 1.0 ∧ (1.0 : Float) ≤ 1.0 :=
  inUnit_unpack_iff.mp (unpack_one ▸ inUnit_one)

/-- One without a double between zero and one. -/
theorem one_sub_bounds (hzero : 0.0 ≤ x) (hone : x ≤ 1.0) : 0.0 ≤ 1.0 - x ∧ 1.0 - x ≤ 1.0 := by
  have hx : InUnit x.toModel.unpack := inUnit_unpack_iff.mpr ⟨hzero, hone⟩
  rw [← inUnit_unpack_iff]
  show InUnit (Float.Model.pack (UnpackedFloat.sub .binary64 (1.0 : Float).toModel.unpack
    x.toModel.unpack)).unpack
  rw [unpack_one]
  exact (inUnit_one_sub hx).unpack_pack

/-- A proper fraction. -/
theorem quotient_bounds {num den : Nat} (hle : num ≤ den) (hden : 0 < den) :
    0.0 ≤ quotient num den ∧ quotient num den ≤ 1.0 := by
  rw [← inUnit_unpack_iff]
  exact (inUnit_div hle hden).unpack_pack

end Packed

end Double

end RegexInsight
