import Mathlib

/-! # The order of doubles

    Doubles are ordered as numbers are, apart from what is no number, which
    compares with nothing.  Numbers have places in a linear order and compare
    as their places do. -/

namespace RegexInsight

namespace Double

open Float.Model

/-! ## Section 1: Places -/

/-- Where a double stands among all doubles: its sign and whether it is
    finite, then its exponent and its significand. -/
def place : UnpackedFloat → Int ×ₗ Int ×ₗ Int
  | .infinity .negative => toLex (-2, toLex (0, 0))
  | .finite .negative m e _ => toLex (-1, toLex (-e, -m))
  | .zero _ => toLex (0, toLex (0, 0))
  | .notANumber => toLex (0, toLex (0, 0))
  | .finite .positive m e _ => toLex (1, toLex (e, m))
  | .infinity .positive => toLex (2, toLex (0, 0))

theorem compare_cast (m m' : Nat) : compare (m : Int) m' = compare m m' := by
  rw [Int.compare_eq_ite_lt, Nat.compare_eq_ite_lt]
  simp only [Int.ofNat_lt]

theorem compare_neg (e e' : Int) : compare (-e) (-e') = (compare e e').swap := by
  rw [Int.compare_swap, Int.compare_eq_ite_lt, Int.compare_eq_ite_lt]
  simp only [Int.neg_lt_neg_iff]

section Unpacked

variable {a b : UnpackedFloat}

/-- Numbers compare as their places do. -/
theorem compare_place (ha : a.isNaN = false) (hb : b.isNaN = false) :
    a.compare b = some (compare (place a) (place b)) := by
  rcases a with (_ | _) | _ | _ | ⟨_ | _, m, e, _⟩ <;>
    rcases b with (_ | _) | _ | _ | ⟨_ | _, m', e', _⟩ <;>
    simp_all only [UnpackedFloat.isNaN, UnpackedFloat.compare, place, Prod.Lex.compare_def,
      compareLex, compareOn, Bool.true_eq_false]
  case finite.negative.finite.negative =>
    show _ = some ((compare (-e) (-e')).then (compare (-(m : Int)) (-m')))
    rw [compare_neg, compare_neg, compare_cast, Ordering.swap_then]
  case finite.positive.finite.positive =>
    show _ = some ((compare e e').then (compare (m : Int) m'))
    rw [compare_cast]
  all_goals rfl

/-- What is no number compares with nothing. -/
theorem compare_eq_none (h : a.isNaN = true ∨ b.isNaN = true) : a.compare b = none := by
  rcases h with h | h
  · cases a with
    | notANumber => rfl
    | _ => exact Bool.noConfusion h
  · cases b with
    | notANumber => cases a <;> rfl
    | _ => exact Bool.noConfusion h

theorem numbers_of_compare (h : a.compare b ≠ none) : a.isNaN = false ∧ b.isNaN = false := by
  constructor
  · exact Bool.eq_false_iff.mpr fun ha => h (compare_eq_none (.inl ha))
  · exact Bool.eq_false_iff.mpr fun hb => h (compare_eq_none (.inr hb))

/-- Of two numbers the one that is not greater stands first or in the same
    place. -/
theorem le_iff_place (ha : a.isNaN = false) (hb : b.isNaN = false) :
    a.le b = true ↔ place a ≤ place b := by
  rw [UnpackedFloat.le, compare_place ha hb, ← compare_le_iff_le]
  exact Ordering.isLE_iff_ne_gt

theorem lt_iff_place (ha : a.isNaN = false) (hb : b.isNaN = false) :
    a.lt b = true ↔ place a < place b := by
  rw [UnpackedFloat.lt, compare_place ha hb, beq_iff_eq, Option.some_inj]
  exact compare_lt_iff_lt

theorem beq_iff_place (ha : a.isNaN = false) (hb : b.isNaN = false) :
    a.beq b = true ↔ place a = place b := by
  rw [UnpackedFloat.beq, compare_place ha hb, beq_iff_eq, Option.some_inj]
  exact compare_eq_iff_eq

end Unpacked

/-! ## Section 2: Packed doubles -/

section Packed

variable {x y z : Float}

theorem le_iff : x ≤ y ↔ x.toModel.unpack.le y.toModel.unpack = true := by
  show x.le y = true ↔ _
  unfold Float.le
  rw [decide_eq_true_iff]
  rfl

theorem lt_iff : x < y ↔ x.toModel.unpack.lt y.toModel.unpack = true := by
  show x.lt y = true ↔ _
  unfold Float.lt
  rw [decide_eq_true_iff]
  rfl

theorem beq_iff : (x == y) = true ↔ x.toModel.unpack.beq y.toModel.unpack = true :=
  Iff.rfl

/-- What is less than something is a number, and so is that. -/
theorem numbers_of_lt (h : x < y) : x.isNaN = false ∧ y.isNaN = false := by
  refine numbers_of_compare (a := x.toModel.unpack) (b := y.toModel.unpack) fun hnone => ?_
  rw [lt_iff, UnpackedFloat.lt, hnone] at h
  exact Bool.noConfusion h

theorem numbers_of_beq (h : (x == y) = true) : x.isNaN = false ∧ y.isNaN = false := by
  refine numbers_of_compare (a := x.toModel.unpack) (b := y.toModel.unpack) fun hnone => ?_
  rw [beq_iff, UnpackedFloat.beq, hnone] at h
  exact Bool.noConfusion h

theorem numbers_of_le (h : x ≤ y) : x.isNaN = false ∧ y.isNaN = false := by
  refine numbers_of_compare (a := x.toModel.unpack) (b := y.toModel.unpack) fun hnone => ?_
  rw [le_iff, UnpackedFloat.le, hnone] at h
  exact Bool.noConfusion h

/-- The order of doubles is that of the places of numbers. -/
theorem le_iff_number : x ≤ y ↔
    (x.isNaN = false ∧ y.isNaN = false) ∧ place x.toModel.unpack ≤ place y.toModel.unpack := by
  constructor
  · intro h
    obtain ⟨hx, hy⟩ := numbers_of_le h
    exact ⟨⟨hx, hy⟩, (le_iff_place hx hy).mp (le_iff.mp h)⟩
  · rintro ⟨⟨hx, hy⟩, hplace⟩
    exact le_iff.mpr ((le_iff_place hx hy).mpr hplace)

theorem lt_iff_number : x < y ↔
    (x.isNaN = false ∧ y.isNaN = false) ∧ place x.toModel.unpack < place y.toModel.unpack := by
  constructor
  · intro h
    obtain ⟨hx, hy⟩ := numbers_of_lt h
    exact ⟨⟨hx, hy⟩, (lt_iff_place hx hy).mp (lt_iff.mp h)⟩
  · rintro ⟨⟨hx, hy⟩, hplace⟩
    exact lt_iff.mpr ((lt_iff_place hx hy).mpr hplace)

protected theorem le_refl (hx : x.isNaN = false) : x ≤ x :=
  le_iff_number.mpr ⟨⟨hx, hx⟩, le_rfl⟩

protected theorem le_of_lt (h : x < y) : x ≤ y := by
  obtain ⟨hnumbers, hplace⟩ := lt_iff_number.mp h
  exact le_iff_number.mpr ⟨hnumbers, hplace.le⟩

protected theorem le_trans (hxy : x ≤ y) (hyz : y ≤ z) : x ≤ z := by
  obtain ⟨⟨hx, -⟩, hplace⟩ := le_iff_number.mp hxy
  obtain ⟨⟨-, hz⟩, hplace'⟩ := le_iff_number.mp hyz
  exact le_iff_number.mpr ⟨⟨hx, hz⟩, hplace.trans hplace'⟩

protected theorem not_lt_of_le (h : x ≤ y) : ¬ y < x := by
  intro hlt
  exact absurd (lt_iff_number.mp hlt).2 (le_iff_number.mp h).2.not_gt

protected theorem lt_irrefl (x : Float) : ¬ x < x :=
  fun h => lt_irrefl _ (lt_iff_number.mp h).2

/-- Of two numbers one is less, or the other one is not greater. -/
protected theorem le_of_not_lt (hx : x.isNaN = false) (hy : y.isNaN = false) (h : ¬ x < y) :
    y ≤ x := by
  refine le_iff_number.mpr ⟨⟨hy, hx⟩, not_lt.mp fun hplace => h ?_⟩
  exact lt_iff_number.mpr ⟨⟨hx, hy⟩, hplace⟩

/-- There is only one double that is no number. -/
theorem eq_of_isNaN (hx : x.isNaN = true) (hy : y.isNaN = true) : x = y := by
  have hbits : ∀ {z : Float}, z.isNaN = true →
      z.toModel.toBits.toBitVec = UnpackedFloat.packedNaN .binary64 := by
    intro z hz
    have hunpack : z.toModel.unpack.isNaN = true := hz
    unfold Float.Model.unpack UnpackedFloat.unpack at hunpack
    dsimp only at hunpack
    split at hunpack
    next hexponent =>
      split at hunpack
      next => exact Bool.noConfusion hunpack
      next hmantissa => exact z.toModel.valid.eq_packedNaN hexponent hmantissa
    next =>
      split at hunpack
      next => split at hunpack <;> exact Bool.noConfusion hunpack
      next => exact Bool.noConfusion hunpack
  have hsame : x.toModel.toBits = y.toModel.toBits :=
    UInt64.toBitVec_inj.mp ((hbits hx).trans (hbits hy).symm)
  obtain ⟨⟨b, hb⟩⟩ := x
  obtain ⟨⟨c, hc⟩⟩ := y
  obtain rfl : b = c := hsame
  rfl

end Packed

end Double

end RegexInsight
