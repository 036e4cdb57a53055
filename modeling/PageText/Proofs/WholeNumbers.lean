/-
PageText/Proofs/WholeNumbers.lean

Whole numbers as binary64 numbers.  A natural number `n` below `2 ^ 53` is
represented by the mantissa

    n * 2 ^ (52 - log2 n)        of 53 bits, with the exponent  log2 n - 52,

so no step of the conversion rounds (`ofNat_eq`), and packing it into 64 bits and
unpacking it again loses nothing.

Main results: a 32-bit word survives the conversion to a float and back
(`toUInt32_toFloat`), and the conversion is finite and keeps the order
(`toFloat_isFinite`, `toFloat_le`).
-/
import PageText.Proofs.Packing

namespace PageText.Binary64

open Float.Model (UnpackedFloat Format totalExponent)
open Float.Model.UnpackedFloat

/-! ### The binary form of a natural number -/

/-- The mantissa of a natural number, stretched to 53 bits. -/
def mantissa (n : Nat) : Nat := n * 2 ^ (52 - n.log2)

/-- The exponent that goes with the mantissa. -/
def exponent (n : Nat) : Int := n.log2 - 52

theorem log2_le_of_lt {n : Nat} (hn : n ≠ 0) (h : n < 2 ^ 53) : n.log2 ≤ 52 :=
  Nat.le_of_lt_succ ((Nat.log2_lt hn).mpr h)

theorem mantissa_bounds {n : Nat} (hn : n ≠ 0) (h : n < 2 ^ 53) :
    2 ^ 52 ≤ mantissa n ∧ mantissa n < 2 ^ 53 := by
  have hlog := log2_le_of_lt hn h
  have hlow := Nat.log2_self_le hn
  have hhigh : n < 2 ^ (n.log2 + 1) := Nat.lt_log2_self
  constructor
  · calc 2 ^ 52 = 2 ^ n.log2 * 2 ^ (52 - n.log2) := by rw [← Nat.pow_add, Nat.add_sub_cancel' hlog]
      _ ≤ mantissa n := Nat.mul_le_mul_right _ hlow
  · calc mantissa n < 2 ^ (n.log2 + 1) * 2 ^ (52 - n.log2) :=
        Nat.mul_lt_mul_of_pos_right hhigh (Nat.two_pow_pos _)
      _ = 2 ^ 53 := by rw [← Nat.pow_add]; congr 1; omega

theorem canonical_mantissa {n : Nat} (hn : n ≠ 0) (h : n < 2 ^ 53) :
    Canonical (mantissa n) (exponent n) := by
  obtain ⟨hlow, hhigh⟩ := mantissa_bounds hn h
  have hlog := log2_le_of_lt hn h
  refine ⟨hhigh, .inl hlow, ?_, ?_⟩
  · simp only [exponent]
    omega
  · simp only [exponent]
    omega

/-- **A natural number below `2 ^ 53` is represented exactly.** -/
theorem ofNat_eq {n : Nat} (hn : n ≠ 0) (h : n < 2 ^ 53) :
    UnpackedFloat.ofNat Format.binary64 n
      = .finite .positive (mantissa n) (exponent n)
        (Nat.lt_of_lt_of_le (by decide) (mantissa_bounds hn h).1) := by
  have hlog := log2_le_of_lt hn h
  have hexponent : exponent n + ((52 - n.log2 : Nat) : Int) = 0 := by
    simp only [exponent]
    omega
  have hsign : compare (n : Int) 0 = .gt := Int.compare_eq_gt.mpr (by omega)
  rw [UnpackedFloat.ofNat, UnpackedFloat.ofInt, UnpackedFloat.normalize, hsign, ← hexponent]
  exact (canonical_mantissa hn h).round_of_shorter _ _

/-! ### Back to a natural number -/

theorem shiftRight_mantissa (em : ExtendedMantissa) (k : Nat) :
    (em >>> k).mantissa = em.mantissa / 2 ^ k := by
  induction k with
  | zero => simp [HShiftRight.hShiftRight, Nat.repeat]
  | succ k ih =>
    show (em >>> k).mantissa / 2 = _
    rw [ih, Nat.div_div_eq_div_mul, ← Nat.pow_succ]

theorem toNat_lt_two_pow (n : UInt32) : n.toNat < 2 ^ 53 := Nat.lt_trans n.toNat_lt (by decide)

/-- What a natural number converts to. -/
theorem unpack_ofNat {n : Nat} (hn : n ≠ 0) (h : n < 2 ^ 53) :
    (Float.Model.ofNat n).unpack
      = .finite .positive (mantissa n) (exponent n)
        (Nat.lt_of_lt_of_le (by decide) (mantissa_bounds hn h).1) := by
  show (Float.Model.pack (UnpackedFloat.ofNat Format.binary64 n)).unpack = _
  rw [ofNat_eq hn h]
  exact (canonical_mantissa hn h).unpack_pack _ _

/-- What a word converts to. -/
theorem unpack_toFloat {n : UInt32} (hn : n.toNat ≠ 0) :
    n.toFloat.toModel.unpack
      = .finite .positive (mantissa n.toNat) (exponent n.toNat)
        (Nat.lt_of_lt_of_le (by decide) (mantissa_bounds hn (toNat_lt_two_pow n)).1) :=
  unpack_ofNat hn (toNat_lt_two_pow n)

theorem toInt_finite {n : Nat} (hn : n ≠ 0) (h : n < 2 ^ 53) (low high : Int) :
    UnpackedFloat.toInt low high (.finite .positive (mantissa n) (exponent n)
        (Nat.lt_of_lt_of_le (by decide) (mantissa_bounds hn h).1)) = n := by
  have hlog := log2_le_of_lt hn h
  -- the exponent is not positive, so the mantissa is only shifted to the right
  have hkeep : decreaseExponent (mantissa n) (exponent n) 0 = (mantissa n, exponent n) := by
    have hshift : (exponent n - 0).toNat = 0 := by
      simp only [exponent]
      omega
    rw [decreaseExponent, hshift]
    simp
  have hshift : (0 - exponent n).toNat = 52 - n.log2 := by
    simp only [exponent]
    omega
  show roundToInt .positive (mantissa n) (exponent n) = n
  rw [roundToInt, hkeep]
  show Sign.apply .positive ((ExtendedMantissa.mk (mantissa n) false false
    >>> (0 - exponent n).toNat).mantissa : Int) = n
  rw [shiftRight_mantissa, hshift]
  show ((n * 2 ^ (52 - n.log2) / 2 ^ (52 - n.log2) : Nat) : Int) = n
  rw [Nat.mul_div_cancel _ (Nat.two_pow_pos _)]

/-- **A word survives the conversion to a float and back.** -/
theorem toUInt32_toFloat (n : UInt32) : n.toFloat.toUInt32 = n := by
  by_cases hn : n.toNat = 0
  · obtain rfl : n = 0 := UInt32.toNat_inj.mp hn
    rfl
  · show UInt32.ofNatClamp (UnpackedFloat.toInt 0 _ n.toFloat.toModel.unpack).toNat = n
    rw [unpack_toFloat hn, toInt_finite hn (toNat_lt_two_pow n), Int.toNat_natCast,
      UInt32.ofNatClamp_eq_ofNat _ n.toNat_lt, UInt32.ofNat_toNat]

/-! ### Order -/

theorem toFloat_isFinite (n : UInt32) : n.toFloat.isFinite = true := by
  by_cases hn : n.toNat = 0
  · obtain rfl : n = 0 := UInt32.toNat_inj.mp hn
    rfl
  · show n.toFloat.toModel.unpack.isFinite = true
    rw [unpack_toFloat hn]
    rfl

theorem mantissa_le_of_log2_eq {a b : Nat} (hlog : a.log2 = b.log2) (hab : a ≤ b) :
    mantissa a ≤ mantissa b := by
  rw [mantissa, mantissa, hlog]
  exact Nat.mul_le_mul_right _ hab

/-- Conversion keeps the order. -/
theorem toFloat_le {a b : UInt32} (hab : a ≤ b) : a.toFloat ≤ b.toFloat := by
  have hab' : a.toNat ≤ b.toNat := UInt32.le_iff_toNat_le.mp hab
  refine decide_eq_true (p := a.toFloat.toModel ≤ b.toFloat.toModel) ?_
  show (a.toFloat.toModel.unpack.compare b.toFloat.toModel.unpack).any (·.isLE) = true
  by_cases hb : b.toNat = 0
  · obtain rfl : b = 0 := UInt32.toNat_inj.mp hb
    obtain rfl : a = 0 := UInt32.toNat_inj.mp (Nat.le_zero.mp hab')
    rfl
  rw [unpack_toFloat hb]
  by_cases ha : a.toNat = 0
  · obtain rfl : a = 0 := UInt32.toNat_inj.mp ha
    rfl
  rw [unpack_toFloat ha]
  -- a smaller logarithm is a smaller exponent; with the same one the mantissas decide
  have hlog : a.toNat.log2 ≤ b.toNat.log2 :=
    (Nat.le_log2 hb).mpr (Nat.le_trans (Nat.log2_self_le ha) hab')
  show ((compare (exponent a.toNat) (exponent b.toNat)).then
    (compare (mantissa a.toNat) (mantissa b.toNat))).isLE = true
  rcases Nat.lt_or_eq_of_le hlog with hlt | heq
  · rw [Int.compare_eq_lt.mpr (by simp only [exponent]; omega)]
    rfl
  · have hexp : exponent a.toNat = exponent b.toNat := by simp only [exponent, heq]
    rw [hexp, Int.compare_eq_eq.mpr rfl, Ordering.eq_then]
    exact Nat.isLE_compare.mpr (mantissa_le_of_log2_eq heq hab')

theorem toFloat_beq_self (n : UInt32) : (n.toFloat == n.toFloat) = true := by
  show (n.toFloat.toModel.unpack.compare n.toFloat.toModel.unpack == some .eq) = true
  by_cases hn : n.toNat = 0
  · obtain rfl : n = 0 := UInt32.toNat_inj.mp hn
    rfl
  · rw [unpack_toFloat hn]
    show (some ((compare (exponent n.toNat) (exponent n.toNat)).then
      (compare (mantissa n.toNat) (mantissa n.toNat))) == some .eq) = true
    rw [Int.compare_eq_eq.mpr rfl, Nat.compare_eq_eq.mpr rfl]
    rfl

end PageText.Binary64
