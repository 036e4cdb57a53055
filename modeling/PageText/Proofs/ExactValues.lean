/-
PageText/Proofs/ExactValues.lean

What machine numbers stand for.  A finite number with the sign `s`, the mantissa `m`
and the exponent `e` stands for the rational number

    ± m * 2 ^ e        (`toRat`),

and no two of them stand for the same, but for the two zeros.  Rounding looks at the
value alone, not at how it is split into mantissa and exponent, so it hands a value
that some number stands for over to that number (`Canonical.round_of_value`).

Main results: an operation whose exact result some number stands for gives that number
(`sameValue_mulAdd`), and so natural numbers up to `2 ^ 53` are converted, multiplied
and added without rounding (`toRat_ofNat`, `mulAdd_ofNat`).
-/
import PageText.Proofs.UnitFactors
import PageText.Proofs.WholeNumbers

namespace PageText.Binary64

open Float.Model (UnpackedFloat Format totalExponent)
open Float.Model.UnpackedFloat

/-! ### Values -/

/-- What an unpacked number stands for; nothing but zero if it is not finite. -/
def unpackedValue : UnpackedFloat → ℚ
  | .finite s m e _ => s.apply m * 2 ^ e
  | _ => 0

/-- What a number stands for; nothing but zero if it is not finite. -/
def toRat (x : Float) : ℚ := unpackedValue x.toModel.unpack

variable {x y z w : Float}

theorem two_zpow_pos (e : ℤ) : (0 : ℚ) < 2 ^ e := zpow_pos two_pos e

theorem unpackedValue_positive {m : ℕ} {e : ℤ} (hm : 0 < m) :
    unpackedValue (.finite .positive m e hm) = m * 2 ^ e := by
  rw [unpackedValue, Sign.apply, Int.cast_natCast]

theorem unpackedValue_negative {m : ℕ} {e : ℤ} (hm : 0 < m) :
    unpackedValue (.finite .negative m e hm) = -(m * 2 ^ e) := by
  rw [unpackedValue, Sign.apply, Int.cast_neg, Int.cast_natCast, neg_mul]

theorem size_pos {m : ℕ} (hm : 0 < m) (e : ℤ) : (0 : ℚ) < m * 2 ^ e :=
  mul_pos (Nat.cast_pos.mpr hm) (two_zpow_pos e)

theorem unpackedValue_ne_zero (s : Sign) {m : ℕ} (hm : 0 < m) (e : ℤ) :
    unpackedValue (.finite s m e hm) ≠ 0 := by
  have hsize := size_pos hm e
  cases s with
  | positive =>
    rw [unpackedValue_positive]
    exact hsize.ne'
  | negative =>
    rw [unpackedValue_negative]
    exact neg_ne_zero.mpr hsize.ne'

theorem toRat_of_isZero (hx : IsZero x) : toRat x = 0 := by
  obtain ⟨s, hs⟩ := hx
  rw [toRat, hs]
  rfl

theorem isZero_of_toRat (hx : x.isFinite = true) (h : toRat x = 0) : IsZero x := by
  rcases unpack_of_isFinite hx with hzero | ⟨s, m, e, hm, hs⟩
  · exact hzero
  · rw [toRat, hs] at h
    exact absurd h (unpackedValue_ne_zero s hm e)

theorem SameValue.toRat_eq (h : SameValue x y) : toRat x = toRat y := by
  rcases h with rfl | ⟨hx, hy⟩
  · rfl
  · rw [toRat_of_isZero hx, toRat_of_isZero hy]

/-! ### Negation -/

theorem unpack_neg (x : Float) : (-x).toModel.unpack = x.toModel.unpack.neg := by
  show (Float.Model.pack x.toModel.unpack.neg).unpack = _
  rcases h : x.toModel.unpack with (_ | _) | _ | (_ | _) | ⟨s, m, e, hm⟩
  case finite => exact (canonical_of_unpack h).unpack_pack hm (-s)
  all_goals rfl

theorem isFinite_neg (hx : x.isFinite = true) : (-x).isFinite = true := by
  show (-x).toModel.unpack.isFinite = true
  rw [unpack_neg]
  rcases unpack_of_isFinite hx with ⟨s, hs⟩ | ⟨s, m, e, hm, hs⟩
  · rw [hs]
    rfl
  · rw [hs]
    rfl

theorem toRat_neg (x : Float) : toRat (-x) = -toRat x := by
  rw [toRat, toRat, unpack_neg]
  rcases x.toModel.unpack with s | _ | s | ⟨s, m, e, hm⟩
  case finite =>
    cases s with
    | positive =>
      rw [unpackedValue_positive]
      exact unpackedValue_negative hm
    | negative =>
      rw [unpackedValue_negative, neg_neg]
      exact unpackedValue_positive hm
  all_goals exact neg_zero.symm

/-! ### Rounding a value that a number stands for -/

/-- **Rounding looks at the value alone**, and keeps it if it can be represented. -/
theorem Canonical.round_of_value {m n : ℕ} {e f : ℤ} (h : Canonical m e) (hpos : 0 < m)
    (hvalue : (n : ℚ) * 2 ^ f = m * 2 ^ e) (s : Sign) :
    UnpackedFloat.round Format.binary64 s n f = .finite s m e hpos := by
  rcases Int.le_total e f with hle | hle
  · obtain ⟨k, rfl⟩ := Int.le.dest hle
    have hm : n * 2 ^ k = m := by
      rw [zpow_add₀ two_ne_zero, mul_comm ((2 : ℚ) ^ e), ← mul_assoc, zpow_natCast] at hvalue
      exact_mod_cast mul_right_cancel₀ (two_zpow_pos e).ne' hvalue
    subst hm
    exact h.round_of_shorter hpos s
  · obtain ⟨k, rfl⟩ := Int.le.dest hle
    have hn : n = m * 2 ^ k := by
      rw [zpow_add₀ two_ne_zero, mul_comm ((2 : ℚ) ^ f), ← mul_assoc, zpow_natCast] at hvalue
      exact_mod_cast mul_right_cancel₀ (two_zpow_pos f).ne' hvalue
    have hround := h.round_of_longer hpos k s
    rwa [add_sub_cancel_right, ← hn] at hround

/-- A number is told by its sign and its value. -/
theorem pack_round_of_value {s : Sign} {n : ℕ} {f : ℤ} (hn : 0 < n) (hw : w.isFinite = true)
    (h : unpackedValue (.finite s n f hn) = toRat w) :
    .ofModel (.pack (UnpackedFloat.round Format.binary64 s n f)) = w := by
  rcases unpack_of_isFinite hw with hzero | ⟨t, m, e, hm, hunpack⟩
  · rw [toRat_of_isZero hzero] at h
    exact absurd h (unpackedValue_ne_zero s hn f)
  · have hsize := size_pos hn f
    have hsize' := size_pos hm e
    have hcanonical := canonical_of_unpack hunpack
    have hpack := ofModel_pack_unpack w
    rw [toRat, hunpack] at h
    rw [hunpack] at hpack
    -- a positive value is not a negative one
    cases s <;> cases t
    case positive.positive =>
      rw [unpackedValue_positive, unpackedValue_positive] at h
      rw [hcanonical.round_of_value hm h]
      exact hpack
    case negative.negative =>
      rw [unpackedValue_negative, unpackedValue_negative, neg_inj] at h
      rw [hcanonical.round_of_value hm h]
      exact hpack
    case positive.negative =>
      rw [unpackedValue_positive, unpackedValue_negative] at h
      linarith
    case negative.positive =>
      rw [unpackedValue_negative, unpackedValue_positive] at h
      linarith

/-- **No two numbers stand for the same**, but for the zeros. -/
theorem sameValue_of_toRat_eq (hx : x.isFinite = true) (hy : y.isFinite = true)
    (h : toRat x = toRat y) : SameValue x y := by
  rcases unpack_of_isFinite hx with hzero | ⟨s, m, e, hm, hunpack⟩
  · rw [toRat_of_isZero hzero] at h
    exact .inr ⟨hzero, isZero_of_toRat hy h.symm⟩
  · have hcanonical := canonical_of_unpack hunpack
    have hself := hcanonical.round_of_value hm rfl s
    have hpack := ofModel_pack_unpack x
    rw [toRat, hunpack] at h
    rw [hunpack, ← hself, pack_round_of_value hm hy h] at hpack
    exact .inl hpack.symm

theorem beq_iff_toRat (hx : x.isFinite = true) (hy : y.isFinite = true) :
    (x == y) = true ↔ toRat x = toRat y := by
  rw [beq_iff]
  exact ⟨fun h => h.2.toRat_eq,
    fun h => ⟨isNaN_of_isFinite hx, sameValue_of_toRat_eq hx hy h⟩⟩

/-- An integer that is not zero is rounded by its sign and its size. -/
theorem normalize_apply (s : Sign) {n : ℕ} (hn : 0 < n) (f : ℤ) :
    UnpackedFloat.normalize Format.binary64 (s.apply n) f .positive
      = UnpackedFloat.round Format.binary64 s n f := by
  cases s with
  | positive =>
    have hsign : compare (Sign.positive.apply n) 0 = .gt :=
      Int.compare_eq_gt.mpr (Int.natCast_pos.mpr hn)
    rw [UnpackedFloat.normalize, hsign]
    rfl
  | negative =>
    have hsign : compare (Sign.negative.apply n) 0 = .lt :=
      Int.compare_eq_lt.mpr (Int.neg_neg_of_pos (Int.natCast_pos.mpr hn))
    have hsize : -Sign.negative.apply n = n := neg_neg _
    rw [UnpackedFloat.normalize, hsign, hsize]
    rfl

/-- An integer times a power of two is rounded to the number that stands for it. -/
theorem sameValue_normalize {n f : ℤ} (hw : w.isFinite = true) (h : (n : ℚ) * 2 ^ f = toRat w) :
    SameValue (.ofModel (.pack (UnpackedFloat.normalize Format.binary64 n f .positive))) w := by
  have hsigned : n = 0 ∨ ∃ (s : Sign) (m : ℕ), 0 < m ∧ n = s.apply m := by
    rcases lt_trichotomy n 0 with hn | hn | hn
    · exact .inr ⟨.negative, n.natAbs, by omega, by simp only [Sign.apply]; omega⟩
    · exact .inl hn
    · exact .inr ⟨.positive, n.natAbs, by omega, by simp only [Sign.apply]; omega⟩
  rcases hsigned with rfl | ⟨s, m, hm, rfl⟩
  · rw [Int.cast_zero, zero_mul] at h
    have hnormal : UnpackedFloat.normalize Format.binary64 0 f .positive = .zero .positive := by
      rw [UnpackedFloat.normalize, Int.compare_eq_eq.mpr rfl]
    rw [hnormal]
    exact .inr ⟨⟨.positive, rfl⟩, isZero_of_toRat hw h.symm⟩
  · rw [normalize_apply s hm]
    exact .inl (pack_round_of_value hm hw h)

/-! ### Multiplying and adding -/

theorem value_decreaseExponent (m : ℕ) {e f : ℤ} (hle : f ≤ e) :
    ((decreaseExponent m e f).1 : ℚ) * 2 ^ f = m * 2 ^ e := by
  obtain ⟨k, rfl⟩ := Int.le.dest hle
  have hshift : (f + k - f).toNat = k := by omega
  rw [decreaseExponent, hshift, Nat.shiftLeft_eq, zpow_add₀ two_ne_zero, zpow_natCast]
  push_cast
  ring

theorem value_apply_decreaseExponent (s : Sign) {m : ℕ} (hm : 0 < m) {e f : ℤ} (hle : f ≤ e) :
    ((s.apply (decreaseExponent m e f).1 : ℤ) : ℚ) * 2 ^ f = unpackedValue (.finite s m e hm) := by
  have hvalue := value_decreaseExponent m hle
  cases s with
  | positive => rw [unpackedValue_positive, ← hvalue, Sign.apply, Int.cast_natCast]
  | negative =>
    rw [unpackedValue_negative, ← hvalue, Sign.apply, Int.cast_neg, Int.cast_natCast, neg_mul]

theorem unpackedValue_mul (s t : Sign) {m n : ℕ} (hm : 0 < m) (hn : 0 < n) (e f : ℤ) :
    unpackedValue (.finite (s * t) (m * n) (e + f) (Nat.mul_pos hm hn))
      = unpackedValue (.finite s m e hm) * unpackedValue (.finite t n f hn) := by
  have happly : (s * t).apply (m * n : ℕ) = s.apply m * t.apply n := by
    cases s <;> cases t
    case positive.positive => exact Nat.cast_mul m n
    case positive.negative | negative.positive =>
      show -((m * n : ℕ) : ℤ) = _
      simp [Sign.apply]
    case negative.negative =>
      show ((m * n : ℕ) : ℤ) = _
      simp [Sign.apply]
  simp only [unpackedValue, happly, zpow_add₀ (two_ne_zero (α := ℚ))]
  push_cast
  ring

/-- A sum of which some number stands for the exact value is not rounded. -/
theorem sameValue_addRounding {s : Sign} {m : ℕ} {e : ℤ} (hm : 0 < m) (hz : z.isFinite = true)
    (hw : w.isFinite = true) (h : unpackedValue (.finite s m e hm) + toRat z = toRat w) :
    SameValue (.ofModel (.pack (addRounding (.finite s m e hm) z.toModel.unpack))) w := by
  rcases unpack_of_isFinite hz with ⟨t, hzero⟩ | ⟨t, n, f, hn, hunpack⟩
  · rw [toRat_of_isZero ⟨t, hzero⟩, add_zero] at h
    rw [hzero]
    exact .inl (pack_round_of_value hm hw h)
  · rw [toRat, hunpack, ← value_apply_decreaseExponent s hm (min_le_left e f),
      ← value_apply_decreaseExponent t hn (min_le_right e f), ← add_mul, ← Int.cast_add] at h
    rw [hunpack]
    exact sameValue_normalize hw h

/-- **What can be represented is not rounded**: if some number stands for the exact
result, that is the one that a product and a sum give. -/
theorem sameValue_mulAdd (hx : x.isFinite = true) (hy : y.isFinite = true)
    (hz : z.isFinite = true) (hw : w.isFinite = true)
    (h : toRat x * toRat y + toRat z = toRat w) : SameValue (mulAdd x y z) w := by
  -- a zero adds nothing, so the sum is what is added to it
  have hzero : toRat x * toRat y = 0 →
      (∃ s, exactMul x.toModel.unpack y.toModel.unpack = .zero s) → SameValue (mulAdd x y z) w := by
    rintro hproduct ⟨s, hs⟩
    rw [hproduct, zero_add] at h
    exact (mulAdd_of_zero hs).trans (sameValue_of_toRat_eq hz hw h)
  rcases unpack_of_isFinite hx with ⟨s, hs⟩ | ⟨s, m, e, hm, hs⟩
  · refine hzero (by rw [toRat_of_isZero ⟨s, hs⟩, zero_mul]) ?_
    rcases unpack_of_isFinite hy with ⟨t, ht⟩ | ⟨t, n, f, hn, ht⟩
    · rw [hs, ht]
      exact ⟨s * t, rfl⟩
    · rw [hs, ht]
      exact ⟨s * t, rfl⟩
  rcases unpack_of_isFinite hy with ⟨t, ht⟩ | ⟨t, n, f, hn, ht⟩
  · refine hzero (by rw [toRat_of_isZero ⟨t, ht⟩, mul_zero]) ?_
    rw [hs, ht]
    exact ⟨s * t, rfl⟩
  · rw [toRat, toRat, hs, ht, ← unpackedValue_mul s t hm hn] at h
    rw [mulAdd_eq, hs, ht]
    exact sameValue_addRounding (Nat.mul_pos hm hn) hz hw h

/-! ### Natural numbers -/

/-- The value of the mantissa that is stretched to 53 bits is the number itself. -/
theorem value_mantissa {n : ℕ} (hn : n ≠ 0) (h : n < 2 ^ 53) :
    (mantissa n : ℚ) * 2 ^ exponent n = n := by
  have hlog := log2_le_of_lt hn h
  have hexponent : exponent n = -((52 - n.log2 : ℕ) : ℤ) := by
    simp only [exponent]
    omega
  have hpow : (2 : ℚ) ^ (52 - n.log2) ≠ 0 := pow_ne_zero _ two_ne_zero
  rw [mantissa, hexponent, zpow_neg, zpow_natCast, Nat.cast_mul, Nat.cast_pow, Nat.cast_ofNat,
    mul_assoc, mul_inv_cancel₀ hpow, mul_one]

/-- One times a number is not rounded. -/
theorem mul_one_of_canonical {m : ℕ} {e : ℤ} (h : Canonical m e) (hm : 0 < m) (s : Sign) :
    mul Format.binary64 (.finite s m e hm) (.finite .positive (2 ^ 52) (-52) (by decide))
      = .finite s m e hm := by
  have hround := h.roundWithAccuracy_of_longer hm 52 s
  cases s <;> exact hround

/-- A literal is the number converted. -/
theorem ofNat_eq_ofModel {n : ℕ} (h : n < 2 ^ 53) : Float.ofNat n = .ofModel (.ofNat n) := by
  -- literals are converted and multiplied by a power of ten, which here is one
  have hliteral : Float.ofNat n
      = .ofModel (.mul (.ofNat n) (Float.ofBits 0x3FF0000000000000).toModel) := by
    show Float.ofScientific n false 0 = _
    rw [Float.ofScientific, dif_pos ⟨h, by decide⟩]
    have hword : n.toUInt64.toNat = n := Nat.mod_eq_of_lt (Nat.lt_trans h (by decide))
    show Float.ofModel (.mul (.ofNat n.toUInt64.toNat) _) = _
    rw [hword]
    rfl
  have hone : (Float.ofBits 0x3FF0000000000000).toModel.unpack
      = .finite .positive (2 ^ 52) (-52) (by decide) := rfl
  rw [hliteral, Float.Model.mul, hone]
  rcases Nat.eq_zero_or_pos n with rfl | hpos
  · rfl
  · have hn := Nat.ne_of_gt hpos
    rw [unpack_ofNat hn h, mul_one_of_canonical (canonical_mantissa hn h), ← unpack_ofNat hn h,
      pack_unpack]

/-- The greatest natural number up to which none is skipped. -/
theorem unpack_ofNat_two_pow :
    (Float.ofNat (2 ^ 53)).toModel.unpack = .finite .positive (2 ^ 52) 1 (by decide) := by
  have hbits : Float.ofNat (2 ^ 53) = Float.ofBits 0x4340000000000000 := by decide +kernel
  rw [hbits]
  rfl

/-- **Natural numbers up to `2 ^ 53` are represented.** -/
theorem isFinite_ofNat {n : ℕ} (h : n ≤ 2 ^ 53) : (Float.ofNat n).isFinite = true := by
  show (Float.ofNat n).toModel.unpack.isFinite = true
  rcases Nat.eq_zero_or_pos n with rfl | hpos
  · rfl
  rcases Nat.lt_or_eq_of_le h with hlt | rfl
  · rw [ofNat_eq_ofModel hlt, unpack_ofNat (Nat.ne_of_gt hpos) hlt]
    rfl
  · rw [unpack_ofNat_two_pow]
    rfl

theorem toRat_ofNat {n : ℕ} (h : n ≤ 2 ^ 53) : toRat (Float.ofNat n) = n := by
  rcases Nat.eq_zero_or_pos n with rfl | hpos
  · rfl
  rcases Nat.lt_or_eq_of_le h with hlt | rfl
  · have hn := Nat.ne_of_gt hpos
    rw [toRat, ofNat_eq_ofModel hlt, unpack_ofNat hn hlt, unpackedValue_positive,
      value_mantissa hn hlt]
  · rw [toRat, unpack_ofNat_two_pow, unpackedValue_positive]
    norm_num

/-- **Up to `2 ^ 53` the step from a number to the one with another digit** is not
rounded. -/
theorem mulAdd_ofNat {n d : ℕ} (h : 10 * n + d ≤ 2 ^ 53) :
    mulAdd (.ofNat n) (.ofNat 10) (.ofNat d) = .ofNat (10 * n + d) := by
  have hn := isFinite_ofNat (n := n) (by omega)
  have hd := isFinite_ofNat (n := d) (by omega)
  have hvalue : toRat (.ofNat n) * toRat (.ofNat 10) + toRat (.ofNat d)
      = toRat (.ofNat (10 * n + d)) := by
    rw [toRat_ofNat (by omega), toRat_ofNat (by decide), toRat_ofNat (by omega), toRat_ofNat h]
    push_cast
    ring
  rcases sameValue_mulAdd hn (isFinite_ofNat (by decide)) hd (isFinite_ofNat h) hvalue with
    heq | ⟨-, hzero⟩
  · exact heq
  · -- only zero stands for zero, and its sign is that of the summands
    have hsum := toRat_of_isZero hzero
    rw [toRat_ofNat h, Nat.cast_eq_zero] at hsum
    obtain rfl : n = 0 := by omega
    obtain rfl : d = 0 := by omega
    rfl

end PageText.Binary64
