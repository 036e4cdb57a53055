/-
PageText/Proofs/LowerBounds.lean

Rounding does not fall below a power of two.  The powers

    2 ^ k,   k ≥ -1074,

are numbers themselves, and a value that is no less than one of them keeps its leading
bit when its mantissa is cut, and loses nothing when the mantissa is rounded up
(`exists_roundWithAccuracy`).  So a sum, a product or a quotient that is no less than
such a power before rounding is no less than it after rounding, or has become infinite;
in particular it is not zero.

Main results: `AtLeast.mulAdd`, `AtLeast.add`, `AtLeast.div`, on what numbers are at
least (`AtLeast`), and `AtLeast.pos`.
-/
import PageText.Proofs.ExactValues

namespace PageText.Binary64

open Float.Model (UnpackedFloat Format totalExponent)
open Float.Model.UnpackedFloat

/-! ### Leading bits -/

/-- The leading bit of a value tells which powers of two it reaches. -/
theorem two_zpow_le_size_iff {m : ℕ} (hm : 0 < m) {e k : ℤ} :
    (2 : ℚ) ^ k ≤ m * 2 ^ e ↔ k < totalExponent m e := by
  have hlow : (2 : ℚ) ^ (m.log2 : ℤ) ≤ m := by
    rw [zpow_natCast]
    exact_mod_cast Nat.log2_self_le (Nat.ne_of_gt hm)
  have hhigh : (m : ℚ) < 2 ^ ((m.log2 : ℤ) + 1) := by
    have hnat : m < 2 ^ (m.log2 + 1) := Nat.lt_log2_self
    exact_mod_cast hnat
  have htotal : totalExponent m e = m.log2 + e + 1 := by
    simp only [totalExponent]
    omega
  rw [htotal]
  constructor
  · intro hle
    have hlt : (2 : ℚ) ^ k < 2 ^ ((m.log2 : ℤ) + 1 + e) := by
      rw [zpow_add₀ two_ne_zero]
      exact lt_of_le_of_lt hle (mul_lt_mul_of_pos_right hhigh (two_zpow_pos e))
    have := (zpow_lt_zpow_iff_right₀ one_lt_two).mp hlt
    omega
  · intro hlt
    calc (2 : ℚ) ^ k ≤ 2 ^ ((m.log2 : ℤ) + e) := zpow_le_zpow_right₀ one_le_two (by omega)
      _ = 2 ^ (m.log2 : ℤ) * 2 ^ e := zpow_add₀ two_ne_zero _ _
      _ ≤ m * 2 ^ e := mul_le_mul_of_nonneg_right hlow (two_zpow_pos e).le

/-! ### Rounding -/

theorem roundedMantissa_bounds (em : ExtendedMantissa) :
    em.mantissa ≤ em.roundedMantissa ∧ em.roundedMantissa ≤ em.mantissa + 1 := by
  rcases em with ⟨m, _ | _, _ | _⟩ <;>
    simp only [ExtendedMantissa.roundedMantissa, ExtendedMantissa.accuracy,
      Accuracy.roundToNearestEven] <;> omega

theorem ofMantissaAndAccuracy_mantissa (m : ℕ) (acc : Accuracy) :
    (ExtendedMantissa.ofMantissaAndAccuracy m acc).mantissa = m := by
  rcases acc with _ | (_ | _ | _) <;> rfl

/-- A mantissa that rounding up has made too long is `2 ^ 53`. -/
theorem shiftToTargetExponent_two_pow {e : ℤ} (he : -1074 ≤ e) :
    shiftToTargetExponent Format.binary64 (2 ^ 53) e .exact
      = (⟨2 ^ 52, false, false⟩, e + 1) := by
  have htarget : Format.binary64.targetExponent (totalExponent (2 ^ 53) e) = e + 1 := by
    simp only [Format.targetExponent, totalExponent, Nat.log2_two_pow, Format.mantissaBits,
      Format.minExponent]
    omega
  have hshift : (e + 1 - e).toNat = 1 := by omega
  rw [shiftToTargetExponent, htarget, shiftToExponent, hshift,
    ExtendedMantissa.ofMantissaAndAccuracy]
  exact Prod.ext (shiftRight_mul 1 (2 ^ 52)) rfl

/-- The mantissa is cut to 53 bits at most, or to as many as the least exponent leaves; the
leading bit stays. -/
theorem exists_cut {m : ℕ} {e : ℤ} (hm : 0 < m) (hnormal : -1073 ≤ totalExponent m e)
    (hle : e ≤ Format.binary64.targetExponent (totalExponent m e)) (acc : Accuracy) :
    ∃ (em : ExtendedMantissa) (t : ℤ), shiftToTargetExponent Format.binary64 m e acc = (em, t)
      ∧ 0 < em.mantissa ∧ Rounded em.mantissa t
      ∧ totalExponent m e ≤ totalExponent em.mantissa t := by
  obtain ⟨k, hk⟩ := Int.le.dest hle
  have hshift : (Format.binary64.targetExponent (totalExponent m e) - e).toNat = k := by omega
  have hlog : 2 ^ m.log2 ≤ m := Nat.log2_self_le (Nat.ne_of_gt hm)
  have hlog' : m < 2 ^ (m.log2 + 1) := Nat.lt_log2_self
  -- the cut takes `k` bits, fewer than there are
  have hbits : k ≤ m.log2 ∧ m.log2 ≤ k + 52 ∧ (m.log2 = k + 52 ∨ e + k = -1074)
      ∧ -1074 ≤ e + k := by
    simp only [Format.targetExponent, totalExponent, Format.mantissaBits, Format.minExponent]
      at hk hnormal
    omega
  obtain ⟨hlow, hhigh, hfull, hleast⟩ := hbits
  have hcut : 2 ^ (m.log2 - k) ≤ m / 2 ^ k := by
    rw [Nat.le_div_iff_mul_le (Nat.two_pow_pos k), ← Nat.pow_add, Nat.sub_add_cancel hlow]
    exact hlog
  have hpos : 0 < m / 2 ^ k := Nat.lt_of_lt_of_le (Nat.two_pow_pos _) hcut
  refine ⟨ExtendedMantissa.ofMantissaAndAccuracy m acc >>> k, e + k, ?_, ?_⟩
  · rw [shiftToTargetExponent, shiftToExponent, hshift]
  rw [shiftRight_mantissa, ofMantissaAndAccuracy_mantissa]
  refine ⟨hpos, ⟨?_, hfull.imp_left fun hfull => ?_, hleast⟩, ?_⟩
  · rw [Nat.div_lt_iff_lt_mul (Nat.two_pow_pos k), ← Nat.pow_add]
    exact Nat.lt_of_lt_of_le hlog' (Nat.pow_le_pow_right two_pos (by omega))
  · rwa [hfull, Nat.add_sub_cancel_left] at hcut
  · have hlead := (Nat.le_log2 (Nat.ne_of_gt hpos)).mpr hcut
    simp only [totalExponent]
    omega

/-- **Rounding keeps the leading bit**, or moves it up. -/
theorem exists_roundWithAccuracy {m : ℕ} {e : ℤ} (hm : 0 < m)
    (hnormal : -1073 ≤ totalExponent m e)
    (hle : e ≤ Format.binary64.targetExponent (totalExponent m e)) (s : Sign) (acc : Accuracy) :
    ∃ m' e' hm', roundWithAccuracy Format.binary64 s m e acc = .finite s m' e' hm'
      ∧ Rounded m' e' ∧ totalExponent m e ≤ totalExponent m' e' := by
  obtain ⟨em, t, hcut, hpos, hrounded, htotal⟩ := exists_cut hm hnormal hle acc
  obtain ⟨hlow, hhigh⟩ := roundedMantissa_bounds em
  have hshort := hrounded.short
  have hround : roundWithAccuracy Format.binary64 s m e acc
      = match shiftToTargetExponent Format.binary64 em.roundedMantissa t .exact with
        | (final, e) => if h : final.mantissa = 0 then .zero s
          else .finite s final.mantissa e (Nat.pos_of_ne_zero h) := by
    rw [roundWithAccuracy, hcut]
  rcases Nat.lt_or_ge em.roundedMantissa (2 ^ 53) with hlt | hge
  · have hrounded' : Rounded em.roundedMantissa t :=
      ⟨hlt, hrounded.full.imp_left fun h => Nat.le_trans h hlow, hrounded.low⟩
    have hpos' : 0 < em.roundedMantissa := Nat.lt_of_lt_of_le hpos hlow
    have hlead : em.mantissa.log2 ≤ em.roundedMantissa.log2 :=
      (Nat.le_log2 (Nat.ne_of_gt hpos')).mpr
        (Nat.le_trans (Nat.log2_self_le (Nat.ne_of_gt hpos)) hlow)
    rw [hrounded'.shiftToTargetExponent hpos'] at hround
    refine ⟨_, t, hpos', hround.trans (dif_neg (Nat.ne_of_gt hpos')), hrounded', ?_⟩
    refine Int.le_trans htotal ?_
    simp only [totalExponent]
    omega
  · -- rounding up has carried over into another bit
    have htop : em.roundedMantissa = 2 ^ 53 := by omega
    have hlog : em.mantissa.log2 ≤ 52 :=
      Nat.le_of_lt_succ ((Nat.log2_lt (Nat.ne_of_gt hpos)).mpr hshort)
    have hlow' := hrounded.low
    rw [htop, shiftToTargetExponent_two_pow hlow'] at hround
    refine ⟨2 ^ 52, t + 1, by decide, hround, ⟨by decide, .inl (Nat.le_refl _), by omega⟩, ?_⟩
    refine Int.le_trans htotal ?_
    simp only [totalExponent, Nat.log2_two_pow]
    omega

/-! ### Numbers that are at least something -/

/-- The number is `q` or more, or infinite. -/
def AtLeast (q : ℚ) (x : Float) : Prop :=
  x.toModel.unpack = .infinity .positive ∨ x.isFinite = true ∧ q ≤ toRat x

variable {x y z : Float} {k : ℤ} {p q : ℚ}

theorem AtLeast.mono (h : AtLeast q x) (hpq : p ≤ q) : AtLeast p x :=
  h.imp_right fun ⟨hx, hle⟩ => ⟨hx, hpq.trans hle⟩

/-- A finite number above zero has a positive sign. -/
theorem exists_positive (hx : x.isFinite = true) (h : 0 < toRat x) :
    ∃ m e hm, x.toModel.unpack = .finite .positive m e hm ∧ toRat x = m * 2 ^ e := by
  rcases unpack_of_isFinite hx with hzero | ⟨s, m, e, hm, hs⟩
  · rw [toRat_of_isZero hzero] at h
    exact absurd h (lt_irrefl 0)
  · have hvalue : toRat x = unpackedValue (.finite s m e hm) := congrArg unpackedValue hs
    cases s with
    | positive => exact ⟨m, e, hm, hs, hvalue.trans (unpackedValue_positive hm)⟩
    | negative =>
      have hsize := size_pos hm e
      rw [hvalue, unpackedValue_negative] at h
      linarith

theorem AtLeast.pos (h : AtLeast q x) (hq : 0 < q) : 0 < x := by
  have hlt : 0 < x ↔ (0 : Float).toModel.unpack.lt x.toModel.unpack = true :=
    decide_eq_true_iff (p := (0 : Float).toModel < x.toModel)
  rw [hlt]
  rcases h with h | ⟨hx, hle⟩
  · rw [h]
    rfl
  · obtain ⟨m, e, hm, hs, -⟩ := exists_positive hx (hq.trans_le hle)
    rw [hs]
    rfl

theorem AtLeast.neg_lt (h : AtLeast q x) (hq : 0 < q) : -x < 0 := by
  have hlt : -x < 0 ↔ (-x).toModel.unpack.lt (0 : Float).toModel.unpack = true :=
    decide_eq_true_iff (p := (-x).toModel < (0 : Float).toModel)
  rw [hlt, unpack_neg]
  rcases h with h | ⟨hx, hle⟩
  · rw [h]
    rfl
  · obtain ⟨m, e, hm, hs, -⟩ := exists_positive hx (hq.trans_le hle)
    rw [hs]
    rfl

theorem atLeast_of_eq {u : UnpackedFloat} (h : u = x.toModel.unpack) (hx : AtLeast q x) :
    AtLeast q (.ofModel (.pack u)) := by
  rwa [h, ofModel_pack_unpack]

theorem atLeast_pack {m : ℕ} {e : ℤ} (h : Rounded m e) (hm : 0 < m) (hle : q ≤ m * 2 ^ e) :
    AtLeast q (.ofModel (.pack (.finite .positive m e hm))) := by
  rcases unpack_pack_of_rounded h hm .positive with hunpack | hunpack
  · refine .inr ⟨congrArg UnpackedFloat.isFinite hunpack, ?_⟩
    show q ≤ unpackedValue (Float.Model.pack (.finite .positive m e hm)).unpack
    rwa [hunpack, unpackedValue_positive]
  · exact .inl hunpack

/-- **Rounding does not fall below a power of two.** -/
theorem atLeast_roundWithAccuracy {m : ℕ} {e : ℤ} (hm : 0 < m) (hk : -1074 ≤ k)
    (h : (2 : ℚ) ^ k ≤ m * 2 ^ e)
    (hle : e ≤ Format.binary64.targetExponent (totalExponent m e)) (acc : Accuracy) :
    AtLeast (2 ^ k) (.ofModel (.pack (roundWithAccuracy Format.binary64 .positive m e acc))) := by
  have hlead := (two_zpow_le_size_iff hm).mp h
  obtain ⟨m', e', hm', hround, hrounded, htotal⟩ :=
    exists_roundWithAccuracy hm (by omega) hle .positive acc
  rw [hround]
  exact atLeast_pack hrounded hm' ((two_zpow_le_size_iff hm').mpr (by omega))

theorem atLeast_round {m : ℕ} {e : ℤ} (hm : 0 < m) (hk : -1074 ≤ k)
    (h : (2 : ℚ) ^ k ≤ m * 2 ^ e) :
    AtLeast (2 ^ k) (.ofModel (.pack (UnpackedFloat.round Format.binary64 .positive m e))) := by
  obtain ⟨j, hj⟩ : ∃ j : ℕ,
      (e - Format.binary64.targetExponent (totalExponent m e)).toNat = j := ⟨_, rfl⟩
  have hround : UnpackedFloat.round Format.binary64 .positive m e
      = roundWithAccuracy Format.binary64 .positive (m * 2 ^ j) (e - j) .exact := by
    rw [UnpackedFloat.round, decreaseExponent, hj, Nat.shiftLeft_eq]
  have htotal : totalExponent (m * 2 ^ j) (e - j) = totalExponent m e := by
    simp only [totalExponent, log2_mul_two_pow (Nat.ne_of_gt hm)]
    omega
  have hpos : 0 < m * 2 ^ j := Nat.mul_pos hm (Nat.two_pow_pos j)
  rw [hround]
  refine atLeast_roundWithAccuracy hpos hk ?_ ?_ .exact
  · rw [two_zpow_le_size_iff hpos, htotal]
    exact (two_zpow_le_size_iff hm).mp h
  · rw [htotal]
    omega

/-! ### Natural numbers -/

theorem atLeast_ofNat {n : ℕ} (h : n ≤ 2 ^ 53) : AtLeast n (Float.ofNat n) :=
  .inr ⟨isFinite_ofNat h, (toRat_ofNat h).ge⟩

/-- A natural number other than zero is converted to one or more, however great it is. -/
theorem atLeast_ofModel_ofNat {n : ℕ} (hn : 0 < n) :
    AtLeast (2 ^ (0 : ℤ)) (.ofModel (.ofNat n)) := by
  have hround : UnpackedFloat.ofNat Format.binary64 n
      = UnpackedFloat.round Format.binary64 .positive n 0 := normalize_apply .positive hn 0
  show AtLeast _ (.ofModel (.pack (UnpackedFloat.ofNat Format.binary64 n)))
  rw [hround]
  refine atLeast_round hn (by decide) ?_
  rw [zpow_zero, mul_one]
  exact_mod_cast hn

/-! ### Sums -/

/-- What is at least zero is a zero, a positive number or infinite. -/
theorem AtLeast.cases (h : AtLeast 0 x) :
    x.toModel.unpack = .infinity .positive ∨ IsZero x
      ∨ ∃ m e hm, x.toModel.unpack = .finite .positive m e hm ∧ toRat x = m * 2 ^ e := by
  rcases h with h | ⟨hx, hle⟩
  · exact .inl h
  · rcases hle.eq_or_lt with heq | hlt
    · exact .inr (.inl (isZero_of_toRat hx heq.symm))
    · exact .inr (.inr (exists_positive hx hlt))

theorem add_eq (x y : Float) : x + y
    = .ofModel (.pack (UnpackedFloat.add Format.binary64 x.toModel.unpack y.toModel.unpack)) := rfl

/-- A sum of positive numbers, of any mantissa length, is no less than the first. -/
theorem atLeast_normalize {m n : ℕ} {e f : ℤ} (hm : 0 < m) (hk : -1074 ≤ k)
    (h : (2 : ℚ) ^ k ≤ m * 2 ^ e) :
    AtLeast (2 ^ k) (.ofModel (.pack (UnpackedFloat.normalize Format.binary64
      (Sign.positive.apply (decreaseExponent m e (min e f)).1
        + Sign.positive.apply (decreaseExponent n f (min e f)).1) (min e f) .positive))) := by
  have hvalue := value_decreaseExponent m (min_le_left e f)
  generalize (decreaseExponent m e (min e f)).1 = m' at hvalue ⊢
  generalize (decreaseExponent n f (min e f)).1 = n' at ⊢
  have hm' : 0 < m' := by
    rcases Nat.eq_zero_or_pos m' with rfl | hpos
    · rw [Nat.cast_zero, zero_mul] at hvalue
      exact absurd hvalue.symm (size_pos hm e).ne'
    · exact hpos
  have hsum : Sign.positive.apply m' + Sign.positive.apply n' = Sign.positive.apply (m' + n' : ℕ) :=
    (Int.natCast_add m' n').symm
  rw [hsum, normalize_apply .positive (Nat.add_pos_left hm' n')]
  refine atLeast_round (Nat.add_pos_left hm' n') hk ?_
  calc (2 : ℚ) ^ k ≤ m' * 2 ^ min e f := h.trans_eq hvalue.symm
    _ ≤ (m' + n' : ℕ) * 2 ^ min e f := by
      refine mul_le_mul_of_nonneg_right ?_ (two_zpow_pos _).le
      exact_mod_cast Nat.le_add_right m' n'

/-- A sum is no less than its first summand, when the other is not negative. -/
theorem AtLeast.addRounding {m : ℕ} {e : ℤ} (hm : 0 < m) (hk : -1074 ≤ k)
    (h : (2 : ℚ) ^ k ≤ m * 2 ^ e) (hz : AtLeast 0 z) :
    AtLeast (2 ^ k)
      (.ofModel (.pack (addRounding (.finite .positive m e hm) z.toModel.unpack))) := by
  rcases hz.cases with hinf | ⟨t, ht⟩ | ⟨n, f, hn, ht, -⟩
  · refine atLeast_of_eq ?_ (.inl hinf)
    rw [hinf]
    rfl
  · rw [ht]
    exact atLeast_round hm hk h
  · rw [ht]
    exact atLeast_normalize hm hk h

theorem AtLeast.add (hk : -1074 ≤ k) (hx : AtLeast (2 ^ k) x) (hz : AtLeast 0 z) :
    AtLeast (2 ^ k) (x + z) := by
  rw [add_eq]
  rcases hx with hs | ⟨hfinite, hle⟩
  · refine atLeast_of_eq ?_ (.inl hs)
    rcases hz.cases with ht | ⟨t, ht⟩ | ⟨n, f, hn, ht, -⟩ <;>
      rw [hs, ht] <;> rfl
  obtain ⟨m, e, hm, hs, hvalue⟩ := exists_positive hfinite ((two_zpow_pos k).trans_le hle)
  rcases hz.cases with ht | ⟨t, ht⟩ | ⟨n, f, hn, ht, -⟩
  · refine atLeast_of_eq ?_ (.inl ht)
    rw [hs, ht]
    rfl
  · refine atLeast_of_eq ?_ (.inr ⟨hfinite, hle⟩)
    rw [hs, ht]
    rfl
  · rw [hs, ht]
    exact atLeast_normalize hm hk (hvalue ▸ hle)

/-- A positive zero changes no positive number. -/
theorem add_zero_of_pos (hx : x.isFinite = true) (hpos : 0 < toRat x) : x + 0 = x := by
  obtain ⟨m, e, hm, hs, -⟩ := exists_positive hx hpos
  have hsum : UnpackedFloat.add Format.binary64 x.toModel.unpack (0 : Float).toModel.unpack
      = x.toModel.unpack := by
    rw [hs]
    rfl
  rw [add_eq, hsum, ofModel_pack_unpack]

theorem ofNat_add_zero {n : ℕ} (h : n ≤ 2 ^ 53) : Float.ofNat n + 0 = Float.ofNat n := by
  rcases Nat.eq_zero_or_pos n with rfl | hpos
  · rfl
  · refine add_zero_of_pos (isFinite_ofNat h) ?_
    rw [toRat_ofNat h]
    exact_mod_cast hpos

theorem addition_comm (x y : Float) : x + y = y + x := by
  rw [add_eq, add_eq]
  congr 2
  rcases x.toModel.unpack with (_ | _) | _ | (_ | _) | ⟨s, m, e, hm⟩ <;>
    rcases y.toModel.unpack with (_ | _) | _ | (_ | _) | ⟨t, n, f, hn⟩
  case finite.finite =>
    simp only [UnpackedFloat.add, min_comm e f, Int.add_comm]
  all_goals rfl

/-! ### Products that are added to -/

theorem AtLeast.mulAdd (hk : -1074 ≤ k) (hx : AtLeast (2 ^ k) x) (hy : y.isFinite = true)
    (hone : 1 ≤ toRat y) (hz : AtLeast 0 z) : AtLeast (2 ^ k) (mulAdd x y z) := by
  obtain ⟨n, f, hn, ht, hvalue'⟩ := exists_positive hy (zero_lt_one.trans_le hone)
  rw [mulAdd_eq]
  rcases hx with hs | ⟨hfinite, hle⟩
  · refine atLeast_of_eq ?_ (.inl hs)
    rcases hz.cases with hu | ⟨t, hu⟩ | ⟨l, g, hl, hu, -⟩ <;>
      rw [hs, ht, hu] <;> rfl
  · obtain ⟨m, e, hm, hs, hvalue⟩ := exists_positive hfinite ((two_zpow_pos k).trans_le hle)
    rw [hs, ht]
    refine AtLeast.addRounding (Nat.mul_pos hm hn) hk ?_ hz
    calc (2 : ℚ) ^ k ≤ toRat x * toRat y :=
          hle.trans (le_mul_of_one_le_right ((two_zpow_pos k).le.trans hle) hone)
      _ = (m * n : ℕ) * 2 ^ (e + f) := by
        rw [hvalue, hvalue', zpow_add₀ two_ne_zero]
        push_cast
        ring

/-! ### Quotients -/

theorem div_eq (x y : Float) : x / y
    = .ofModel (.pack (div Format.binary64 x.toModel.unpack y.toModel.unpack)) := rfl

theorem zero_div_of_pos (hy : y.isFinite = true) (hpos : 0 < toRat y) : 0 / y = 0 := by
  obtain ⟨n, f, hn, ht, -⟩ := exists_positive hy hpos
  rw [div_eq, ht]
  rfl

/-- A quotient has as many bits as the dividend is longer than the divisor. -/
theorem two_pow_le_div {m n p s : ℕ} (hm : 0 < m) (hn : 0 < n)
    (hbits : p + (n.log2 + 1) = m.log2 + s) : 2 ^ p ≤ (m * 2 ^ s) / n := by
  rw [Nat.le_div_iff_mul_le hn]
  calc 2 ^ p * n ≤ 2 ^ p * 2 ^ (n.log2 + 1) := Nat.mul_le_mul_left _ Nat.lt_log2_self.le
    _ = 2 ^ m.log2 * 2 ^ s := by rw [← Nat.pow_add, ← Nat.pow_add, hbits]
    _ ≤ m * 2 ^ s := Nat.mul_le_mul_right _ (Nat.log2_self_le (Nat.ne_of_gt hm))

/-- The leading bit of a quotient, before it is rounded. -/
theorem exists_divCore {m n : ℕ} {e f : ℤ} (hm : 0 < m) (hn : 0 < n)
    (hk : -1074 ≤ k) (hlead : k < totalExponent m e - totalExponent n f) :
    ∃ q t acc, divCore Format.binary64 m e n f = (q, t, acc) ∧ 0 < q ∧ (2 : ℚ) ^ k ≤ q * 2 ^ t
      ∧ t ≤ Format.binary64.targetExponent (totalExponent q t) := by
  obtain ⟨d, hd⟩ : ∃ d, d = totalExponent m e - totalExponent n f := ⟨_, rfl⟩
  obtain ⟨t, ht⟩ : ∃ t, t = min (e - f) (Format.binary64.targetExponent d) := ⟨_, rfl⟩
  obtain ⟨s, hs⟩ : ∃ s : ℕ, (e - f - t).toNat = s := ⟨_, rfl⟩
  have hcore : divCore Format.binary64 m e n f
      = (m * 2 ^ s / n, t, accuracyOfFraction (m * 2 ^ s % n) n) := by
    rw [divCore, ← hd, ← ht, hs, Nat.shiftLeft_eq]
  rw [← hd] at hlead
  simp only [Format.targetExponent, Format.mantissaBits, Format.minExponent] at ht
  -- the leading bit stands `p` places above the exponent `t`
  obtain ⟨p, hp⟩ : ∃ p : ℕ, d = p + t + 1 := ⟨(d - t - 1).toNat, by omega⟩
  have hbits : p + (n.log2 + 1) = m.log2 + s := by
    simp only [totalExponent] at hd
    omega
  have hquotient := two_pow_le_div hm hn hbits
  have hpos : 0 < m * 2 ^ s / n := Nat.lt_of_lt_of_le (Nat.two_pow_pos p) hquotient
  refine ⟨_, t, _, hcore, hpos, ?_, ?_⟩
  · calc (2 : ℚ) ^ k ≤ 2 ^ ((p : ℤ) + t) := zpow_le_zpow_right₀ one_le_two (by omega)
      _ = 2 ^ p * 2 ^ t := by rw [zpow_add₀ two_ne_zero, zpow_natCast]
      _ ≤ (m * 2 ^ s / n : ℕ) * 2 ^ t := by
        refine mul_le_mul_of_nonneg_right ?_ (two_zpow_pos t).le
        exact_mod_cast hquotient
  · have hlog := (Nat.le_log2 (Nat.ne_of_gt hpos)).mpr hquotient
    simp only [totalExponent, Format.targetExponent, Format.mantissaBits, Format.minExponent]
    omega

theorem AtLeast.div {j : ℤ} (hk : -1074 ≤ k - j) (hx : AtLeast (2 ^ k) x) (hy : y.isFinite = true)
    (hpos : 0 < toRat y) (hlt : toRat y < 2 ^ j) : AtLeast (2 ^ (k - j)) (x / y) := by
  obtain ⟨n, f, hn, ht, hvalue'⟩ := exists_positive hy hpos
  rw [div_eq]
  rcases hx with hs | ⟨hfinite, hle⟩
  · refine atLeast_of_eq ?_ (.inl hs)
    rw [hs, ht]
    rfl
  · obtain ⟨m, e, hm, hs, hvalue⟩ := exists_positive hfinite ((two_zpow_pos k).trans_le hle)
    rw [hvalue, two_zpow_le_size_iff hm] at hle
    rw [hvalue', ← not_le, two_zpow_le_size_iff hn, not_lt] at hlt
    obtain ⟨q, t, acc, hcore, hq, hvalue, htarget⟩ :=
      exists_divCore (e := e) (f := f) hm hn hk (by omega)
    have hdiv : UnpackedFloat.div Format.binary64 (.finite .positive m e hm)
        (.finite .positive n f hn) = roundWithAccuracy Format.binary64 .positive q t acc := by
      show (match divCore Format.binary64 m e n f with
        | (m, e, acc) => roundWithAccuracy Format.binary64 .positive m e acc) = _
      rw [hcore]
    rw [hs, ht, hdiv]
    exact atLeast_roundWithAccuracy hq hk hvalue htarget acc

end PageText.Binary64
