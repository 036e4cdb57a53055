/-
PageText/Proofs/VanishingNumerals.lean

Numbers that are read as zero.  Of the digits after the point eighteen count, be they
zeros or not, so a number is read as zero if and only if it is less than

    1 / 10 ^ 18

without its sign (`size_lt_iff`); every other one keeps its sign.  The least numbers
that are not rounded to zero are far smaller: zero is nearest up to `2 ^ -1075`
(`nearest_zero_iff`), and what lies between is lost (`zero_of_nineteenth_digit`).

Main result: `sign_of_value`.
-/
import PageText.Proofs.NumeralValues

namespace PageText

/-! ### The nearest number -/

namespace Binary64

/-- No finite number is nearer to `q` than `x`. -/
structure Nearest (q : ℚ) (x : Float) : Prop where
  finite : x.isFinite = true
  least : ∀ y : Float, y.isFinite = true → |q - toRat x| ≤ |q - toRat y|

/-- A number other than zero is no less than the least one. -/
theorem two_zpow_le_abs_toRat {x : Float} (hx : x.isFinite = true) (hne : toRat x ≠ 0) :
    (2 : ℚ) ^ (-1074 : ℤ) ≤ |toRat x| := by
  rcases unpack_of_isFinite hx with hzero | ⟨s, m, e, hm, hs⟩
  · exact absurd (toRat_of_isZero hzero) hne
  · have hlow := (canonical_of_unpack hs).low
    have habs : |toRat x| = m * 2 ^ e := by
      rw [toRat, hs]
      cases s with
      | positive => rw [unpackedValue_positive, abs_of_pos (size_pos hm e)]
      | negative => rw [unpackedValue_negative, abs_neg, abs_of_pos (size_pos hm e)]
    have hone : (1 : ℚ) ≤ m := by exact_mod_cast hm
    calc (2 : ℚ) ^ (-1074 : ℤ) ≤ 2 ^ e := zpow_le_zpow_right₀ one_le_two hlow
      _ ≤ m * 2 ^ e := le_mul_of_one_le_left (two_zpow_pos e).le hone
      _ = |toRat x| := habs.symm

/-- The least positive number. -/
theorem toRat_ofBits_one : toRat (Float.ofBits 1) = 2 ^ (-1074 : ℤ) := by
  have hunpack : (Float.ofBits 1).toModel.unpack = .finite .positive 1 (-1074) (by decide) := rfl
  rw [toRat, hunpack, unpackedValue_positive, Nat.cast_one, one_mul]

/-- **Zero is nearest** up to half of the least positive number. -/
theorem nearest_zero_iff {q : ℚ} : Nearest q 0 ↔ |q| ≤ 2 ^ (-1075 : ℤ) := by
  have hzero : toRat 0 = 0 := toRat_of_isZero ⟨.positive, rfl⟩
  have hhalf : (2 : ℚ) ^ (-1074 : ℤ) = 2 * 2 ^ (-1075 : ℤ) := zpow_one_add₀ two_ne_zero (-1075)
  have hpos := two_zpow_pos (-1075)
  constructor
  · rintro ⟨-, hleast⟩
    have hright := hleast (Float.ofBits 1) rfl
    have hleft := hleast (-Float.ofBits 1) (isFinite_neg rfl)
    rw [toRat_neg] at hleft
    rw [hzero, sub_zero, toRat_ofBits_one, hhalf] at hright hleft
    -- of the two least numbers the one on the same side of zero decides
    rcases lt_or_ge q 0 with hq | hq
    · rw [abs_of_neg hq] at hleft ⊢
      rcases le_abs.mp hleft with h | h <;> linarith
    · rw [abs_of_nonneg hq] at hright ⊢
      rcases le_abs.mp hright with h | h <;> linarith
  · intro hle
    refine ⟨rfl, fun y hy => ?_⟩
    rw [hzero, sub_zero]
    by_cases hne : toRat y = 0
    · rw [hne, sub_zero]
    · have hleast := two_zpow_le_abs_toRat hy hne
      have hdistance : |toRat y| - |q| ≤ |q - toRat y| := by
        rw [abs_sub_comm]
        exact abs_sub_abs_le_abs_sub _ _
      linarith

end Binary64

namespace Numeral

open Byte (natOfDigits)

variable {n : Numeral}

/-! ### Numbers without digits that count -/

theorem size_nonneg (n : Numeral) : 0 ≤ n.size := by
  rw [size]
  positivity

/-- What follows the digits that count is less than one unit of the eighteenth. -/
theorem exists_remainder (hn : n.Proper) :
    ∃ r : ℚ, n.size = natOfDigits n.whole + (natOfDigits n.kept / 10 ^ n.kept.length + r)
      ∧ 0 ≤ r ∧ r < 1 / 10 ^ 18 := by
  obtain ⟨dropped, hdropped⟩ : ∃ dropped, dropped = n.fractionDigits.drop 18 := ⟨_, rfl⟩
  have hsplit : n.fractionDigits = n.kept ++ dropped := by
    rw [kept, hdropped, List.take_append_drop]
  refine ⟨natOfDigits dropped / (10 ^ n.kept.length * 10 ^ dropped.length), ?_, by positivity, ?_⟩
  · have hpow : (10 : ℚ) ^ dropped.length ≠ 0 := pow_ne_zero _ (by norm_num)
    rw [size, hsplit, Byte.natOfDigits_append, List.length_append, pow_add]
    push_cast
    rw [add_div, mul_div_mul_right _ _ hpow]
  · rcases Nat.eq_zero_or_pos dropped.length with hnone | hsome
    · rw [List.length_eq_zero_iff.mp hnone, Byte.natOfDigits_zeros (by simp), Nat.cast_zero,
        zero_div]
      positivity
    · -- something is dropped, so eighteen digits are kept
      have hlength : n.kept.length = 18 := by
        rw [hdropped, List.length_drop] at hsome
        rw [kept, List.length_take]
        omega
      have hdigits : ∀ d ∈ dropped, Byte.isDigit d = true := by
        intro d hd
        exact hn.fraction d (hsplit ▸ List.mem_append_right _ hd)
      have hlt : (natOfDigits dropped : ℚ) < 10 ^ dropped.length := by
        exact_mod_cast Byte.natOfDigits_lt hdigits
      rw [hlength, mul_comm, ← div_div]
      refine div_lt_div_of_pos_right ?_ (by positivity)
      rwa [div_lt_one (by positivity)]

/-- **A number is less than `1 / 10 ^ 18`** if all digits that count are zeros. -/
theorem size_lt_iff (hn : n.Proper) :
    n.size < 1 / 10 ^ 18 ↔ natOfDigits n.whole = 0 ∧ natOfDigits n.kept = 0 := by
  obtain ⟨r, hsize, hr, hlt⟩ := exists_remainder hn
  have hlength : n.kept.length ≤ 18 := List.length_take_le 18 _
  have hpow : (10 : ℚ) ^ n.kept.length ≤ 10 ^ 18 := pow_le_pow_right₀ (by norm_num) hlength
  constructor
  · intro hsmall
    by_contra hne
    rcases Nat.eq_zero_or_pos (natOfDigits n.whole) with hzero | hwhole
    · have hkept : (1 : ℚ) ≤ natOfDigits n.kept := by
        exact_mod_cast Nat.pos_of_ne_zero fun h => hne ⟨hzero, h⟩
      have hunit : (1 : ℚ) / 10 ^ 18 ≤ natOfDigits n.kept / 10 ^ n.kept.length :=
        div_le_div₀ (by linarith) hkept (by positivity) hpow
      rw [hsize, hzero] at hsmall
      push_cast at hsmall
      linarith
    · have hone : (1 : ℚ) ≤ natOfDigits n.whole := by exact_mod_cast hwhole
      have hfraction : (0 : ℚ) ≤ natOfDigits n.kept / 10 ^ n.kept.length := by positivity
      have hunit : (1 : ℚ) / 10 ^ 18 ≤ 1 := by norm_num
      linarith
  · rintro ⟨hwhole, hkept⟩
    rw [hsize, hwhole, hkept]
    push_cast
    rwa [zero_div, zero_add, zero_add]

/-! ### Signs -/

theorem abs_denoted (n : Numeral) : |n.denoted| = n.size := by
  rw [denoted, signed]
  split
  · rw [abs_neg, abs_of_nonneg n.size_nonneg]
  · exact abs_of_nonneg n.size_nonneg

/-- A number above zero has no minus sign. -/
theorem signed_of_pos (hpos : 0 < n.denoted) (x : Float) : n.signed x = x := by
  have hnonneg := n.size_nonneg
  rw [denoted, signed] at hpos
  by_cases hminus : (n.sign == some Byte.minus) = true
  · rw [if_pos hminus] at hpos
    linarith
  · exact if_neg hminus

theorem signed_of_neg (hneg : n.denoted < 0) (x : Float) : n.signed x = -x := by
  have hnonneg := n.size_nonneg
  rw [denoted, signed] at hneg
  by_cases hminus : (n.sign == some Byte.minus) = true
  · exact if_pos hminus
  · rw [if_neg hminus] at hneg
    linarith

theorem value_of_small (hn : n.Proper) (hsmall : n.size < 1 / 10 ^ 18) :
    (n.value == 0) = true := by
  obtain ⟨hwhole, hkept⟩ := (size_lt_iff hn).mp hsmall
  have hmagnitude := magnitude_eq hn (by omega) hkept
  rw [hwhole] at hmagnitude
  show (n.signed n.magnitude == 0) = true
  rw [hmagnitude, signed]
  split <;> rfl

theorem atLeast_of_large (hn : n.Proper) (hlarge : 1 / 10 ^ 18 ≤ n.size) :
    Binary64.AtLeast (2 ^ (0 - 60 : ℤ)) n.magnitude := by
  refine atLeast_magnitude hn ?_
  rw [← not_lt, size_lt_iff hn] at hlarge
  omega

theorem value_pos (hn : n.Proper) (hlarge : 1 / 10 ^ 18 ≤ n.size) (hpos : 0 < n.denoted) :
    0 < n.value := by
  show 0 < n.signed n.magnitude
  rw [signed_of_pos hpos]
  exact (atLeast_of_large hn hlarge).pos (Binary64.two_zpow_pos _)

theorem value_neg (hn : n.Proper) (hlarge : 1 / 10 ^ 18 ≤ n.size) (hneg : n.denoted < 0) :
    n.value < 0 := by
  show n.signed n.magnitude < 0
  rw [signed_of_neg hneg]
  exact (atLeast_of_large hn hlarge).neg_lt (Binary64.two_zpow_pos _)

/-- **What a number is read as** has its sign, if the number is no less than
`1 / 10 ^ 18` without it; otherwise it is zero, also where zero is not the nearest
number. -/
theorem sign_of_value (hn : n.Proper) :
    n.ReadAs n.value
      ∧ (1 / 10 ^ 18 ≤ |n.denoted| → ¬Binary64.Nearest n.denoted 0
        ∧ (0 < n.denoted → 0 < n.value) ∧ (n.denoted < 0 → n.value < 0))
      ∧ (|n.denoted| < 1 / 10 ^ 18 → (n.value == 0) = true) := by
  rw [Binary64.nearest_zero_iff, abs_denoted]
  refine ⟨hn.readAs, fun hlarge => ⟨?_, value_pos hn hlarge, value_neg hn hlarge⟩,
    value_of_small hn⟩
  have hpow : (2 : ℚ) ^ (-1075 : ℤ) ≤ 2 ^ (-60 : ℤ) := zpow_le_zpow_right₀ one_le_two (by decide)
  have hlt : (2 : ℚ) ^ (-60 : ℤ) < 1 / 10 ^ 18 := by norm_num
  exact not_le.mpr (hpow.trans_lt (hlt.trans_le hlarge))

/-- `-0.000000000000000001` is read as a number below zero, its last digit being the
eighteenth. -/
theorem sign_of_value_of_eighteenth_digit :
    let n : Numeral := ⟨some Byte.minus, [0x30], some (List.replicate 17 0x30 ++ [0x31])⟩
    n.Proper ∧ n.denoted = -(1 / 10 ^ 18) ∧ n.ReadAs n.value ∧ n.value < 0 := by
  intro n
  have hn : n.Proper := by
    refine ⟨?_, by decide +kernel, by decide +kernel, rfl⟩
    rintro b ⟨⟩
    exact .inl rfl
  have hdenoted : n.denoted = -(1 / 10 ^ 18) := by
    have hwhole : natOfDigits n.whole = 0 := by decide
    have hfraction : natOfDigits n.fractionDigits = 1 := by decide
    have hlength : n.fractionDigits.length = 18 := rfl
    show -n.size = _
    rw [size, hwhole, hfraction, hlength]
    norm_num
  obtain ⟨hread, hlarge, -⟩ := sign_of_value hn
  rw [hdenoted] at hlarge
  obtain ⟨-, -, hneg⟩ := hlarge (by norm_num)
  exact ⟨hn, hdenoted, hread, hneg (by norm_num)⟩

/-- `0.0000000000000000001` is read as zero, its nineteenth digit being lost, although zero is
not the number nearest to it. -/
theorem zero_of_nineteenth_digit :
    let n : Numeral := ⟨none, [0x30], some (List.replicate 18 0x30 ++ [0x31])⟩
    n.Proper ∧ n.denoted = 1 / 10 ^ 19 ∧ ¬Binary64.Nearest n.denoted 0
      ∧ n.ReadAs 0 := by
  intro n
  have hn : n.Proper := by
    refine ⟨?_, by decide +kernel, by decide +kernel, rfl⟩
    rintro b ⟨⟩
  have hdenoted : n.denoted = 1 / 10 ^ 19 := by
    have hwhole : natOfDigits n.whole = 0 := by decide
    have hfraction : natOfDigits n.fractionDigits = 1 := by decide
    have hlength : n.fractionDigits.length = 19 := rfl
    show n.size = _
    rw [size, hwhole, hfraction, hlength]
    norm_num
  have hvalue : n.value = 0 := by decide +kernel
  refine ⟨hn, hdenoted, ?_, hvalue ▸ hn.readAs⟩
  rw [hdenoted, Binary64.nearest_zero_iff]
  have hpow : (2 : ℚ) ^ (-1075 : ℤ) ≤ 2 ^ (-64 : ℤ) := zpow_le_zpow_right₀ one_le_two (by decide)
  have hlt : (2 : ℚ) ^ (-64 : ℤ) < |1 / 10 ^ 19| := by norm_num
  exact not_le.mpr (hpow.trans_lt hlt)

end Numeral

end PageText
