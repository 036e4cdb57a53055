/-
PageText/Proofs/FloatOrder.lean

The order of binary64 numbers.  Comparison goes by class first: negative
infinity, negative numbers, zeros, positive numbers, positive infinity; within a
class by exponent and then by mantissa.  `rank` puts this into one key

    (class, exponent, mantissa)

of a linear order, with the last two turned around for negative numbers.  Both
zeros have the same key, and NaN compares with nothing.

Main result: `le_iff`.  One number is at most another exactly when neither is
NaN and the keys say so; so comparison is transitive (`le_trans`), and total but
for NaN (`le_total`).
-/
import Mathlib

namespace PageText.Binary64

open Float.Model (UnpackedFloat)

/-! ### Unpacked numbers -/

/-- The key of an unpacked number. -/
def unpackedRank : UnpackedFloat → ℤ ×ₗ ℤ ×ₗ ℤ
  | .infinity .negative => toLex (-2, toLex (0, 0))
  | .finite .negative m e _ => toLex (-1, toLex (-e, -m))
  | .zero _ | .notANumber => toLex (0, toLex (0, 0))
  | .finite .positive m e _ => toLex (1, toLex (e, m))
  | .infinity .positive => toLex (2, toLex (0, 0))

/-- Mantissas are compared only between equal exponents. -/
theorem isLE_compare_then (e₁ e₂ : ℤ) (m₁ m₂ : ℕ) :
    ((compare e₁ e₂).then (compare m₁ m₂)).isLE = true ↔ e₁ < e₂ ∨ e₁ = e₂ ∧ m₁ ≤ m₂ := by
  rw [Ordering.isLE_then_iff_or, Int.compare_eq_lt, Int.compare_eq_eq, Nat.isLE_compare]

/-- What is not a number compares with nothing. -/
theorem not_isNaN_of_unpacked_le {x y : UnpackedFloat} (h : x.le y = true) :
    x.isNaN = false ∧ y.isNaN = false := by
  rcases x with s | _ | s | ⟨s, m, e, hm⟩
  case notANumber => cases h
  all_goals
    rcases y with s' | _ | s' | ⟨s', m', e', hm'⟩
    case notANumber => cases s <;> cases h
    all_goals exact ⟨rfl, rfl⟩

theorem unpacked_le_iff {x y : UnpackedFloat} (hx : x.isNaN = false) (hy : y.isNaN = false) :
    x.le y = true ↔ unpackedRank x ≤ unpackedRank y := by
  -- class against class; digits count only between finite numbers of one sign
  rcases x with (_ | _) | _ | _ | ⟨_ | _, m₁, e₁, h₁⟩
  case notANumber => cases hx
  all_goals rcases y with (_ | _) | _ | _ | ⟨_ | _, m₂, e₂, h₂⟩
  all_goals try cases hy
  case finite.negative.finite.negative =>
    show ((compare e₁ e₂).then (compare m₁ m₂)).swap.isLE = true ↔ _
    rw [Ordering.swap_then, Int.compare_swap, Nat.compare_swap, isLE_compare_then]
    simp [unpackedRank, Prod.Lex.toLex_le_toLex, eq_comm]
  case finite.positive.finite.positive =>
    show ((compare e₁ e₂).then (compare m₁ m₂)).isLE = true ↔ _
    rw [isLE_compare_then]
    simp [unpackedRank, Prod.Lex.toLex_le_toLex]
  case infinity.negative.infinity.negative | infinity.negative.infinity.positive
      | infinity.positive.infinity.negative | infinity.positive.infinity.positive =>
    simp only [unpackedRank, Prod.Lex.toLex_le_toLex]
    decide
  all_goals
    simp [unpackedRank, UnpackedFloat.le, UnpackedFloat.compare, Prod.Lex.toLex_le_toLex]

/-! ### Numbers -/

/-- The key of a number. -/
def rank (x : Float) : ℤ ×ₗ ℤ ×ₗ ℤ := unpackedRank x.toModel.unpack

/-- **Comparison is that of keys**, between numbers that are not NaN. -/
theorem le_iff {x y : Float} :
    x ≤ y ↔ x.isNaN = false ∧ y.isNaN = false ∧ rank x ≤ rank y := by
  -- numbers are compared by their unpacked forms
  have hle : x ≤ y ↔ x.toModel.unpack.le y.toModel.unpack = true :=
    decide_eq_true_iff (p := x.toModel ≤ y.toModel)
  rw [hle]
  constructor
  · intro h
    obtain ⟨hx, hy⟩ := not_isNaN_of_unpacked_le h
    exact ⟨hx, hy, (unpacked_le_iff hx hy).mp h⟩
  · rintro ⟨hx, hy, h⟩
    exact (unpacked_le_iff hx hy).mpr h

theorem le_trans {x y z : Float} (hxy : x ≤ y) (hyz : y ≤ z) : x ≤ z := by
  obtain ⟨hx, -, hrank⟩ := le_iff.mp hxy
  obtain ⟨-, hz, hrank'⟩ := le_iff.mp hyz
  exact le_iff.mpr ⟨hx, hz, hrank.trans hrank'⟩

theorem le_total {x y : Float} (hx : x.isNaN = false) (hy : y.isNaN = false) : x ≤ y ∨ y ≤ x := by
  rcases Std.le_total (a := rank x) (b := rank y) with h | h
  · exact .inl (le_iff.mpr ⟨hx, hy, h⟩)
  · exact .inr (le_iff.mpr ⟨hy, hx, h⟩)

end PageText.Binary64
