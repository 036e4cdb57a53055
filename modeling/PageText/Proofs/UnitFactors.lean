/-
PageText/Proofs/UnitFactors.lean

Products with zeros and ones.  A matrix that moves points holds zeros and ones
but for its last row, so a product with it computes cells like

    1 * x + (0 * y + 0 * z)        and        dx * 0 + (dy * 0 + 1 * 1).

Such a cell is not rounded: a finite number times zero is a zero, and a zero that
is added changes no value (`SameValue`).  A number that is not finite is not lost
in it either, since its product with zero is not a number.

Main results: what the cells come to, `dot_one_zero`, `dot_zero_one` and
`dot_of_shift`, and which numbers are finite when they are.
-/
import PageText.Geometry.Transform
import PageText.Proofs.Packing

namespace PageText.Binary64

open Float.Model (UnpackedFloat Format totalExponent)
open Float.Model.UnpackedFloat
open Scalar (one)

/-! ### The same value -/

/-- The number is a zero, of either sign. -/
def IsZero (x : Float) : Prop := ∃ s, x.toModel.unpack = .zero s

/-- The numbers are the same, but a zero may have either sign. -/
def SameValue (x y : Float) : Prop := x = y ∨ IsZero x ∧ IsZero y

variable {x y z : Float}

theorem IsZero.isFinite (h : IsZero x) : x.isFinite = true := by
  obtain ⟨s, hs⟩ := h
  show x.toModel.unpack.isFinite = true
  rw [hs]
  rfl

theorem unpack_of_isFinite (h : x.isFinite = true) :
    IsZero x ∨ ∃ s m e hm, x.toModel.unpack = .finite s m e hm := by
  change x.toModel.unpack.isFinite = true at h
  rcases hx : x.toModel.unpack with s | _ | s | ⟨s, m, e, hm⟩
  case zero => exact .inl ⟨s, hx⟩
  case finite => exact .inr ⟨s, m, e, hm, rfl⟩
  all_goals
    rw [hx] at h
    cases h

theorem unpack_of_not_isFinite (h : x.isFinite = false) :
    (∃ s, x.toModel.unpack = .infinity s) ∨ x.toModel.unpack = .notANumber := by
  change x.toModel.unpack.isFinite = false at h
  rcases hx : x.toModel.unpack with s | _ | s | ⟨s, m, e, hm⟩
  case infinity => exact .inl ⟨s, rfl⟩
  case notANumber => exact .inr rfl
  all_goals
    rw [hx] at h
    cases h

theorem isNaN_of_isFinite (h : x.isFinite = true) : x.isNaN = false := by
  show x.toModel.unpack.isNaN = false
  rcases unpack_of_isFinite h with ⟨s, hs⟩ | ⟨s, m, e, hm, hs⟩
  · rw [hs]
    rfl
  · rw [hs]
    rfl

namespace SameValue

theorem refl (x : Float) : SameValue x x := .inl rfl

theorem symm (h : SameValue x y) : SameValue y x := by
  rcases h with rfl | ⟨hx, hy⟩
  · exact .inl rfl
  · exact .inr ⟨hy, hx⟩

theorem trans (hxy : SameValue x y) (hyz : SameValue y z) : SameValue x z := by
  rcases hxy with rfl | ⟨hx, hy⟩
  · exact hyz
  · rcases hyz with rfl | ⟨-, hz⟩
    · exact .inr ⟨hx, hy⟩
    · exact .inr ⟨hx, hz⟩

theorem isZero (h : SameValue x y) (hy : IsZero y) : IsZero x := by
  rcases h with rfl | ⟨hx, -⟩
  · exact hy
  · exact hx

theorem isFinite (h : SameValue x y) (hx : x.isFinite = true) : y.isFinite = true := by
  rcases h with rfl | ⟨-, hy⟩
  · exact hx
  · exact hy.isFinite

end SameValue

/-- A number is known by its unpacked form. -/
theorem eq_of_unpack_eq (h : x.toModel.unpack = y.toModel.unpack) : x = y := by
  have hmodel : x.toModel = y.toModel := by rw [← pack_unpack x.toModel, h, pack_unpack]
  exact congrArg Float.ofModel hmodel

theorem ofModel_pack_unpack (x : Float) : Float.ofModel (.pack x.toModel.unpack) = x :=
  congrArg Float.ofModel (pack_unpack x.toModel)

/-- Unpacked forms compare as equal when they differ at most in the sign of
zero. -/
theorem compare_eq_iff {u v : UnpackedFloat} : u.compare v = some .eq
    ↔ u.isNaN = false ∧ (u = v ∨ (∃ s, u = .zero s) ∧ ∃ s, v = .zero s) := by
  constructor
  · intro h
    rcases u with (_ | _) | _ | s | ⟨_ | _, m, e, hm⟩
    case notANumber => cases h
    all_goals refine ⟨rfl, ?_⟩
    all_goals rcases v with (_ | _) | _ | t | ⟨_ | _, n, f, hn⟩
    case zero.zero => exact .inr ⟨⟨s, rfl⟩, ⟨t, rfl⟩⟩
    case finite.negative.finite.negative | finite.positive.finite.positive =>
      simp only [UnpackedFloat.compare, Option.some.injEq, Ordering.swap_eq_eq,
        Ordering.then_eq_eq, Int.compare_eq_eq, Nat.compare_eq_eq] at h
      obtain ⟨rfl, rfl⟩ := h
      exact .inl rfl
    all_goals first | exact .inl rfl | cases h
  · rintro ⟨hnan, rfl | ⟨⟨s, rfl⟩, ⟨t, rfl⟩⟩⟩
    · rcases u with (_ | _) | _ | _ | ⟨_ | _, m, e, hm⟩
      case notANumber => cases hnan
      case finite.negative | finite.positive => simp [UnpackedFloat.compare]
      all_goals rfl
    · rfl

/-- **Numbers compare as equal** when they have the same value and are not NaN. -/
theorem beq_iff : (x == y) = true ↔ x.isNaN = false ∧ SameValue x y := by
  show (x.toModel.unpack.compare y.toModel.unpack == some .eq) = true ↔ _
  rw [beq_iff_eq, compare_eq_iff]
  refine and_congr_right fun _ => or_congr_left ⟨eq_of_unpack_eq, ?_⟩
  rintro rfl
  rfl

theorem SameValue.beq (h : SameValue x y) (hx : x.isFinite = true) : (x == y) = true :=
  beq_iff.mpr ⟨isNaN_of_isFinite hx, h⟩

/-! ### Zero times a number -/

/-- A number is added to a product that may be longer than a number. -/
theorem mulAdd_eq (x y z : Float) : mulAdd x y z
    = .ofModel (.pack (addRounding (exactMul x.toModel.unpack y.toModel.unpack)
      z.toModel.unpack)) := rfl

theorem addRounding_nan_left (u : UnpackedFloat) : addRounding .notANumber u = .notANumber := by
  cases u <;> rfl

theorem addRounding_nan_right (u : UnpackedFloat) : addRounding u .notANumber = .notANumber := by
  cases u <;> rfl

/-- Adding to a zero keeps the value. -/
theorem mulAdd_of_zero {s : Sign} (h : exactMul x.toModel.unpack y.toModel.unpack = .zero s) :
    SameValue (mulAdd x y z) z := by
  have hpack := ofModel_pack_unpack z
  rw [mulAdd_eq, h]
  rcases hz : z.toModel.unpack with t | _ | t | ⟨t, m, e, hm⟩
  case zero =>
    refine .inr ⟨?_, t, hz⟩
    cases s <;> cases t <;> exact ⟨_, rfl⟩
  all_goals
    rw [hz] at hpack
    exact .inl hpack

theorem mulAdd_zero_left (hy : y.isFinite = true) : SameValue (mulAdd Scalar.zero y z) z := by
  rcases unpack_of_isFinite hy with ⟨s, hs⟩ | ⟨s, m, e, hm, hs⟩
  · refine mulAdd_of_zero (s := .positive * s) ?_
    rw [hs]
    rfl
  · refine mulAdd_of_zero (s := .positive * s) ?_
    rw [hs]
    rfl

theorem mulAdd_zero_right (hx : x.isFinite = true) : SameValue (mulAdd x Scalar.zero z) z := by
  rcases unpack_of_isFinite hx with ⟨s, hs⟩ | ⟨s, m, e, hm, hs⟩
  · refine mulAdd_of_zero (s := s * .positive) ?_
    rw [hs]
    rfl
  · refine mulAdd_of_zero (s := s * .positive) ?_
    rw [hs]
    rfl

theorem isNaN_mulAdd_zero (hy : y.isFinite = false) : (mulAdd Scalar.zero y z).isNaN = true := by
  have hproduct : exactMul (Scalar.zero : Float).toModel.unpack y.toModel.unpack = .notANumber := by
    rcases unpack_of_not_isFinite hy with ⟨s, hs⟩ | hs
    · rw [hs]
      rfl
    · rw [hs]
      rfl
  rw [mulAdd_eq, hproduct, addRounding_nan_left]
  rfl

/-- What is added to something that is not a number is lost. -/
theorem isNaN_mulAdd (hz : z.isNaN = true) : (mulAdd x y z).isNaN = true := by
  have hunpacked : z.toModel.unpack = .notANumber := by
    change z.toModel.unpack.isNaN = true at hz
    cases hz' : z.toModel.unpack with
    | notANumber => rfl
    | _ =>
      rw [hz'] at hz
      cases hz
  rw [mulAdd_eq, hunpacked, addRounding_nan_right]
  rfl

theorem zero_mul_eq (z : Float) : Scalar.zero * z
    = .ofModel (.pack (mul Format.binary64 (.zero .positive) z.toModel.unpack)) := rfl

theorem isZero_zero_mul (hz : z.isFinite = true) : IsZero (Scalar.zero * z) := by
  rw [zero_mul_eq]
  rcases unpack_of_isFinite hz with ⟨s, hs⟩ | ⟨s, m, e, hm, hs⟩
  · rw [hs]
    cases s <;> exact ⟨_, rfl⟩
  · rw [hs, mul]
    cases s <;> exact ⟨_, rfl⟩

theorem isNaN_zero_mul (hz : z.isFinite = false) : (Scalar.zero * z).isNaN = true := by
  rw [zero_mul_eq]
  rcases unpack_of_not_isFinite hz with ⟨s, hs⟩ | hs
  · rw [hs, mul]
    rfl
  · rw [hs]
    rfl

/-! ### One times a number -/

/-- The product of a number and one, whose mantissa has 53 bits too, is rounded
back to the number. -/
theorem round_one_mul {m : Nat} {e : Int} (h : Canonical m e) (hpos : 0 < m) (s : Sign) :
    UnpackedFloat.round Format.binary64 s (2 ^ 52 * m) (-52 + e) = .finite s m e hpos := by
  rw [Nat.mul_comm, Int.add_comm]
  exact h.round_of_longer hpos 52 s

/-- A zero that is added to a number changes no value. -/
theorem mulAdd_one (hz : IsZero z) : SameValue (mulAdd one y z) y := by
  have hpack := ofModel_pack_unpack y
  obtain ⟨t, ht⟩ := hz
  rw [mulAdd_eq, ht]
  rcases hy : y.toModel.unpack with s | _ | s | ⟨s, m, e, hm⟩
  case zero =>
    refine .inr ⟨?_, s, hy⟩
    cases s <;> cases t <;> exact ⟨_, rfl⟩
  case finite =>
    have hround := round_one_mul (canonical_of_unpack hy) hm s
    rw [hy, ← hround] at hpack
    cases s <;> exact .inl hpack
  case infinity =>
    rw [hy] at hpack
    cases s <;> exact .inl hpack
  case notANumber =>
    rw [hy] at hpack
    exact .inl hpack

/-! ### Rows of zeros and ones -/

open Transform (dot)

theorem dot_one_zero (hy : y.isFinite = true) (hz : z.isFinite = true) :
    SameValue (dot one Scalar.zero Scalar.zero x y z) x :=
  mulAdd_one ((mulAdd_zero_left hy).isZero (isZero_zero_mul hz))

/-- Had the number not been finite, the cell would not be a number. -/
theorem isFinite_of_cell {cell : Float} (h : cell.isFinite = true)
    (hlost : x.isFinite = false → cell.isNaN = true) : x.isFinite = true := by
  cases hx : x.isFinite with
  | true => rfl
  | false => cases (isNaN_of_isFinite h).symm.trans (hlost hx)

theorem isFinite_of_dot_one_zero (h : (dot one Scalar.zero Scalar.zero x y z).isFinite = true) :
    y.isFinite = true ∧ z.isFinite = true := by
  constructor
  · exact isFinite_of_cell h fun hy => isNaN_mulAdd (isNaN_mulAdd_zero hy)
  · exact isFinite_of_cell h fun hz => isNaN_mulAdd (isNaN_mulAdd (isNaN_zero_mul hz))

theorem dot_zero_one (hx : x.isFinite = true) (hz : z.isFinite = true) :
    SameValue (dot Scalar.zero one Scalar.zero x y z) y :=
  (mulAdd_zero_left hx).trans (mulAdd_one (isZero_zero_mul hz))

theorem isFinite_of_dot_zero_one (h : (dot Scalar.zero one Scalar.zero x y z).isFinite = true) :
    x.isFinite = true ∧ z.isFinite = true := by
  constructor
  · exact isFinite_of_cell h fun hx => isNaN_mulAdd_zero hx
  · exact isFinite_of_cell h fun hz => isNaN_mulAdd (isNaN_mulAdd (isNaN_zero_mul hz))

/-- The last cell of a product with a matrix that moves points. -/
theorem dot_of_shift (hx : x.isFinite = true) (hy : y.isFinite = true) :
    dot x y one Scalar.zero Scalar.zero one = one := by
  have hone : SameValue (mulAdd y Scalar.zero (one * one)) one := mulAdd_zero_right hy
  rcases (mulAdd_zero_right (x := x) hx).trans hone with h | ⟨-, s, hs⟩
  · exact h
  · cases hs

end PageText.Binary64
