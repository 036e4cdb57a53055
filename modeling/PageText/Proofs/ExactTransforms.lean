/-
PageText/Proofs/ExactTransforms.lean

Affine maps in exact arithmetic.  Over the rational numbers nothing is rounded, so
a cell of a product is the sum

    dot x y z p q r  =  x p + (y q + z r),

and products are those of 3 × 3 matrices.  Points are row vectors `(x, y, 1)`, of
which `apply` drops the last entry.  For a matrix whose last column is `(0, 0, 1)` that
entry stays one, and only then is applying a product the same as applying its
factors one after another (`apply_andThen`).

Main result: `andThen_laws`.
-/
import Mathlib
import PageText.Geometry.Transform

namespace PageText

/-- Rational numbers, where `mulAdd` does not round either. -/
instance : Scalar ℚ where
  ofNat n := n
  mulAdd x y z := x * y + z

/-! ### Cells -/

@[simp] theorem Scalar.ofNat_rat (n : ℕ) : (Scalar.ofNat n : ℚ) = n := rfl

@[simp] theorem Scalar.mulAdd_rat (x y z : ℚ) : Scalar.mulAdd x y z = x * y + z := rfl

namespace Transform

@[simp] theorem dot_rat (x y z p q r : ℚ) : dot x y z p q r = x * p + (y * q + z * r) := rfl

/-- The column that no point shows. -/
def lastColumn {α : Type} (t : Transform α) : α × α × α := (t.u, t.v, t.w)

variable {s t : Transform ℚ}

theorem lastColumn_eq_iff : t.lastColumn = (0, 0, 1) ↔ t.u = 0 ∧ t.v = 0 ∧ t.w = 1 := by
  rw [lastColumn, Prod.mk.injEq, Prod.mk.injEq]

theorem lastColumn_shift (dx dy : ℚ) : (shift dx dy).lastColumn = (0, 0, 1) :=
  lastColumn_eq_iff.mpr ⟨Nat.cast_zero, Nat.cast_zero, Nat.cast_one⟩

/-! ### Products -/

theorem andThen_assoc (r s t : Transform ℚ) :
    (r.andThen s).andThen t = r.andThen (s.andThen t) := by
  ext <;> simp only [andThen, dot_rat] <;> ring

theorem identity_andThen (t : Transform ℚ) : identity.andThen t = t := by
  ext <;> simp [andThen, identity, ofComponents]

theorem andThen_identity (t : Transform ℚ) : t.andThen identity = t := by
  ext <;> simp [andThen, identity, ofComponents]

theorem lastColumn_andThen (hs : s.lastColumn = (0, 0, 1)) (ht : t.lastColumn = (0, 0, 1)) :
    (s.andThen t).lastColumn = (0, 0, 1) := by
  obtain ⟨hsu, hsv, hsw⟩ := lastColumn_eq_iff.mp hs
  obtain ⟨htu, htv, htw⟩ := lastColumn_eq_iff.mp ht
  exact lastColumn_eq_iff.mpr (by simp [andThen, hsu, hsv, hsw, htu, htv, htw])

/-- **The first factor is applied first.**  Of the second one no column matters, since
the first hands it a row that ends in one. -/
theorem apply_andThen (hs : s.lastColumn = (0, 0, 1)) (t : Transform ℚ) (p : Point ℚ) :
    (s.andThen t).apply p = t.apply (s.apply p) := by
  obtain ⟨hu, hv, hw⟩ := lastColumn_eq_iff.mp hs
  ext
  · simp only [apply, andThen, dot_rat, Scalar.mulAdd_rat, hu, hv, hw]
    ring
  · simp only [apply, andThen, dot_rat, Scalar.mulAdd_rat, hu, hv, hw]
    ring

/-! ### Shifts -/

/-- A shift before a map moves the image of the origin to that of the shifted one. -/
theorem shift_andThen (ht : t.lastColumn = (0, 0, 1)) (x y : ℚ) :
    (shift x y).andThen t = { t with e := (t.apply ⟨x, y⟩).x, f := (t.apply ⟨x, y⟩).y } := by
  obtain ⟨hu, hv, hw⟩ := lastColumn_eq_iff.mp ht
  ext <;> simp [andThen, shift, ofComponents, apply, hu, hv, hw] <;> ring

theorem shift_andThen_shift (x y dx dy : ℚ) :
    (shift x y).andThen (shift dx dy) = shift (x + dx) (y + dy) := by
  rw [shift_andThen (lastColumn_shift dx dy)]
  ext <;> simp [shift, ofComponents, apply]

/-- **Maps compose.**  Products are associative and the identity is neutral, whatever
the last columns are; the column `(0, 0, 1)` is that of products too, and a first factor
that has it is applied before the second one.  Shifts add up, and a shift before a
map with that column changes nothing of it but the image of the origin, which becomes
the image of the shifted point. -/
theorem andThen_laws :
    (∀ r s t : Transform ℚ, (r.andThen s).andThen t = r.andThen (s.andThen t))
      ∧ (∀ t : Transform ℚ, identity.andThen t = t ∧ t.andThen identity = t)
      ∧ (∀ s t : Transform ℚ, s.lastColumn = (0, 0, 1) → t.lastColumn = (0, 0, 1) →
        (s.andThen t).lastColumn = (0, 0, 1))
      ∧ (∀ (s t : Transform ℚ) (p : Point ℚ), s.lastColumn = (0, 0, 1) →
        (s.andThen t).apply p = t.apply (s.apply p))
      ∧ (∀ x y dx dy : ℚ, (shift x y).andThen (shift dx dy) = shift (x + dx) (y + dy))
      ∧ ∀ (t : Transform ℚ) (x y : ℚ), t.lastColumn = (0, 0, 1) →
        ((shift x y).andThen t).components.take 4 = t.components.take 4
          ∧ ((shift x y).andThen t).origin = t.apply ⟨x, y⟩
          ∧ ((shift x y).andThen t).lastColumn = (0, 0, 1) := by
  refine ⟨andThen_assoc, fun t => ⟨identity_andThen t, andThen_identity t⟩, ?_, ?_,
    shift_andThen_shift, ?_⟩
  · exact fun s t hs ht => lastColumn_andThen hs ht
  · exact fun s t p hs => apply_andThen hs t p
  · intro t x y ht
    rw [shift_andThen ht]
    exact ⟨rfl, rfl, ht⟩

/-- A map that turns and skews, before a matrix with another last column.  In the other
order the product and the factors take the same point to different ones. -/
theorem andThen_laws_of_skewed :
    let s : Transform ℚ := .ofComponents 2 1 (-1) 3 5 7
    let t : Transform ℚ := ⟨1, 2, 3, 4, 5, 6, 7, 8, 9⟩
    s.lastColumn = (0, 0, 1) ∧ (s.andThen s).lastColumn = (0, 0, 1)
      ∧ (s.andThen t).apply ⟨1, 2⟩ = t.apply ⟨5, 14⟩
      ∧ ((shift 1 2).andThen s).components.take 4 = [2, 1, -1, 3]
      ∧ ((shift 1 2).andThen s).origin = ⟨5, 14⟩
      ∧ (t.andThen s).apply ⟨1, 2⟩ ≠ s.apply (t.apply ⟨1, 2⟩) := by
  intro s t
  obtain ⟨-, -, hcolumn, happly, -, hshift⟩ := andThen_laws
  have hs : s.lastColumn = (0, 0, 1) :=
    lastColumn_eq_iff.mpr ⟨Nat.cast_zero, Nat.cast_zero, Nat.cast_one⟩
  have hpoint : s.apply ⟨1, 2⟩ = ⟨5, 14⟩ := by
    ext <;> norm_num [s, ofComponents, apply]
  obtain ⟨hlinear, horigin, -⟩ := hshift s 1 2 hs
  refine ⟨hs, hcolumn s s hs hs, ?_, hlinear, ?_, ?_⟩
  · rw [happly s t ⟨1, 2⟩ hs, hpoint]
  · rw [horigin, hpoint]
  · intro h
    have hx := congrArg Point.x h
    norm_num [s, t, ofComponents, andThen, apply] at hx

end Transform

end PageText
