/-
PageText/Proofs/NumeralValues.lean

What numbers of a content stream denote, and what they are read as.  Digits
denote a natural number; a number denotes

    ± (whole + fraction / 10 ^ length)        (`denoted`).

The digits before the point are taken up by `10 v + d`, which is not rounded as long
as the value is no greater than `2 ^ 53` (`wholeValue_eq`).  Of the digits after the
point the first eighteen are collected, beside the power of ten they are divided by
(`Collects`); if these are zeros, they add nothing.

Main result: `integers_are_exact`.
-/
import PageText.Proofs.LowerBounds
import PageText.Proofs.Spelling

namespace PageText

open Binary64 (toRat mulAdd)

/-! ### Digits -/

namespace Byte

/-- The natural number that digits denote. -/
def natOfDigits (digits : List UInt8) : ℕ :=
  Nat.ofDigits 10 (digits.map fun d => (digitValue d).toNat).reverse

variable {d : UInt8} {digits : List UInt8}

theorem digitValue_lt (h : isDigit d = true) : (digitValue d).toNat < 10 := by
  revert h
  refine of_forall_lt d d.toNat_lt ?_
  decide +kernel

theorem natOfDigits_append (front back : List UInt8) :
    natOfDigits (front ++ back) = natOfDigits front * 10 ^ back.length + natOfDigits back := by
  rw [natOfDigits, List.map_append, List.reverse_append, Nat.ofDigits_append, List.length_reverse,
    List.length_map, Nat.add_comm, Nat.mul_comm]
  rfl

theorem natOfDigits_concat (digits : List UInt8) (d : UInt8) :
    natOfDigits (digits ++ [d]) = 10 * natOfDigits digits + (digitValue d).toNat := by
  rw [natOfDigits_append, List.length_singleton, Nat.pow_one, Nat.mul_comm]
  rfl

theorem natOfDigits_lt (h : ∀ d ∈ digits, isDigit d = true) :
    natOfDigits digits < 10 ^ digits.length := by
  have hlt : ∀ x ∈ (digits.map fun d => (digitValue d).toNat).reverse, x < 8 + 2 := by
    intro x hx
    obtain ⟨d, hd, rfl⟩ := List.mem_map.mp (List.mem_reverse.mp hx)
    exact digitValue_lt (h d hd)
  have hbound := Nat.ofDigits_lt_base_pow_length' hlt
  rwa [List.length_reverse, List.length_map] at hbound

theorem natOfDigits_zeros (h : ∀ d ∈ digits, d = 0x30) : natOfDigits digits = 0 := by
  induction digits using List.reverseRecOn with
  | nil => rfl
  | append_singleton digits d ih =>
    obtain rfl := h d (List.mem_append_right _ List.mem_cons_self)
    rw [natOfDigits_concat, ih fun d hd => h d (List.mem_append_left _ hd)]
    rfl

theorem toFloat_digitValue (h : isDigit d = true) :
    (digitValue d).toFloat = Float.ofNat (digitValue d).toNat :=
  (Binary64.ofNat_eq_ofModel (Nat.lt_trans (digitValue_lt h) (by decide))).symm

end Byte

namespace Numeral

open Byte (natOfDigits)

/-! ### What a number denotes -/

/-- The number without the sign. -/
def size (n : Numeral) : ℚ :=
  natOfDigits n.whole + natOfDigits n.fractionDigits / 10 ^ n.fractionDigits.length

/-- The sign that is written, applied to a number. -/
def signed {α : Type} [Neg α] (n : Numeral) (x : α) : α :=
  if n.sign == some Byte.minus then -x else x

/-- The rational number that is written. -/
def denoted (n : Numeral) : ℚ := n.signed n.size

/-! ### Digits before the point -/

variable {digits : List UInt8}

theorem wholeValue_concat (digits : List UInt8) (d : UInt8) :
    wholeValue (digits ++ [d]) = mulAdd (wholeValue digits) 10 (Byte.digitValue d).toFloat := by
  rw [wholeValue, List.foldl_append]
  rfl

/-- **Integers up to `2 ^ 53` are taken up without rounding**, whatever zeros they start
with. -/
theorem wholeValue_eq (hdigits : ∀ d ∈ digits, Byte.isDigit d = true)
    (hle : natOfDigits digits ≤ 2 ^ 53) : wholeValue digits = Float.ofNat (natOfDigits digits) := by
  induction digits using List.reverseRecOn with
  | nil => rfl
  | append_singleton digits d ih =>
    obtain ⟨hdigits, hd⟩ := List.forall_mem_append.mp hdigits
    have hd := hd d List.mem_cons_self
    rw [Byte.natOfDigits_concat] at hle ⊢
    rw [wholeValue_concat, ih hdigits (by omega), Byte.toFloat_digitValue hd]
    exact Binary64.mulAdd_ofNat hle

/-- Greater integers may be rounded, but are no less than one. -/
theorem atLeast_wholeValue (hdigits : ∀ d ∈ digits, Byte.isDigit d = true)
    (hpos : 0 < natOfDigits digits) : Binary64.AtLeast (2 ^ (0 : ℤ)) (wholeValue digits) := by
  induction digits using List.reverseRecOn with
  | nil => exact absurd hpos (Nat.lt_irrefl 0)
  | append_singleton digits d ih =>
    obtain ⟨hdigits', hd⟩ := List.forall_mem_append.mp hdigits
    have hd := hd d List.mem_cons_self
    have hlt := Byte.digitValue_lt hd
    rcases Nat.eq_zero_or_pos (natOfDigits digits) with hzero | hfront
    · -- the first digit other than zero
      have hconcat := Byte.natOfDigits_concat digits d
      rw [wholeValue_eq hdigits (by omega)]
      refine (Binary64.atLeast_ofNat (by omega)).mono ?_
      rw [zpow_zero]
      exact_mod_cast hpos
    · rw [wholeValue_concat, Byte.toFloat_digitValue hd]
      have hten : toRat 10 = (10 : ℕ) := Binary64.toRat_ofNat (by decide)
      refine (ih hdigits' hfront).mulAdd (by decide) rfl ?_ ?_
      · rw [hten]
        norm_num
      · exact (Binary64.atLeast_ofNat (by omega)).mono (Nat.cast_nonneg _)

theorem wholeValue_nonneg (hdigits : ∀ d ∈ digits, Byte.isDigit d = true) :
    Binary64.AtLeast 0 (wholeValue digits) := by
  rcases Nat.eq_zero_or_pos (natOfDigits digits) with hzero | hpos
  · rw [wholeValue_eq hdigits (by omega)]
    exact (Binary64.atLeast_ofNat (by omega)).mono (Nat.cast_nonneg _)
  · exact (atLeast_wholeValue hdigits hpos).mono (Binary64.two_zpow_pos 0).le

/-! ### Digits after the point -/

/-- The digits after the point that count. -/
def kept (n : Numeral) : List UInt8 := n.fractionDigits.take 18

/-- What is collected of the digits, and the power of ten that goes with it. -/
structure Collects (digits : List UInt8) (f : Fraction) : Prop where
  collected : f.collected.toNat = natOfDigits (digits.take 18)
  scale : f.scale = Float.ofNat (10 ^ (digits.take 18).length)

theorem scale_lt_iff : ∀ k ≤ 18, (Float.ofNat (10 ^ k) < 1e18 ↔ k < 18) := by decide +kernel

theorem scale_mul : ∀ k < 18, Float.ofNat (10 ^ k) * 10 = Float.ofNat (10 ^ (k + 1)) := by
  decide +kernel

theorem toRat_scale : ∀ k ≤ 18, (Float.ofNat (10 ^ k)).isFinite = true
    ∧ toRat (Float.ofNat (10 ^ k)) = (10 ^ k : ℕ) := by decide +kernel

variable {f : Fraction} {d : UInt8}

/-- The word does not overflow. -/
theorem toNat_collected (hdigits : ∀ b ∈ digits ++ [d], Byte.isDigit b = true)
    (hlength : digits.length < 18) {collected : UInt64}
    (h : collected.toNat = natOfDigits digits) :
    (collected * 10 + (Byte.digitValue d).toUInt64).toNat = natOfDigits (digits ++ [d]) := by
  have hlt := Byte.natOfDigits_lt hdigits
  have hpow : 10 ^ (digits ++ [d]).length ≤ 10 ^ 18 :=
    Nat.pow_le_pow_right (by decide) (by rw [List.length_append]; exact hlength)
  rw [Byte.natOfDigits_concat] at hlt ⊢
  have hten : (10 : UInt64).toNat = 10 := rfl
  rw [UInt64.toNat_add, UInt64.toNat_mul, UInt8.toNat_toUInt64, h, hten]
  omega

theorem Collects.push (h : Collects digits f)
    (hdigits : ∀ b ∈ digits ++ [d], Byte.isDigit b = true) :
    Collects (digits ++ [d]) (f.push d) := by
  obtain ⟨hcollected, hscale⟩ := h
  rcases Nat.lt_or_ge digits.length 18 with hlt | hge
  · have htake : digits.take 18 = digits := List.take_of_length_le (by omega)
    have htake' : (digits ++ [d]).take 18 = digits ++ [d] :=
      List.take_of_length_le (by rw [List.length_append]; exact hlt)
    rw [htake] at hcollected hscale
    have hless : f.scale < 1e18 := by
      rw [hscale]
      exact (scale_lt_iff _ (by omega)).mpr hlt
    rw [Fraction.push, if_pos hless]
    refine ⟨?_, ?_⟩
    · rw [htake']
      exact toNat_collected hdigits hlt hcollected
    · rw [htake', List.length_append, hscale]
      exact scale_mul _ hlt
  · -- eighteen digits are there already
    have htake : (digits ++ [d]).take 18 = digits.take 18 := List.take_append_of_le_length hge
    have hlength : (digits.take 18).length = 18 := by rw [List.length_take]; omega
    have hless : ¬f.scale < 1e18 := by
      rw [hscale, hlength, scale_lt_iff 18 (by decide)]
      exact Nat.lt_irrefl 18
    rw [Fraction.push, if_neg hless]
    exact ⟨htake ▸ hcollected, htake ▸ hscale⟩

theorem collects (hdigits : ∀ d ∈ digits, Byte.isDigit d = true) :
    Collects digits (digits.foldl Fraction.push .empty) := by
  induction digits using List.reverseRecOn with
  | nil => exact ⟨rfl, rfl⟩
  | append_singleton digits d ih =>
    rw [List.foldl_append]
    exact (ih (List.forall_mem_append.mp hdigits).1).push hdigits

/-- The power of ten is positive, and less than `2 ^ 60`. -/
theorem Collects.scale_bounds (h : Collects digits f) :
    f.scale.isFinite = true ∧ 0 < toRat f.scale ∧ toRat f.scale < 2 ^ (60 : ℤ) := by
  obtain ⟨hfinite, hvalue⟩ := toRat_scale _ (List.length_take_le 18 digits)
  have hle : 10 ^ (digits.take 18).length ≤ 10 ^ 18 :=
    Nat.pow_le_pow_right (by decide) (List.length_take_le 18 digits)
  have hlt : 10 ^ (digits.take 18).length < 2 ^ 60 := Nat.lt_of_le_of_lt hle (by decide)
  rw [h.scale, hvalue]
  exact ⟨hfinite, by exact_mod_cast Nat.pow_pos (by decide), by exact_mod_cast hlt⟩

/-- Zeros are collected as a zero. -/
theorem Collects.value_eq (h : Collects digits f) (hzero : natOfDigits (digits.take 18) = 0) :
    f.value = 0 := by
  obtain ⟨hfinite, hpos, -⟩ := h.scale_bounds
  have hcollected : f.collected = 0 := UInt64.toNat_inj.mp (h.collected.trans hzero)
  have hword : (0 : UInt64).toFloat = 0 := rfl
  rw [Fraction.value, hcollected, hword]
  exact Binary64.zero_div_of_pos hfinite hpos

/-- Any other digit that counts leaves a number that is not zero. -/
theorem Collects.atLeast_value (h : Collects digits f) (hpos : 0 < natOfDigits (digits.take 18)) :
    Binary64.AtLeast (2 ^ (0 - 60 : ℤ)) f.value := by
  obtain ⟨hfinite, hscale, hlt⟩ := h.scale_bounds
  rw [← h.collected] at hpos
  exact (Binary64.atLeast_ofModel_ofNat hpos).div (by decide) hfinite hscale hlt

theorem Collects.value_nonneg (h : Collects digits f) : Binary64.AtLeast 0 f.value := by
  rcases Nat.eq_zero_or_pos (natOfDigits (digits.take 18)) with hzero | hpos
  · rw [h.value_eq hzero]
    exact .inr ⟨rfl, le_refl 0⟩
  · exact (h.atLeast_value hpos).mono (Binary64.two_zpow_pos _).le

/-! ### Values -/

variable {n : Numeral}

theorem magnitude_cases (n : Numeral) : n.kept = [] ∧ n.magnitude = wholeValue n.whole
    ∨ n.magnitude
      = wholeValue n.whole + (n.fractionDigits.foldl Fraction.push .empty).value := by
  obtain ⟨sign, whole, - | digits⟩ := n
  · exact .inl ⟨rfl, rfl⟩
  · exact .inr rfl

/-- If no digit that counts follows the point but zeros, the value is that of the integer. -/
theorem magnitude_eq (hn : n.Proper) (hle : natOfDigits n.whole ≤ 2 ^ 53)
    (hzero : natOfDigits n.kept = 0) : n.magnitude = Float.ofNat (natOfDigits n.whole) := by
  rcases magnitude_cases n with ⟨-, hvalue⟩ | hvalue
  · rw [hvalue, wholeValue_eq hn.whole hle]
  · rw [hvalue, wholeValue_eq hn.whole hle, (collects hn.fraction).value_eq hzero]
    exact Binary64.ofNat_add_zero hle

/-- If any digit that counts is not a zero, the value is not zero. -/
theorem atLeast_magnitude (hn : n.Proper)
    (hpos : 0 < natOfDigits n.whole ∨ 0 < natOfDigits n.kept) :
    Binary64.AtLeast (2 ^ (0 - 60 : ℤ)) n.magnitude := by
  have hsmall : (2 : ℚ) ^ (0 - 60 : ℤ) ≤ 2 ^ (0 : ℤ) := zpow_le_zpow_right₀ one_le_two (by decide)
  have hcollects := collects hn.fraction
  rcases magnitude_cases n with ⟨hnone, hvalue⟩ | hvalue
  · rw [hnone] at hpos
    rw [hvalue]
    exact (atLeast_wholeValue hn.whole (hpos.resolve_right (Nat.lt_irrefl 0))).mono hsmall
  · rw [hvalue]
    rcases hpos with hwhole | hkept
    · exact ((atLeast_wholeValue hn.whole hwhole).mono hsmall).add (by decide)
        hcollects.value_nonneg
    · rw [Binary64.addition_comm]
      exact (hcollects.atLeast_value hkept).add (by decide) (wholeValue_nonneg hn.whole)

/-! ### Signs -/

theorem toRat_signed (n : Numeral) (x : Float) : toRat (n.signed x) = n.signed (toRat x) := by
  rw [signed, signed]
  split
  · exact Binary64.toRat_neg x
  · rfl

theorem isFinite_signed (n : Numeral) {x : Float} (hx : x.isFinite = true) :
    (n.signed x).isFinite = true := by
  rw [signed]
  split
  · exact Binary64.isFinite_neg hx
  · exact hx

/-- The number is read as `x` and no further, whatever follows that does not go on with
it. -/
def ReadAs (n : Numeral) (x : Float) : Prop :=
  ∃ first more, n.bytes = first :: more ∧ ∀ rest, n.EndsBefore rest →
    Token.scan first (more ++ rest) = .token (.number x) more.length

theorem Proper.readAs (hn : n.Proper) : n.ReadAs n.value := by
  obtain ⟨first, more, hbytes, -, hscan⟩ := Token.scan_number hn
  exact ⟨first, more, hbytes, hscan⟩

/-! ### Integers -/

/-- An integer as written: digits, and after a point, if there is one, zeros only. -/
structure Integral (n : Numeral) : Prop where
  sign : ∀ b ∈ n.sign, b = Byte.minus ∨ b = Byte.plus
  whole : ∀ b ∈ n.whole, Byte.isDigit b = true
  nonempty : n.whole ≠ []
  zeros : ∀ b ∈ n.fractionDigits, b = 0x30

/-- The integer that is written. -/
def integer (n : Numeral) : ℤ := n.signed (natOfDigits n.whole : ℤ)

namespace Integral

theorem proper (hn : n.Integral) : n.Proper := by
  refine ⟨hn.sign, hn.whole, ?_, ?_⟩
  · intro b hb
    rw [hn.zeros b hb]
    rfl
  · rw [hasDigits, List.isEmpty_eq_false_iff.mpr hn.nonempty]
    rfl

theorem size_eq (hn : n.Integral) : n.size = natOfDigits n.whole := by
  rw [size, Byte.natOfDigits_zeros hn.zeros, Nat.cast_zero, zero_div, add_zero]

theorem denoted_eq (hn : n.Integral) : n.denoted = n.integer := by
  rw [denoted, integer, hn.size_eq, signed, signed]
  split
  · rw [Int.cast_neg, Int.cast_natCast]
  · rw [Int.cast_natCast]

theorem value_eq (hn : n.Integral) (hle : natOfDigits n.whole ≤ 2 ^ 53) :
    n.value = n.signed (Float.ofNat (natOfDigits n.whole)) := by
  have hzero : natOfDigits n.kept = 0 :=
    Byte.natOfDigits_zeros fun d hd => hn.zeros d (List.mem_of_mem_take hd)
  show n.signed n.magnitude = _
  rw [magnitude_eq hn.proper hle hzero]

theorem isFinite_value (hn : n.Integral) (hle : natOfDigits n.whole ≤ 2 ^ 53) :
    n.value.isFinite = true := by
  rw [hn.value_eq hle]
  exact n.isFinite_signed (Binary64.isFinite_ofNat hle)

theorem toRat_value (hn : n.Integral) (hle : natOfDigits n.whole ≤ 2 ^ 53) :
    toRat n.value = n.integer := by
  rw [hn.value_eq hle, toRat_signed, Binary64.toRat_ofNat hle, ← hn.size_eq]
  exact hn.denoted_eq

end Integral

/-- **Integers are read exactly.**  Up to `2 ^ 53`, with any number of zeros before the
integer and after its point, each is read as the number that stands for it, to its end;
so two of them are read as equal numbers if and only if they are the same integer. -/
theorem integers_are_exact {n n' : Numeral} (hn : n.Integral)
    (hle : natOfDigits n.whole ≤ 2 ^ 53) (hn' : n'.Integral)
    (hle' : natOfDigits n'.whole ≤ 2 ^ 53) :
    n.ReadAs n.value ∧ n.value = n.signed (Float.ofNat (natOfDigits n.whole))
      ∧ n.value.isFinite = true ∧ toRat n.value = n.integer
      ∧ ((n.value == n'.value) = true ↔ n.integer = n'.integer) := by
  refine ⟨hn.proper.readAs, hn.value_eq hle, hn.isFinite_value hle, hn.toRat_value hle, ?_⟩
  rw [Binary64.beq_iff_toRat (hn.isFinite_value hle) (hn'.isFinite_value hle'),
    hn.toRat_value hle, hn'.toRat_value hle']
  exact Int.cast_inj

/-- `-007.000` and `9007199254740992.` are read as they are written. -/
theorem integers_are_exact_of_padded :
    let n : Numeral := ⟨some Byte.minus, [0x30, 0x30, 0x37], some [0x30, 0x30, 0x30]⟩
    let n' : Numeral := ⟨none, [0x39, 0x30, 0x30, 0x37, 0x31, 0x39, 0x39, 0x32, 0x35, 0x34, 0x37,
      0x34, 0x30, 0x39, 0x39, 0x32], some []⟩
    natOfDigits n.whole = 7 ∧ natOfDigits n'.whole = 2 ^ 53
      ∧ n.ReadAs n.value ∧ n.value = -7 ∧ n.value.isFinite = true ∧ toRat n.value = (-7 : ℤ)
      ∧ (n.value == n'.value) = false := by
  intro n n'
  have hn : n.Integral := by
    refine ⟨?_, by decide +kernel, by decide, by decide +kernel⟩
    rintro b ⟨⟩
    exact .inl rfl
  have hn' : n'.Integral := by
    refine ⟨?_, by decide +kernel, by decide, by decide +kernel⟩
    rintro b ⟨⟩
  have hsize : natOfDigits n.whole = 7 := by decide
  have hsize' : natOfDigits n'.whole = 2 ^ 53 := by decide
  obtain ⟨hread, hvalue, hfinite, hrat, heq⟩ :=
    integers_are_exact hn (by rw [hsize]; decide) hn' (Nat.le_of_eq hsize')
  refine ⟨hsize, hsize', hread, hvalue.trans (by rw [hsize]; rfl), hfinite, hrat, ?_⟩
  rw [← Bool.not_eq_true, heq]
  decide

end Numeral

end PageText
