/-
PageText/Proofs/Packing.lean

Binary64 numbers as words of 64 bits.  A word is a sign, an exponent of 11 bits
and a mantissa of 52 bits.  What it unpacks to is, for a finite number other than
zero, a mantissa `m` and an exponent `e` of two with

    2 ^ 52 ≤ m < 2 ^ 53  or  e = -1074,        -1074 ≤ e ≤ 971

(`Canonical`), and rounding leaves such a pair alone
(`Canonical.roundWithAccuracy`).

Main results: packing what was unpacked gives the number again (`pack_unpack`),
and unpacking what was packed gives back a mantissa of 53 bits (`unpack_pack`).
-/
import Mathlib
import PageText.Binary64

namespace PageText.Binary64

open Float.Model (UnpackedFloat Format totalExponent)
open Float.Model.UnpackedFloat

/-! ### The parts of a word -/

theorem ofBitVec_toBitVec (s : Sign) : Sign.ofBitVec s.toBitVec = s := by cases s <;> rfl

theorem unpackSign_packComponents {spec : Format} (s : Sign) (e : BitVec spec.exponentBits)
    (m : BitVec spec.mantissaBitsWithoutImplicit) :
    unpackSign (packComponents spec s e m) = s.toBitVec := by
  apply BitVec.eq_of_getLsbD_eq
  intro k hk
  obtain rfl : k = 0 := by omega
  simp [unpackSign, packComponents, BitVec.getLsbD_append, BitVec.getElem_append]

theorem toBitVec_ofBitVec (b : BitVec 1) : (Sign.ofBitVec b).toBitVec = b := by
  revert b
  decide

/-- A word is its sign, its exponent and its mantissa in a row. -/
theorem packComponents_unpack (b : BitVec Format.binary64.numBits) :
    packComponents Format.binary64 (Sign.ofBitVec (unpackSign b)) (unpackExponent b)
      (unpackMantissa b) = b := by
  rw [packComponents, toBitVec_ofBitVec]
  simp only [unpackSign, unpackExponent, unpackMantissa, BitVec.extractLsb]
  ext i hi
  grind

/-- The first bit of a mantissa of 53 bits is not stored. -/
theorem toNat_one_append (m : BitVec 52) : (1#1 ++ m).toNat = 2 ^ 52 + m.toNat := by
  rw [BitVec.toNat_append, ← Nat.shiftLeft_add_eq_or_of_lt m.isLt]
  rfl

theorem log2_one_append (m : BitVec 52) : (1#1 ++ m).toNat.log2 = 52 := by
  have hlt := m.isLt
  apply (Nat.log2_eq_iff (by rw [toNat_one_append]; omega)).mpr
  rw [toNat_one_append]
  omega

/-! ### Mantissas and exponents -/

theorem log2_mul_two_pow {m : Nat} (hm : m ≠ 0) (k : Nat) : (m * 2 ^ k).log2 = m.log2 + k := by
  apply (Nat.log2_eq_iff (Nat.mul_ne_zero hm (Nat.two_pow_pos k).ne')).mpr
  rw [Nat.add_right_comm, Nat.pow_add, Nat.pow_add 2 (m.log2 + 1)]
  exact ⟨Nat.mul_le_mul_right _ (Nat.log2_self_le hm),
    Nat.mul_lt_mul_of_pos_right Nat.lt_log2_self (Nat.two_pow_pos k)⟩

theorem shiftRight_mul (k : Nat) : ∀ m : Nat,
    (⟨m * 2 ^ k, false, false⟩ : ExtendedMantissa) >>> k = ⟨m, false, false⟩ := by
  induction k with
  | zero =>
    intro m
    rw [Nat.pow_zero, Nat.mul_one]
    rfl
  | succ k ih =>
    intro m
    show ((⟨m * 2 ^ (k + 1), false, false⟩ : ExtendedMantissa) >>> k).shiftRightOne = _
    rw [Nat.pow_succ', ← Nat.mul_assoc, ih (m * 2)]
    simp [ExtendedMantissa.shiftRightOne]

/-- A mantissa of 53 bits, or of fewer with the least exponent: what rounding makes of a
number, though the exponent may be too great for a word. -/
structure Rounded (m : Nat) (e : Int) : Prop where
  short : m < 2 ^ 53
  full : 2 ^ 52 ≤ m ∨ e = -1074
  low : -1074 ≤ e

namespace Rounded

variable {m : Nat} {e : Int}

theorem targetExponent (h : Rounded m e) (hpos : 0 < m) :
    Format.binary64.targetExponent (totalExponent m e) = e := by
  have hlog : m.log2 ≤ 52 :=
    Nat.le_of_lt_succ ((Nat.log2_lt (Nat.ne_of_gt hpos)).mpr h.short)
  have hlow := h.low
  simp only [Format.targetExponent, totalExponent, Format.mantissaBits, Format.minExponent]
  rcases h.full with hfull | hleast
  · have hlog' := (Nat.le_log2 (Nat.ne_of_gt hpos)).mpr hfull
    omega
  · omega

/-- Nothing is shifted out of the mantissa. -/
theorem shiftToTargetExponent (h : Rounded m e) (hpos : 0 < m) :
    UnpackedFloat.shiftToTargetExponent Format.binary64 m e .exact = (⟨m, false, false⟩, e) := by
  rw [UnpackedFloat.shiftToTargetExponent, h.targetExponent hpos, shiftToExponent, Int.sub_self]
  simp [ExtendedMantissa.ofMantissaAndAccuracy, HShiftRight.hShiftRight, Nat.repeat]

end Rounded

/-- The mantissa and the exponent of a finite number: the mantissa has 53 bits,
or the exponent is the least one. -/
structure Canonical (m : Nat) (e : Int) : Prop where
  short : m < 2 ^ 53
  full : 2 ^ 52 ≤ m ∨ e = -1074
  low : -1074 ≤ e
  high : e ≤ 971

namespace Canonical

variable {m : Nat} {e : Int}

theorem rounded (h : Canonical m e) : Rounded m e := ⟨h.short, h.full, h.low⟩

theorem roundWithAccuracy (h : Canonical m e) (hpos : 0 < m) (s : Sign) :
    UnpackedFloat.roundWithAccuracy Format.binary64 s m e .exact = .finite s m e hpos := by
  rw [UnpackedFloat.roundWithAccuracy, h.rounded.shiftToTargetExponent hpos]
  show (match UnpackedFloat.shiftToTargetExponent Format.binary64 m e .exact with
    | (em, e) => if h : em.mantissa = 0 then UnpackedFloat.zero s
      else .finite s em.mantissa e (Nat.pos_of_ne_zero h)) = _
  rw [h.rounded.shiftToTargetExponent hpos]
  exact dif_neg (Nat.ne_of_gt hpos)

/-- A mantissa that is too short is stretched. -/
theorem round_of_shorter {n k : Nat} (h : Canonical (n * 2 ^ k) e) (hpos : 0 < n * 2 ^ k)
    (s : Sign) :
    UnpackedFloat.round Format.binary64 s n (e + k) = .finite s (n * 2 ^ k) e hpos := by
  have hn : n ≠ 0 := by
    rintro rfl
    rw [Nat.zero_mul] at hpos
    exact Nat.lt_irrefl 0 hpos
  have htotal : totalExponent n (e + k) = totalExponent (n * 2 ^ k) e := by
    simp only [totalExponent, log2_mul_two_pow hn]
    omega
  have hshift : (e + k - e).toNat = k := by omega
  have hback : e + (k : Int) - k = e := by omega
  rw [UnpackedFloat.round, htotal, h.rounded.targetExponent hpos, decreaseExponent, hshift,
    Nat.shiftLeft_eq, hback]
  exact h.roundWithAccuracy hpos s

theorem targetExponent_of_longer (h : Canonical m e) (hpos : 0 < m) (k : Nat) :
    Format.binary64.targetExponent (totalExponent (m * 2 ^ k) (e - k)) = e := by
  have htotal : totalExponent (m * 2 ^ k) (e - k) = totalExponent m e := by
    simp only [totalExponent, log2_mul_two_pow (Nat.ne_of_gt hpos)]
    omega
  rw [htotal, h.rounded.targetExponent hpos]

/-- Of a mantissa that is too long only zeros are shifted out. -/
theorem roundWithAccuracy_of_longer (h : Canonical m e) (hpos : 0 < m) (k : Nat) (s : Sign) :
    UnpackedFloat.roundWithAccuracy Format.binary64 s (m * 2 ^ k) (e - k) .exact
      = .finite s m e hpos := by
  have hshifted : UnpackedFloat.shiftToTargetExponent Format.binary64 (m * 2 ^ k) (e - k) .exact
      = (⟨m, false, false⟩, e) := by
    have hshift : (e - (e - k)).toNat = k := by omega
    have hback : e - k + (k : Int) = e := by omega
    rw [UnpackedFloat.shiftToTargetExponent, h.targetExponent_of_longer hpos, shiftToExponent,
      hshift, ExtendedMantissa.ofMantissaAndAccuracy, shiftRight_mul, hback]
  -- once it is shifted, the number is what rounding the shorter one starts from
  rw [← h.roundWithAccuracy hpos s, UnpackedFloat.roundWithAccuracy,
    UnpackedFloat.roundWithAccuracy, hshifted, h.rounded.shiftToTargetExponent hpos]

theorem round_of_longer (h : Canonical m e) (hpos : 0 < m) (k : Nat) (s : Sign) :
    UnpackedFloat.round Format.binary64 s (m * 2 ^ k) (e - k) = .finite s m e hpos := by
  have hkeep : decreaseExponent (m * 2 ^ k) (e - k) e = (m * 2 ^ k, e - k) := by
    have hshift : (e - k - e).toNat = 0 := by omega
    rw [decreaseExponent, hshift]
    simp
  rw [UnpackedFloat.round, h.targetExponent_of_longer hpos, hkeep]
  exact h.roundWithAccuracy_of_longer hpos k s

end Canonical

/-! ### Packing -/

/-- A mantissa of 53 bits is packed without its first bit. -/
theorem pack_of_log2 {m : Nat} {e : Int} (hpos : 0 < m) (hm : m.log2 = 52) {biased : Nat}
    (hbiased : (biased : Int) = e + 1075) (hhigh : e ≤ 971) (s : Sign) :
    UnpackedFloat.pack Format.binary64 (.finite s m e hpos)
      = packComponents Format.binary64 s (BitVec.ofNat 11 biased) (BitVec.ofNat 52 m) := by
  have hbias : (e + (Format.binary64.exponentBias : Nat)
      + (Format.binary64.mantissaBitsWithoutImplicit : Nat)).toNat = biased := by
    simp only [Format.exponentBias]
    omega
  simp only [UnpackedFloat.pack, hbias, hm, Format.mantissaBits]
  rw [if_neg (by omega), if_pos trivial]

/-- A shorter mantissa is packed with the exponent zero. -/
theorem pack_of_lt {m : Nat} (hpos : 0 < m) (hm : m < 2 ^ 52) (s : Sign) :
    UnpackedFloat.pack Format.binary64 (.finite s m (-1074) hpos)
      = packComponents Format.binary64 s 0#11 (BitVec.ofNat 52 m) := by
  have hlog : m.log2 < 52 := (Nat.log2_lt (Nat.ne_of_gt hpos)).mpr hm
  have hbias : (-1074 + (Format.binary64.exponentBias : Nat)
      + (Format.binary64.mantissaBitsWithoutImplicit : Nat) : Int).toNat = 1 := rfl
  simp only [UnpackedFloat.pack, hbias, Format.mantissaBits]
  rw [if_neg (by omega), if_neg (by omega)]

/-- Packing a mantissa of 53 bits drops its first bit, and unpacking puts it
back. -/
theorem unpack_pack {m : Nat} {e : Int} (hpos : 0 < m) (hm : m.log2 = 52) (hlow : -1074 ≤ e)
    (hhigh : e ≤ 971) (s : Sign) :
    (Float.Model.pack (.finite s m e hpos)).unpack = .finite s m e hpos := by
  have hbits := (Nat.log2_eq_iff (Nat.ne_of_gt hpos)).mp hm
  obtain ⟨biased, hbiased⟩ : ∃ biased : Nat, (biased : Int) = e + 1075 :=
    ⟨(e + 1075).toNat, Int.toNat_of_nonneg (by omega)⟩
  have hexponent : (BitVec.ofNat 11 biased).toNat = biased := by
    rw [BitVec.toNat_ofNat, Nat.mod_eq_of_lt (by omega)]
  have hfirst : (1#1 ++ BitVec.ofNat 52 m).toNat = m := by
    rw [toNat_one_append, BitVec.toNat_ofNat]
    omega
  -- the biased exponent is neither of the two that do not stand for a finite number
  have hne : ∀ b : BitVec 11, b.toNat ≠ biased → BitVec.ofNat 11 biased ≠ b := by
    intro b hb heq
    rw [← heq, hexponent] at hb
    exact hb rfl
  have hnot_full : BitVec.ofNat 11 biased ≠ -1#11 := hne _ (by
    show 2047 ≠ biased
    omega)
  have hnot_zero : BitVec.ofNat 11 biased ≠ 0#11 := hne _ (by
    show 0 ≠ biased
    omega)
  show UnpackedFloat.unpack Format.binary64 (UnpackedFloat.pack Format.binary64 _) = _
  rw [pack_of_log2 hpos hm hbiased hhigh, UnpackedFloat.unpack]
  simp only [unpackMantissa_packComponents, unpackExponent_packComponents,
    unpackSign_packComponents, ofBitVec_toBitVec]
  rw [if_neg hnot_full, if_neg hnot_zero]
  simp only [hfirst, hexponent, hbiased, Format.exponentBias]
  congr 1
  omega

/-- A shorter mantissa comes back as it is. -/
theorem unpack_pack_of_lt {m : Nat} (hpos : 0 < m) (hm : m < 2 ^ 52) (s : Sign) :
    (Float.Model.pack (.finite s m (-1074) hpos)).unpack = .finite s m (-1074) hpos := by
  have hbits : (BitVec.ofNat 52 m).toNat = m := by
    rw [BitVec.toNat_ofNat, Nat.mod_eq_of_lt hm]
  have hne : BitVec.ofNat 52 m ≠ 0#52 := by
    intro heq
    rw [heq] at hbits
    exact Nat.ne_of_gt hpos hbits.symm
  show UnpackedFloat.unpack Format.binary64 (UnpackedFloat.pack Format.binary64 _) = _
  rw [pack_of_lt hpos hm, UnpackedFloat.unpack]
  simp only [unpackMantissa_packComponents, unpackExponent_packComponents,
    unpackSign_packComponents, ofBitVec_toBitVec]
  rw [if_neg (by decide), if_pos trivial, dif_neg hne]
  simp only [hbits]
  rfl

theorem Canonical.unpack_pack {m : Nat} {e : Int} (h : Canonical m e) (hpos : 0 < m) (s : Sign) :
    (Float.Model.pack (.finite s m e hpos)).unpack = .finite s m e hpos := by
  rcases Nat.lt_or_ge m (2 ^ 52) with hm | hm
  · obtain rfl : e = -1074 := h.full.resolve_left (Nat.not_le_of_lt hm)
    exact unpack_pack_of_lt hpos hm s
  · have hlog : m.log2 = 52 := (Nat.log2_eq_iff (Nat.ne_of_gt hpos)).mpr ⟨hm, h.short⟩
    exact Binary64.unpack_pack hpos hlog h.low h.high s

/-- **A rounded number is packed without loss**, unless it is too great: then it becomes
infinite. -/
theorem unpack_pack_of_rounded {m : Nat} {e : Int} (h : Rounded m e) (hpos : 0 < m) (s : Sign) :
    (Float.Model.pack (.finite s m e hpos)).unpack = .finite s m e hpos
      ∨ (Float.Model.pack (.finite s m e hpos)).unpack = .infinity s := by
  by_cases hhigh : e ≤ 971
  · exact .inl (Canonical.unpack_pack ⟨h.short, h.full, h.low, hhigh⟩ hpos s)
  · right
    have hbiased : 2 ^ 11 ≤ (e + 1023 + 52).toNat + 1 := by omega
    have hpack : UnpackedFloat.pack Format.binary64 (.finite s m e hpos)
        = packedInfinity Format.binary64 s := if_pos hbiased
    show UnpackedFloat.unpack Format.binary64 (UnpackedFloat.pack Format.binary64 _) = _
    rw [hpack]
    cases s <;> rfl

/-! ### Unpacking -/

/-- A finite number other than zero that is unpacked from a word packs into that
word. -/
theorem unpack_eq_finite {b : BitVec Format.binary64.numBits} {s : Sign} {m : Nat} {e : Int}
    {hpos : 0 < m} (h : UnpackedFloat.unpack Format.binary64 b = .finite s m e hpos) :
    Canonical m e ∧ UnpackedFloat.pack Format.binary64 (.finite s m e hpos) = b := by
  have hbias : (Format.binary64.exponentBias : Int)
      + (Format.binary64.mantissaBitsWithoutImplicit : Nat) = 1075 := rfl
  have hmantissa : (unpackMantissa b).toNat < 2 ^ 52 := (unpackMantissa b).isLt
  have hexponent : (unpackExponent b).toNat < 2 ^ 11 := (unpackExponent b).isLt
  have hparts := packComponents_unpack b
  simp only [UnpackedFloat.unpack, hbias] at h
  split at h
  · split at h <;> cases h
  next hfinite =>
  split at h
  · next hzero =>
    split at h
    · cases h
    · -- the least exponent, and a mantissa that may be shorter than 53 bits
      have he : ((unpackExponent b).toNat : Int) - 1075 + 1 = -1074 := by
        rw [hzero]
        rfl
      rw [he] at h
      cases h
      refine ⟨⟨?_, .inr rfl, ?_, ?_⟩, ?_⟩
      · omega
      · omega
      · omega
      · rw [pack_of_lt hpos hmantissa, BitVec.ofNat_toNat, BitVec.setWidth_eq, ← hzero]
        exact hparts
  · next hzero =>
    -- the exponent is neither of the two that stand for something else
    have hlow : (unpackExponent b).toNat ≠ 0 := fun heq => hzero (BitVec.eq_of_toNat_eq heq)
    have hhigh : (unpackExponent b).toNat ≠ 2047 := fun heq => hfinite (BitVec.eq_of_toNat_eq heq)
    have hlead := toNat_one_append (unpackMantissa b)
    cases h
    refine ⟨⟨?_, ?_, ?_, ?_⟩, ?_⟩
    · omega
    · omega
    · omega
    · omega
    · have hbits : BitVec.ofNat 52 (1#1 ++ unpackMantissa b).toNat = unpackMantissa b := by
        apply BitVec.eq_of_toNat_eq
        rw [BitVec.toNat_ofNat, hlead, Nat.add_mod_left, Nat.mod_eq_of_lt hmantissa]
      have hbiased : ((unpackExponent b).toNat : Int) = (unpackExponent b).toNat - 1075 + 1075 := by
        omega
      rw [pack_of_log2 hpos (log2_one_append _) hbiased (by omega), hbits, BitVec.ofNat_toNat,
        BitVec.setWidth_eq]
      exact hparts

/-- What is unpacked from a number has the digits of one. -/
theorem canonical_of_unpack {x : Float.Model} {s : Sign} {m : Nat} {e : Int} {hpos : 0 < m}
    (h : x.unpack = .finite s m e hpos) : Canonical m e :=
  (unpack_eq_finite h).1

/-- The other words stand for an infinity, for what is not a number or for a
zero. -/
theorem unpack_cases (b : BitVec Format.binary64.numBits) :
    let form := UnpackedFloat.unpack Format.binary64 b
    let sign := Sign.ofBitVec (unpackSign b)
    (unpackExponent b = -1#_ ∧ unpackMantissa b = 0#_ ∧ form = .infinity sign)
      ∨ (unpackExponent b = -1#_ ∧ unpackMantissa b ≠ 0#_ ∧ form = .notANumber)
      ∨ (unpackExponent b = 0#_ ∧ unpackMantissa b = 0#_ ∧ form = .zero sign)
      ∨ ∃ m e hpos, form = .finite sign m e hpos := by
  intro form sign
  by_cases hfull : unpackExponent b = -1#_
  · by_cases hm : unpackMantissa b = 0#_
    · exact .inl ⟨hfull, hm, by simp [form, sign, UnpackedFloat.unpack, hfull, hm]⟩
    · exact .inr (.inl ⟨hfull, hm, by simp [form, UnpackedFloat.unpack, hfull, hm]⟩)
  · by_cases hzero : unpackExponent b = 0#_
    · by_cases hm : unpackMantissa b = 0#_
      · exact .inr (.inr (.inl ⟨hzero, hm, by simp [form, sign, UnpackedFloat.unpack, hzero, hm]⟩))
      · exact .inr (.inr (.inr ⟨_, _, _, by simp [form, UnpackedFloat.unpack, hzero, hm]; rfl⟩))
    · exact .inr (.inr (.inr ⟨_, _, _, by
        simp only [form, UnpackedFloat.unpack, hfull, hzero, if_false]
        rfl⟩))

/-- **Packing what was unpacked** gives the number again.  The only words that
share an unpacked form are those of what is not a number, and of these one alone
is allowed. -/
theorem pack_unpack (x : Float.Model) : Float.Model.pack x.unpack = x := by
  obtain ⟨bits, hvalid⟩ := x
  suffices h : UnpackedFloat.pack Format.binary64
      (UnpackedFloat.unpack Format.binary64 bits.toBitVec) = bits.toBitVec by
    simp only [Float.Model.pack, Float.Model.unpack, h]
  generalize (bits.toBitVec : BitVec Format.binary64.numBits) = b at hvalid
  have hparts := packComponents_unpack b
  rcases unpack_cases b with ⟨he, hm, hform⟩ | ⟨he, hm, hform⟩ | ⟨he, hm, hform⟩ |
    ⟨m, e, hpos, hform⟩
  · rw [he, hm] at hparts
    rw [hform]
    exact hparts
  · rw [hform]
    exact (hvalid.eq_packedNaN he hm).symm
  · rw [he, hm] at hparts
    rw [hform]
    exact hparts
  · rw [hform]
    exact (unpack_eq_finite hform).2

end PageText.Binary64
