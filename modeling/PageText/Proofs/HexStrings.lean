/-
PageText/Proofs/HexStrings.lean

Strings in angle brackets.  The bytes of a string are written in two digits each, of
either case, with blanks anywhere among them (`Quotation.SpelledInHex`).  The digits of
a text are those of some bytes, or they are after one more zero (`unhex_eq_iff`), so
between angle brackets any text of digits and blanks is a string.  Any other byte
between them ends the scan with an error at that byte, and so does the end of the bytes.

Main result: `hex_located`.
-/
import PageText.Proofs.Extents

namespace PageText

namespace Quotation

/-! ### Half bytes -/

/-- The halves of a byte, the high one first. -/
def halves (b : UInt8) : List UInt8 := [b >>> 4, b &&& 0x0F]

theorem toNat_ofHalves {high low : UInt8} (hhigh : high.toNat < 16) (hlow : low.toNat < 16) :
    (Byte.ofHalves high low).toNat = 16 * high.toNat + low.toNat := by
  have hfour : (4 : UInt8).toNat % 8 = 4 := by decide
  have hshift : (high <<< 4).toNat = high.toNat <<< 4 := by
    rw [UInt8.toNat_shiftLeft, hfour, Nat.shiftLeft_eq, Nat.mod_eq_of_lt (by omega)]
  rw [Byte.ofHalves, UInt8.toNat_or, hshift, ← Nat.shiftLeft_add_eq_or_of_lt hlow,
    Nat.shiftLeft_eq]
  omega

theorem halves_ofHalves {high low : UInt8} (hhigh : high.toNat < 16) (hlow : low.toNat < 16) :
    halves (Byte.ofHalves high low) = [high, low] := by
  have hbyte := toNat_ofHalves hhigh hlow
  have hfirst : Byte.ofHalves high low >>> 4 = high := by
    have hfour : (4 : UInt8).toNat % 8 = 4 := by decide
    apply UInt8.toNat_inj.mp
    rw [UInt8.toNat_shiftRight, hfour, hbyte, Nat.shiftRight_eq_div_pow]
    omega
  have hsecond : Byte.ofHalves high low &&& 0x0F = low := by
    have hmask : (0x0F : UInt8).toNat = 2 ^ 4 - 1 := by decide
    apply UInt8.toNat_inj.mp
    rw [UInt8.toNat_and, hmask, hbyte, Nat.and_two_pow_sub_one_eq_mod]
    omega
  rw [halves, hfirst, hsecond]

theorem lt_of_mem_flatMap_halves {bytes : List UInt8} :
    ∀ half ∈ bytes.flatMap halves, half.toNat < 16 := by
  intro half hhalf
  obtain ⟨b, -, hb⟩ := List.mem_flatMap.mp hhalf
  obtain ⟨hhigh, hlow, -⟩ := Name.ofHalves_halves b
  rcases List.mem_cons.mp hb with rfl | hb
  · exact hhigh
  · obtain rfl := List.mem_singleton.mp hb
    exact hlow

theorem length_flatMap_halves (bytes : List UInt8) :
    (bytes.flatMap halves).length = 2 * bytes.length := by
  induction bytes with
  | nil => rfl
  | cons b bytes ih =>
    have hhalves : (halves b).length = 2 := rfl
    rw [List.flatMap_cons, List.length_append, ih, hhalves, List.length_cons]
    omega

theorem pairs_flatMap_halves (bytes : List UInt8) : pairs (bytes.flatMap halves) = bytes := by
  induction bytes with
  | nil => rfl
  | cons b bytes ih =>
    show Byte.ofHalves (b >>> 4) (b &&& 0x0F) :: pairs (bytes.flatMap halves) = b :: bytes
    rw [(Name.ofHalves_halves b).2.2, ih]

/-- Halves that are joined in pairs are those of the bytes they make up, or they are
after one more zero. -/
theorem flatMap_halves_pairs {values : List UInt8} (h : ∀ v ∈ values, v.toNat < 16) :
    (pairs values).flatMap halves = values ∨ (pairs values).flatMap halves = values ++ [0] := by
  fun_induction pairs values with
  | case1 => exact .inl rfl
  | case2 high =>
    right
    rw [List.flatMap_cons, halves_ofHalves (h high List.mem_cons_self) (by decide)]
    rfl
  | case3 high low rest ih =>
    have hhigh := h high List.mem_cons_self
    have hlow := h low (List.mem_cons_of_mem _ List.mem_cons_self)
    rw [List.flatMap_cons, halves_ofHalves hhigh hlow]
    rcases ih fun v hv => h v (List.mem_cons_of_mem _ (List.mem_cons_of_mem _ hv)) with ih | ih
    · rw [ih]
      exact .inl rfl
    · rw [ih]
      exact .inr rfl

theorem pairs_eq_iff {values : List UInt8} (h : ∀ v ∈ values, v.toNat < 16) (bytes : List UInt8) :
    pairs values = bytes
      ↔ bytes.flatMap halves = values ∨ bytes.flatMap halves = values ++ [0] := by
  constructor
  · rintro rfl
    exact flatMap_halves_pairs h
  · rintro (heq | heq)
    · rw [← heq, pairs_flatMap_halves]
    · rcases flatMap_halves_pairs h with hvalues | hvalues
      · -- no bytes have an odd number of halves
        have heven := congrArg List.length hvalues
        have hodd := congrArg List.length heq
        rw [length_flatMap_halves] at heven hodd
        rw [List.length_append, List.length_singleton] at hodd
        omega
      · rw [← pairs_flatMap_halves (pairs values), hvalues, ← heq, pairs_flatMap_halves]

/-! ### Digits and blanks -/

/-- The bytes are written in digits of either case, two for each byte, with blanks
anywhere before, between and after the digits. -/
def SpelledInHex (written bytes : List UInt8) : Prop :=
  List.Forall₂ (fun digit half => ∃ upper, digit = Name.hexDigit upper half)
    (written.filter (!Byte.isBlank ·)) (bytes.flatMap halves)

theorem hexValue?_of_isBlank {b : UInt8} (h : Byte.isBlank b = true) : Byte.hexValue? b = none := by
  simp only [Byte.isBlank, Bool.or_eq_true, beq_iff_eq] at h
  rcases h with ((((rfl | rfl) | rfl) | rfl) | rfl) | rfl <;> rfl

/-- What has a value as a digit is the digit of that half byte, in one case or the
other. -/
theorem of_hexValue? {digit half : UInt8} (h : Byte.hexValue? digit = some half) :
    half.toNat < 16 ∧ ∃ upper, digit = Name.hexDigit upper half := by
  have hdigit : half < 16 ∧ ∃ upper, digit = Name.hexDigit upper half := by
    rw [Byte.hexValue?, Byte.isDigit] at h
    simp only [Bool.and_eq_true, decide_eq_true_eq] at h
    split at h
    · obtain rfl := Option.some.inj h
      exact ⟨by grind, true, by grind [Name.hexDigit]⟩
    split at h
    · obtain rfl := Option.some.inj h
      exact ⟨by grind, false, by grind [Name.hexDigit]⟩
    split at h
    · obtain rfl := Option.some.inj h
      exact ⟨by grind, true, by grind [Name.hexDigit]⟩
    · cases h
  exact ⟨UInt8.lt_iff_toNat_lt.mp hdigit.1, hdigit.2⟩

/-- The digits of a half byte are those with its value. -/
theorem exists_hexDigit_iff {half : UInt8} (h : half.toNat < 16) (digit : UInt8) :
    (∃ upper, digit = Name.hexDigit upper half) ↔ Byte.hexValue? digit = some half := by
  constructor
  · rintro ⟨upper, rfl⟩
    exact (Name.hexDigit_of_lt upper h).2
  · exact fun hdigit => (of_hexValue? hdigit).2

/-- A text spells half bytes if it has digits and blanks only, and they are the values
of its digits. -/
theorem forall₂_hexDigit_iff (written : List UInt8) :
    ∀ {values : List UInt8}, (∀ v ∈ values, v.toNat < 16) →
      (List.Forall₂ (fun digit half => ∃ upper, digit = Name.hexDigit upper half)
          (written.filter (!Byte.isBlank ·)) values
        ↔ (∀ b ∈ written, isHexBody b = true) ∧ written.filterMap Byte.hexValue? = values) := by
  induction written with
  | nil =>
    intro values h
    rw [List.filter_nil, List.forall₂_nil_left_iff, List.filterMap_nil, eq_comm (b := values)]
    exact (and_iff_right fun b hb => absurd hb List.not_mem_nil).symm
  | cons b written ih =>
    intro values h
    rw [List.forall_mem_cons, isHexBody, Byte.isHex]
    rcases hblank : Byte.isBlank b with - | -
    · rw [List.filter_cons_of_pos (by rw [hblank]; rfl), List.forall₂_cons_left_iff, Bool.or_false]
      rcases hvalue : Byte.hexValue? b with - | half
      · -- the byte is no digit, and there is no blank to read over
        refine iff_of_false ?_ (fun hbody => by cases hbody.1.1)
        rintro ⟨half, rest, hdigit, -, rfl⟩
        have hhalf := (exists_hexDigit_iff (h half List.mem_cons_self) b).mp hdigit
        cases hvalue.symm.trans hhalf
      · rw [List.filterMap_cons_some hvalue]
        constructor
        · rintro ⟨first, rest, hdigit, hrest, rfl⟩
          have hfirst := (exists_hexDigit_iff (h first List.mem_cons_self) b).mp hdigit
          obtain rfl : half = first := Option.some.inj (hvalue.symm.trans hfirst)
          obtain ⟨hbody, rfl⟩ := (ih fun v hv => h v (List.mem_cons_of_mem _ hv)).mp hrest
          exact ⟨⟨rfl, hbody⟩, rfl⟩
        · rintro ⟨⟨-, hbody⟩, rfl⟩
          refine ⟨half, _, (exists_hexDigit_iff (of_hexValue? hvalue).1 b).mpr hvalue, ?_, rfl⟩
          exact (ih fun v hv => h v (List.mem_cons_of_mem _ hv)).mpr ⟨hbody, rfl⟩
    · have hvalue := hexValue?_of_isBlank hblank
      rw [List.filter_cons_of_neg (by rw [hblank]; decide), List.filterMap_cons_none hvalue, ih h,
        Bool.or_true, and_iff_right rfl]

/-- **The bytes of a text of digits and blanks** are those that it spells, if need be
after one more zero. -/
theorem unhex_eq_iff {written : List UInt8} (h : ∀ b ∈ written, isHexBody b = true)
    (bytes : List UInt8) :
    unhex written = bytes
      ↔ SpelledInHex written bytes ∨ SpelledInHex (written ++ [0x30]) bytes := by
  have hvalues : ∀ v ∈ written.filterMap Byte.hexValue?, v.toNat < 16 := by
    intro v hv
    obtain ⟨digit, -, hdigit⟩ := List.mem_filterMap.mp hv
    exact (of_hexValue? hdigit).1
  have hzero : ∀ b ∈ written ++ [0x30], isHexBody b = true := by
    rw [List.forall_mem_append]
    exact ⟨h, List.forall_mem_singleton.mpr rfl⟩
  have happend : (written ++ [0x30]).filterMap Byte.hexValue?
      = written.filterMap Byte.hexValue? ++ [0] := by
    rw [List.filterMap_append]
    rfl
  rw [SpelledInHex, SpelledInHex, forall₂_hexDigit_iff _ lt_of_mem_flatMap_halves,
    forall₂_hexDigit_iff _ lt_of_mem_flatMap_halves, and_iff_right h, and_iff_right hzero, happend,
    unhex, pairs_eq_iff hvalues, eq_comm, eq_comm (b := _ ++ [0])]

theorem isHexBody_of_spelledInHex {written bytes : List UInt8} (h : SpelledInHex written bytes) :
    ∀ b ∈ written, isHexBody b = true :=
  ((forall₂_hexDigit_iff written lt_of_mem_flatMap_halves).mp h).1

end Quotation

/-! ### Scans at their places -/

namespace Token

theorem hex_found_ne_keyword (rest bytes : List UInt8) :
    (Scan.hex rest).found ≠ .ok (.keyword bytes) := by
  rw [Scan.hex]
  split
  · exact fun h => by cases h
  · split <;> exact fun h => by cases h

/-- What reading a string comes to, after the opening bracket at `start`. -/
def hexAt (start : Nat) (rest : List UInt8) : Except Error Token × Place :=
  (Scan.hex rest).located ⟨start, Byte.less :: rest⟩

section Hex

variable (start : Nat) {body : List UInt8} (hbody : ∀ b ∈ body, Quotation.isHexBody b = true)
include hbody

theorem hexAt_closed (after : List UInt8) :
    hexAt start (body ++ Byte.greater :: after)
      = (.ok (.string (Quotation.unhex body)), ⟨start + (body.length + 2), after⟩) := by
  rw [hexAt, Scan.hex_closed hbody, List.append_cons,
    Scan.located_of_more (by rw [List.length_append]; rfl)]
  simp only [List.length_append, List.length_singleton]
  rfl

theorem hexAt_bad {bad : UInt8} (hbad : Quotation.isHexBody bad = false)
    (hgreater : bad ≠ Byte.greater) (after : List UInt8) :
    hexAt start (body ++ bad :: after)
      = (.error (.badToken (start + (body.length + 1)) (.badHexDigit bad)),
        ⟨start + (body.length + 2), after⟩) := by
  rw [hexAt, Scan.hex_bad hbody hbad hgreater, List.append_cons,
    Scan.located_of_more (by rw [List.length_append]; rfl)]
  simp only [List.length_append, List.length_singleton]
  rfl

theorem hexAt_open :
    hexAt start body = (.error .unexpectedEnd, ⟨start + (body.length + 1), []⟩) := by
  have hscan := Scan.located_of_more (congrArg Scan.more (Scan.hex_open hbody)) start Byte.less []
  rw [List.append_nil] at hscan
  rw [hexAt, hscan, Scan.hex_open hbody]
  rfl

end Hex

theorem hexAt_ok_iff (start : Nat) (rest : List UInt8) (token : Token) (place : Place) :
    hexAt start rest = (.ok token, place)
      ↔ ∃ written bytes after, rest = written ++ Byte.greater :: after
        ∧ (Quotation.SpelledInHex written bytes
          ∨ Quotation.SpelledInHex (written ++ [0x30]) bytes)
        ∧ token = .string bytes ∧ place = ⟨start + (written.length + 2), after⟩ := by
  constructor
  · intro hat
    rcases exists_run Quotation.isHexBody rest with hall | ⟨body, stop, after, rfl, hbody, hstop⟩
    · cases (hexAt_open start hall).symm.trans hat
    · by_cases hgreater : stop = Byte.greater
      · subst hgreater
        cases (hexAt_closed start hbody after).symm.trans hat
        exact ⟨body, _, after, rfl, (Quotation.unhex_eq_iff hbody _).mp rfl, rfl, rfl⟩
      · cases (hexAt_bad start hbody hstop hgreater after).symm.trans hat
  · rintro ⟨written, bytes, after, rfl, hspelled, rfl, rfl⟩
    have hbody : ∀ b ∈ written, Quotation.isHexBody b = true := by
      rcases hspelled with hspelled | hspelled
      · exact Quotation.isHexBody_of_spelledInHex hspelled
      · exact (List.forall_mem_append.mp (Quotation.isHexBody_of_spelledInHex hspelled)).1
    have hbytes := (Quotation.unhex_eq_iff hbody bytes).mpr hspelled
    exact (hexAt_closed start hbody after).trans (by rw [hbytes])

theorem hexAt_error_iff (start : Nat) (rest : List UInt8) (error : Error) (place : Place) :
    hexAt start rest = (.error error, place)
      ↔ (∃ body bad after, rest = body ++ bad :: after
          ∧ (∀ b ∈ body, Quotation.isHexBody b = true) ∧ Quotation.isHexBody bad = false
          ∧ bad ≠ Byte.greater
          ∧ error = .badToken (start + (body.length + 1)) (.badHexDigit bad)
          ∧ place = ⟨start + (body.length + 2), after⟩)
        ∨ (∀ b ∈ rest, Quotation.isHexBody b = true) ∧ error = .unexpectedEnd
          ∧ place = ⟨start + (rest.length + 1), []⟩ := by
  constructor
  · intro hat
    rcases exists_run Quotation.isHexBody rest with hall | ⟨body, stop, after, rfl, hbody, hstop⟩
    · cases (hexAt_open start hall).symm.trans hat
      exact .inr ⟨hall, rfl, rfl⟩
    · by_cases hgreater : stop = Byte.greater
      · subst hgreater
        cases (hexAt_closed start hbody after).symm.trans hat
      · cases (hexAt_bad start hbody hstop hgreater after).symm.trans hat
        exact .inl ⟨body, stop, after, rfl, hbody, hstop, hgreater, rfl, rfl⟩
  · rintro (⟨body, bad, after, rfl, hbody, hbad, hgreater, rfl, rfl⟩ | ⟨hall, rfl, rfl⟩)
    · exact hexAt_bad start hbody hbad hgreater after
    · exact hexAt_open start hall

/-- **Strings in angle brackets** are read where the bytes that are neither digits nor
blanks start with the closing bracket, as the bytes that their digits spell; after an odd
number of digits those of the same text with one more zero.  Reading goes on after the
bracket.  Any other such byte is an error at its own offset, and reading goes on after
it; if there is none, the bytes have ended.  A round at the opening bracket comes to this
unless another one follows it. -/
theorem hex_located (start : Nat) (rest : List UInt8) :
    (∀ token place, hexAt start rest = (.ok token, place) ↔
        ∃ written bytes after, rest = written ++ Byte.greater :: after
          ∧ (Quotation.SpelledInHex written bytes
            ∨ Quotation.SpelledInHex (written ++ [0x30]) bytes)
          ∧ token = .string bytes ∧ place = ⟨start + (written.length + 2), after⟩)
      ∧ (∀ error place, hexAt start rest = (.error error, place) ↔
        (∃ body bad after, rest = body ++ bad :: after
            ∧ (∀ b ∈ body, Quotation.isHexBody b = true) ∧ Quotation.isHexBody bad = false
            ∧ bad ≠ Byte.greater
            ∧ error = .badToken (start + (body.length + 1)) (.badHexDigit bad)
            ∧ place = ⟨start + (body.length + 2), after⟩)
          ∨ (∀ b ∈ rest, Quotation.isHexBody b = true) ∧ error = .unexpectedEnd
            ∧ place = ⟨start + (rest.length + 1), []⟩)
      ∧ (rest.head? ≠ some Byte.less → ∀ r : Reader,
        (r.turn? ⟨start, Byte.less :: rest⟩).map Turn.located = some (hexAt start rest)) := by
  refine ⟨hexAt_ok_iff start rest, hexAt_error_iff start rest, ?_⟩
  intro hless r
  have hfound := hex_found_ne_keyword rest
  rw [← scan_less hless] at hfound
  rw [r.located_turn? rfl (by decide) hfound, scan_less hless, hexAt]

/-- Five digits, with blanks before, within and after the bytes that they spell. -/
theorem hex_located_of_odd_digits :
    (({} : Reader).turn? ⟨7, Byte.less :: ([0x20, 0x34, 0x0A, 0x31, 0x36, 0x62, 0x63, 0x00]
        ++ Byte.greater :: [0x54, 0x6A])⟩).map Turn.located
      = some (.ok (.string [0x41, 0x6B, 0xC0]), ⟨17, [0x54, 0x6A]⟩) := by
  have hspelled : Quotation.SpelledInHex
      ([0x20, 0x34, 0x0A, 0x31, 0x36, 0x62, 0x63, 0x00] ++ [0x30]) [0x41, 0x6B, 0xC0] :=
    (Quotation.forall₂_hexDigit_iff _ Quotation.lt_of_mem_flatMap_halves).mpr
      ⟨by decide +kernel, by decide +kernel⟩
  obtain ⟨hstring, -, hround⟩ := hex_located 7 ([0x20, 0x34, 0x0A, 0x31, 0x36, 0x62, 0x63, 0x00]
    ++ Byte.greater :: [0x54, 0x6A])
  rw [hround (by decide), (hstring _ _).mpr ⟨_, _, _, rfl, .inr hspelled, rfl, rfl⟩]
  rfl

end Token

end PageText
