/-
PageText/Proofs/Names.lean

Names.  Each byte of a name is written as it is or as a hash sign with two digits; a hash
sign is written as it is only where two digits do not come after it (`Name.Spelled`).  So a
run of regular bytes spells one name, and resolving its escapes gives that name
(`spelled_iff`).

A name goes on through the regular bytes after its slash.  Digits are regular, so an
escape cannot step over the byte that ends the name.

Main result: `name_located`.
-/
import PageText.Proofs.HexStrings

namespace PageText

namespace Name

/-! ### Spellings -/

/-- The bytes start with two hexadecimal digits. -/
def startsWithDigits : List UInt8 → Bool
  | high :: low :: _ => Byte.isHex high && Byte.isHex low
  | _ => false

/-- What is written after a slash, and the bytes of the name that it stands for. -/
inductive Spelled : (written bytes : List UInt8) → Prop where
  | nil : Spelled [] []
  /-- A byte as it is. -/
  | plain {b : UInt8} {written bytes : List UInt8} : Byte.isRegular b = true →
      (b = Byte.hash → startsWithDigits written = false) → Spelled written bytes →
      Spelled (b :: written) (b :: bytes)
  /-- A byte as its two digits, each of them in either case. -/
  | escape {written bytes : List UInt8} (b : UInt8) (upper upper' : Bool) :
      Spelled written bytes →
      Spelled (Byte.hash :: hexDigit upper (b >>> 4) :: hexDigit upper' (b &&& 0x0F) :: written)
        (b :: bytes)

/-- Without two digits after it a hash sign stands for itself. -/
theorem unescape_hash {rest : List UInt8} (h : startsWithDigits rest = false) :
    unescape (Byte.hash :: rest) = Byte.hash :: unescape rest := by
  match rest with
  | [] => rfl
  | [_] => rfl
  | high :: low :: rest =>
    rw [startsWithDigits, Byte.isHex, Byte.isHex] at h
    rw [unescape, if_pos (beq_self_eq_true _)]
    split
    · next hhigh hlow =>
      rw [hhigh, hlow] at h
      cases h
    · rfl

namespace Spelled

variable {written bytes : List UInt8}

theorem isRegular (h : Spelled written bytes) : ∀ b ∈ written, Byte.isRegular b = true := by
  induction h with
  | nil => exact fun b hb => absurd hb List.not_mem_nil
  | plain hb _ _ ih => exact List.forall_mem_cons.mpr ⟨hb, ih⟩
  | escape b upper upper' _ ih =>
    obtain ⟨hhigh, hlow, -⟩ := ofHalves_halves b
    simp only [List.forall_mem_cons]
    exact ⟨rfl, (hexDigit_of_lt upper hhigh).1, (hexDigit_of_lt upper' hlow).1, ih⟩

theorem unescape_eq (h : Spelled written bytes) : unescape written = bytes := by
  induction h with
  | nil => rfl
  | @plain b written bytes _ hhash _ ih =>
    by_cases hb : b = Byte.hash
    · subst hb
      rw [unescape_hash (hhash rfl), ih]
    · rw [unescape_cons hb, ih]
  | escape b upper upper' _ ih => rw [unescape_hexDigits, ih]

end Spelled

/-- Regular bytes spell what they are with their escapes resolved. -/
theorem spelled_unescape (written : List UInt8) (h : ∀ b ∈ written, Byte.isRegular b = true) :
    Spelled written (unescape written) := by
  fun_induction unescape written with
  | case1 => exact .nil
  | case2 b => exact .plain (h b List.mem_cons_self) (fun _ => rfl) .nil
  | case3 b b₁ =>
    simp only [List.forall_mem_cons] at h
    exact .plain h.1 (fun _ => rfl) (.plain h.2.1 (fun _ => rfl) .nil)
  | case4 b high low rest hhash u v hv hu ih =>
    -- the digits are those of the byte that they make up
    simp only [List.forall_mem_cons] at h
    obtain rfl := beq_iff_eq.mp hhash
    obtain ⟨hhigh, upper, rfl⟩ := Quotation.of_hexValue? hu
    obtain ⟨hlow, upper', rfl⟩ := Quotation.of_hexValue? hv
    obtain ⟨hfirst, hsecond⟩ := List.cons.inj (Quotation.halves_ofHalves hhigh hlow)
    have hspelled := Spelled.escape (Byte.ofHalves u v) upper upper' (ih h.2.2.2)
    rwa [hfirst, (List.cons.inj hsecond).1] at hspelled
  | case5 b high low rest hhash hdigits ih =>
    rw [List.forall_mem_cons] at h
    refine .plain h.1 (fun _ => ?_) (ih h.2)
    rw [startsWithDigits, Byte.isHex, Byte.isHex, ← Bool.not_eq_true, Bool.and_eq_true,
      Option.isSome_iff_exists, Option.isSome_iff_exists]
    rintro ⟨⟨u, hu⟩, v, hv⟩
    exact hdigits u v hu hv
  | case6 b high low rest hhash ih =>
    rw [List.forall_mem_cons] at h
    exact .plain h.1 (fun hb => absurd (beq_iff_eq.mpr hb) hhash) (ih h.2)

/-- **A run of regular bytes spells one name**, and nothing else is a spelling. -/
theorem spelled_iff {written bytes : List UInt8} :
    Spelled written bytes
      ↔ (∀ b ∈ written, Byte.isRegular b = true) ∧ unescape written = bytes := by
  constructor
  · exact fun h => ⟨h.isRegular, h.unescape_eq⟩
  · rintro ⟨hwritten, rfl⟩
    exact spelled_unescape written hwritten

end Name

/-! ### Scans at their places -/

namespace Token

/-- What reading a name comes to, after the slash at `start`. -/
def nameAt (start : Nat) (rest : List UInt8) : Except Error Token × Place :=
  (Scan.name rest).located ⟨start, Byte.slash :: rest⟩

/-- A name takes up the regular bytes after its slash, and no other ones. -/
theorem nameAt_run (start : Nat) {written after : List UInt8}
    (hwritten : ∀ b ∈ written, Byte.isRegular b = true) (hafter : Byte.Boundary after) :
    nameAt start (written ++ after)
      = (.ok (.name (Utf8.decode (Name.unescape written))),
        ⟨start + (written.length + 1), after⟩) := by
  have hscan : Scan.name (written ++ after)
      = .token (.name (Utf8.decode (Name.unescape written))) written.length := by
    rw [Scan.name, takeWhile_run hwritten hafter]
  rw [nameAt, hscan]
  exact Scan.located_of_more rfl start Byte.slash after

/-- The regular bytes that any bytes start with end at a boundary. -/
theorem exists_boundary (bytes : List UInt8) :
    ∃ written after, bytes = written ++ after ∧ (∀ b ∈ written, Byte.isRegular b = true)
      ∧ Byte.Boundary after :=
  ⟨bytes.takeWhile Byte.isRegular, bytes.dropWhile Byte.isRegular,
    List.takeWhile_append_dropWhile.symm, fun _ hb => List.mem_takeWhile_imp hb,
    head?_dropWhile⟩

theorem nameAt_ok_iff (start : Nat) (rest : List UInt8) (token : Token) (place : Place) :
    nameAt start rest = (.ok token, place)
      ↔ ∃ written bytes after, rest = written ++ after ∧ Name.Spelled written bytes
        ∧ Byte.Boundary after ∧ token = .name (Utf8.decode bytes)
        ∧ place = ⟨start + (written.length + 1), after⟩ := by
  constructor
  · intro hat
    obtain ⟨written, after, rfl, hwritten, hafter⟩ := exists_boundary rest
    cases (nameAt_run start hwritten hafter).symm.trans hat
    exact ⟨written, _, after, rfl, Name.spelled_iff.mpr ⟨hwritten, rfl⟩, hafter, rfl, rfl⟩
  · rintro ⟨written, bytes, after, rfl, hspelled, hafter, rfl, rfl⟩
    obtain ⟨hwritten, hbytes⟩ := Name.spelled_iff.mp hspelled
    rw [nameAt_run start hwritten hafter, hbytes]

/-- **Names** are read of what spells them, up to the first byte that is not regular, as
the texts that they stand for, and reading goes on at that byte.  In particular a text is
read of every spelling of its bytes.  Whatever stands after a slash is a name, and it
ends before the first blank or delimiter.  A round at the slash comes to this. -/
theorem name_located (start : Nat) (rest : List UInt8) :
    (∀ token place, nameAt start rest = (.ok token, place) ↔
        ∃ written bytes after, rest = written ++ after ∧ Name.Spelled written bytes
          ∧ Byte.Boundary after ∧ token = .name (Utf8.decode bytes)
          ∧ place = ⟨start + (written.length + 1), after⟩)
      ∧ (∀ text written after, rest = written ++ after →
        Name.Spelled written (Utf8.encode text) → Byte.Boundary after →
        nameAt start rest = (.ok (.name text), ⟨start + (written.length + 1), after⟩))
      ∧ (∃ text written after, rest = written ++ after
        ∧ (∀ b ∈ written, Byte.isRegular b = true) ∧ Byte.Boundary after
        ∧ nameAt start rest = (.ok (.name text), ⟨start + (written.length + 1), after⟩))
      ∧ ∀ r : Reader, (r.turn? ⟨start, Byte.slash :: rest⟩).map Turn.located
        = some (nameAt start rest) := by
  refine ⟨nameAt_ok_iff start rest, ?_, ?_, ?_⟩
  · rintro text written after rfl hspelled hafter
    obtain ⟨hwritten, hbytes⟩ := Name.spelled_iff.mp hspelled
    rw [nameAt_run start hwritten hafter, hbytes, Utf8.decode_encode]
  · obtain ⟨written, after, rfl, hwritten, hafter⟩ := exists_boundary rest
    exact ⟨_, written, after, rfl, hwritten, hafter, nameAt_run start hwritten hafter⟩
  · intro r
    have hfound : ∀ word, (scan Byte.slash rest).found ≠ .ok (.keyword word) :=
      fun word h => by cases h
    exact r.located_turn? rfl (by decide) hfound start

/-- A letter, a character of two bytes in escaped ones, a hash sign before one digit, an
escaped blank, and a hash sign at the end, before a bracket. -/
theorem name_located_of_mixed_spelling :
    (({} : Reader).turn? ⟨4, Byte.slash ::
        ([0x41, 0x23, 0x63, 0x33, 0x23, 0x41, 0x39, 0x23, 0x34, 0x7A, 0x23, 0x32, 0x30, 0x23]
          ++ [0x5D, 0x34, 0x31])⟩).map Turn.located
      = some (.ok (.name "Aé#4z #"), ⟨19, [0x5D, 0x34, 0x31]⟩) := by
  have hhash : Name.Spelled [0x23] [0x23] := .plain (by decide) (fun _ => rfl) .nil
  have hblank : Name.Spelled [0x23, 0x32, 0x30, 0x23] [0x20, 0x23] :=
    .escape 0x20 true true hhash
  have hplain : Name.Spelled [0x23, 0x34, 0x7A, 0x23, 0x32, 0x30, 0x23]
      [0x23, 0x34, 0x7A, 0x20, 0x23] :=
    .plain (by decide) (fun _ => by decide)
      (.plain (by decide) nofun (.plain (by decide) nofun hblank))
  have hspelled : Name.Spelled
      [0x41, 0x23, 0x63, 0x33, 0x23, 0x41, 0x39, 0x23, 0x34, 0x7A, 0x23, 0x32, 0x30, 0x23]
      (Utf8.encode "Aé#4z #") :=
    .plain (by decide) nofun (.escape 0xC3 false true (.escape 0xA9 true true hplain))
  obtain ⟨-, hread, -, hround⟩ := name_located 4
    ([0x41, 0x23, 0x63, 0x33, 0x23, 0x41, 0x39, 0x23, 0x34, 0x7A, 0x23, 0x32, 0x30, 0x23]
      ++ [0x5D, 0x34, 0x31])
  rw [hround, hread _ _ _ rfl hspelled (by rintro b ⟨⟩; rfl)]
  rfl

end Token

end PageText
