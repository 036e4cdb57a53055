/-
PageText/Proofs/Spelling.lean

How tokens are written: names and strings with their escapes, numbers, words
and brackets.  Each spelling is scanned as its token and no further when a
boundary follows it, so each is a lexeme.

Names and strings are escaped byte by byte, and resolving the escapes gives the
bytes back (`Name.unescape_escape`, `Quotation.unescape_escape`); a number is
taken apart into the parts that it was put together from (`Numeral.ofBytes_append`).
-/
import PageText.Proofs.Encoding
import PageText.Proofs.Reading

namespace PageText

/-! ### Bytes -/

namespace Byte

/-- What holds of the bytes of all numbers below a bound holds of the bytes below it. -/
@[elab_as_elim]
theorem of_forall_lt {p : UInt8 → Prop} {bound : Nat} (b : UInt8) (hb : b.toNat < bound)
    (h : ∀ n < bound, p (UInt8.ofNat n)) : p b := by
  have hp := h b.toNat hb
  rwa [UInt8.ofNat_toNat] at hp

theorem isBlank_of_isRegular {b : UInt8} (h : isRegular b = true) : isBlank b = false := by
  rw [isRegular, Bool.and_eq_true, Bool.not_eq_true'] at h
  exact h.1

theorem isDelimiter_of_isRegular {b : UInt8} (h : isRegular b = true) : isDelimiter b = false := by
  rw [isRegular, Bool.and_eq_true, Bool.not_eq_true', Bool.not_eq_true'] at h
  exact h.2

theorem ne_percent_of_isRegular {b : UInt8} (h : isRegular b = true) : b ≠ percent := by
  rintro rfl
  cases h

theorem isRegular_of_startsNumber {b : UInt8} (h : Token.startsNumber b = true) :
    isRegular b = true := by
  revert h
  refine of_forall_lt b b.toNat_lt ?_
  decide +kernel

theorem startsNumber_of_isDigit {b : UInt8} (h : isDigit b = true) :
    Token.startsNumber b = true := by
  rw [Token.startsNumber, h, Bool.or_true]

theorem isRegular_of_isDigit {b : UInt8} (h : isDigit b = true) : isRegular b = true :=
  isRegular_of_startsNumber (startsNumber_of_isDigit h)

/-- A boundary is one for every class of regular bytes. -/
theorem Boundary.head? {rest : List UInt8} (h : Boundary rest) {p : UInt8 → Bool}
    (hp : ∀ b, p b = true → isRegular b = true) : ∀ b ∈ rest.head?, p b = false := by
  intro b hb
  rw [← Bool.not_eq_true]
  intro hpb
  have hregular := hp b hpb
  rw [h b hb] at hregular
  cases hregular

theorem Boundary.not_isDigit {rest : List UInt8} (h : Boundary rest) :
    ∀ b ∈ rest.head?, isDigit b = false :=
  h.head? fun _ => isRegular_of_isDigit

end Byte

section TakeWhile

variable {p : UInt8 → Bool} {run rest : List UInt8}

theorem takeWhile_run (hrun : ∀ b ∈ run, p b = true) (hrest : ∀ b ∈ rest.head?, p b = false) :
    (run ++ rest).takeWhile p = run := by
  rw [List.takeWhile_append_of_pos hrun]
  cases rest with
  | nil => rw [List.takeWhile_nil, List.append_nil]
  | cons b rest =>
    rw [List.takeWhile_cons_of_neg (by rw [hrest b rfl]; decide), List.append_nil]

theorem dropWhile_run (hrun : ∀ b ∈ run, p b = true) (hrest : ∀ b ∈ rest.head?, p b = false) :
    (run ++ rest).dropWhile p = rest := by
  rw [List.dropWhile_append_of_pos hrun]
  cases rest with
  | nil => rfl
  | cons b rest => exact List.dropWhile_cons_of_neg (by rw [hrest b rfl]; decide)

end TakeWhile

/-! ### Names -/

namespace Name

/-- The digit of a half byte, in either case. -/
def hexDigit (upper : Bool) (half : UInt8) : UInt8 :=
  if half < 10 then 0x30 + half else if upper then 0x37 + half else 0x57 + half

/-- A byte of a name as written: blanks, delimiters and hash signs as a hash
sign with two digits. -/
def escapeByte (upper : Bool) (b : UInt8) : List UInt8 :=
  if Byte.isRegular b && b != Byte.hash then [b]
  else [Byte.hash, hexDigit upper (b >>> 4), hexDigit upper (b &&& 0x0F)]

/-- The bytes of a name as written after the slash. -/
def escape (upper : Bool) (bytes : List UInt8) : List UInt8 := bytes.flatMap (escapeByte upper)

theorem hexDigit_of_lt (upper : Bool) {half : UInt8} (h : half.toNat < 16) :
    Byte.isRegular (hexDigit upper half) = true
      ∧ Byte.hexValue? (hexDigit upper half) = some half := by
  refine Byte.of_forall_lt half h ?_
  revert upper
  decide +kernel

/-- A byte is put together from its halves. -/
theorem ofHalves_halves (b : UInt8) :
    (b >>> 4).toNat < 16 ∧ (b &&& 0x0F).toNat < 16
      ∧ Byte.ofHalves (b >>> 4) (b &&& 0x0F) = b := by
  refine Byte.of_forall_lt b b.toNat_lt ?_
  decide +kernel

/-- What is written of a name is regular throughout. -/
theorem isRegular_of_mem_escape {upper : Bool} {bytes : List UInt8} :
    ∀ b ∈ escape upper bytes, Byte.isRegular b = true := by
  intro b hb
  obtain ⟨c, -, hb⟩ := List.mem_flatMap.mp hb
  rw [escapeByte] at hb
  split at hb
  · next hc =>
    obtain rfl := List.mem_singleton.mp hb
    exact (Bool.and_eq_true_iff.mp hc).1
  · obtain ⟨hhigh, hlow, -⟩ := ofHalves_halves c
    rcases List.mem_cons.mp hb with rfl | hb
    · rfl
    rcases List.mem_cons.mp hb with rfl | hb
    · exact (hexDigit_of_lt upper hhigh).1
    · obtain rfl := List.mem_singleton.mp hb
      exact (hexDigit_of_lt upper hlow).1

theorem unescape_cons {b : UInt8} (h : b ≠ Byte.hash) (rest : List UInt8) :
    unescape (b :: rest) = b :: unescape rest := by
  match rest with
  | [] => rfl
  | [_] => rfl
  | high :: low :: rest => rw [unescape, if_neg (by rwa [beq_iff_eq])]

theorem unescape_hexDigits (upper upper' : Bool) (b : UInt8) (rest : List UInt8) :
    unescape (Byte.hash :: hexDigit upper (b >>> 4) :: hexDigit upper' (b &&& 0x0F) :: rest)
      = b :: unescape rest := by
  obtain ⟨hhigh, hlow, hb⟩ := ofHalves_halves b
  rw [unescape, if_pos (beq_self_eq_true _), (hexDigit_of_lt upper hhigh).2,
    (hexDigit_of_lt upper' hlow).2]
  exact congrArg (· :: unescape rest) hb

/-- **Every name is read back** from what is written of it. -/
theorem unescape_escape (upper : Bool) (bytes : List UInt8) :
    unescape (escape upper bytes) = bytes := by
  induction bytes with
  | nil => rfl
  | cons b rest ih =>
    rw [escape, List.flatMap_cons, escapeByte]
    split
    · next hb =>
      rw [List.singleton_append, unescape_cons (by simpa using (Bool.and_eq_true_iff.mp hb).2)]
      exact congrArg (b :: ·) ih
    · exact (unescape_hexDigits upper upper b _).trans (congrArg (b :: ·) ih)

end Name

/-! ### Strings -/

namespace Quotation

/-- The byte is written with a backslash before it. -/
def isEscaped (b : UInt8) : Bool :=
  b == Byte.openParen || b == Byte.closeParen || b == Byte.backslash

/-- A byte of a string as written. -/
def escapeByte (b : UInt8) : List UInt8 := if isEscaped b then [Byte.backslash, b] else [b]

/-- The bytes of a string as written between its parentheses. -/
def escape (bytes : List UInt8) : List UInt8 := bytes.flatMap escapeByte

/-- After a backslash these bytes stand for themselves. -/
theorem meaning_of_isEscaped {b : UInt8} (h : isEscaped b = true) :
    Byte.isOctal b = false ∧ b ≠ Byte.lineFeed ∧ b ≠ Byte.carriageReturn ∧ letterMeaning b = b := by
  simp only [isEscaped, Bool.or_eq_true, beq_iff_eq] at h
  rcases h with (rfl | rfl) | rfl <;> decide

theorem literalEnd?_backslash (depth taken : Nat) (b : UInt8) (rest : List UInt8) :
    literalEnd? depth taken (Byte.backslash :: b :: rest) = literalEnd? depth (taken + 2) rest := by
  rw [literalEnd?, if_pos (beq_self_eq_true _)]

theorem literalEnd?_plain {b : UInt8} (h : isEscaped b = false) (depth taken : Nat)
    (rest : List UInt8) :
    literalEnd? depth taken (b :: rest) = literalEnd? depth (taken + 1) rest := by
  simp only [isEscaped, Bool.or_eq_false_iff] at h
  obtain ⟨⟨hopen, hclose⟩, hbackslash⟩ := h
  rw [literalEnd?.eq_def]
  simp only [hopen, hclose, hbackslash, Bool.false_eq_true, if_false]

theorem literalEnd?_close (taken : Nat) (rest : List UInt8) :
    literalEnd? 1 taken (Byte.closeParen :: rest) = some (taken + 1) := by
  rw [literalEnd?.eq_def]
  rfl

theorem unescape_cons {b : UInt8} (h : b ≠ Byte.backslash) (rest : List UInt8) :
    unescape (b :: rest) = b :: unescape rest := by
  rw [unescape.eq_def]
  exact if_pos (bne_iff_ne.mpr h)

theorem unescape_plain {b : UInt8} (h : isEscaped b = false) (rest : List UInt8) :
    unescape (b :: rest) = b :: unescape rest := by
  simp only [isEscaped, Bool.or_eq_false_iff] at h
  exact unescape_cons (beq_eq_false_iff_ne.mp h.2) rest

/-- Neither a digit nor a line end: one byte stands after the backslash. -/
theorem unescape_letter {b : UInt8} (hoctal : Byte.isOctal b = false)
    (hlineFeed : b ≠ Byte.lineFeed) (hreturn : b ≠ Byte.carriageReturn) (rest : List UInt8) :
    unescape (Byte.backslash :: b :: rest) = letterMeaning b :: unescape rest := by
  rw [← beq_eq_false_iff_ne] at hlineFeed hreturn
  rw [unescape.eq_def]
  simp only [bne_self_eq_false, hoctal, hlineFeed, hreturn, Bool.false_eq_true, if_false]

theorem unescape_escaped {b : UInt8} (h : isEscaped b = true) (rest : List UInt8) :
    unescape (Byte.backslash :: b :: rest) = b :: unescape rest := by
  obtain ⟨hoctal, hlineFeed, hreturn, hmeaning⟩ := meaning_of_isEscaped h
  rw [unescape_letter hoctal hlineFeed hreturn, hmeaning]

/-- What is written of a string keeps the parentheses in balance: it ends at
the one that closes it. -/
theorem literalEnd?_escape (bytes rest : List UInt8) :
    ∀ taken, literalEnd? 1 taken (escape bytes ++ Byte.closeParen :: rest)
      = some (taken + (escape bytes).length + 1) := by
  induction bytes with
  | nil => exact fun taken => literalEnd?_close taken rest
  | cons b bytes ih =>
    intro taken
    rcases hb : isEscaped b with - | -
    · -- no byte that is written as it is opens or closes anything
      have hcons : escape (b :: bytes) = b :: escape bytes := by
        rw [escape, List.flatMap_cons, escapeByte, if_neg (by rw [hb]; decide)]
        rfl
      rw [hcons, List.cons_append, literalEnd?_plain hb, ih, List.length_cons]
      exact congrArg some (by omega)
    · -- the backslash hides the byte after it
      have hcons : escape (b :: bytes) = Byte.backslash :: b :: escape bytes := by
        rw [escape, List.flatMap_cons, escapeByte, if_pos hb]
        rfl
      rw [hcons, List.cons_append, List.cons_append, literalEnd?_backslash, ih, List.length_cons,
        List.length_cons]
      exact congrArg some (by omega)

/-- **Every string is read back** from what is written of it. -/
theorem unescape_escape (bytes : List UInt8) : unescape (escape bytes) = bytes := by
  induction bytes with
  | nil => rfl
  | cons b bytes ih =>
    rw [escape, List.flatMap_cons, escapeByte]
    split
    · next hb => exact (unescape_escaped hb _).trans (congrArg (b :: ·) ih)
    · next hb => exact (unescape_plain (Bool.not_eq_true _ ▸ hb) _).trans (congrArg (b :: ·) ih)

end Quotation

/-! ### Numbers -/

namespace Numeral

/-- The parts are as they are in a number: a sign byte, digits, and at least
one digit. -/
structure Proper (n : Numeral) : Prop where
  sign : ∀ b ∈ n.sign, b = Byte.minus ∨ b = Byte.plus
  whole : ∀ b ∈ n.whole, Byte.isDigit b = true
  fraction : ∀ b ∈ n.fractionDigits, Byte.isDigit b = true
  hasDigits : n.hasDigits = true

/-- The parts are as they are in a number, but there may be no digits beside the
sign and the point. -/
structure Formed (n : Numeral) : Prop where
  sign : ∀ b ∈ n.sign, b = Byte.minus ∨ b = Byte.plus
  whole : ∀ b ∈ n.whole, Byte.isDigit b = true
  fraction : ∀ b ∈ n.fractionDigits, Byte.isDigit b = true
  nonempty : n.bytes ≠ []

/-- A numeral with digits has bytes. -/
theorem bytes_ne_nil_of_hasDigits {n : Numeral} (h : n.hasDigits = true) : n.bytes ≠ [] := by
  intro hnil
  rw [bytes, List.append_eq_nil_iff, List.append_eq_nil_iff] at hnil
  obtain ⟨⟨-, hwhole⟩, hfraction⟩ := hnil
  rw [hasDigits, hwhole, fractionDigits] at h
  rcases hdigits : n.fraction with - | digits
  · rw [hdigits] at h
    cases h
  · rw [hdigits] at hfraction
    cases hfraction

theorem Proper.formed {n : Numeral} (h : n.Proper) : n.Formed :=
  ⟨h.sign, h.whole, h.fraction, bytes_ne_nil_of_hasDigits h.hasDigits⟩

/-- The bytes after the digits before the point. -/
def fractionBytes (n : Numeral) : List UInt8 := n.fraction.elim [] (Byte.point :: ·)

variable {n : Numeral} {rest : List UInt8}

theorem bytes_append (n : Numeral) (rest : List UInt8) :
    n.bytes ++ rest = n.sign.toList ++ (n.whole ++ (n.fractionBytes ++ rest)) := by
  rw [bytes, List.append_assoc, List.append_assoc]
  rfl

/-- What follows does not go on with a digit, nor with a point if the number has
none yet. -/
def EndsBefore (n : Numeral) (rest : List UInt8) : Prop :=
  ∀ b ∈ rest.head?, Byte.isDigit b = false ∧ (n.fraction = none → b ≠ Byte.point)

theorem EndsBefore.of_boundary (hrest : Byte.Boundary rest) : n.EndsBefore rest := by
  intro b hb
  refine ⟨hrest.not_isDigit b hb, ?_⟩
  rintro - rfl
  cases hrest _ hb

/-- The digits before the point end where the point is, or the number. -/
theorem not_isDigit_of_head? (hrest : n.EndsBefore rest) :
    ∀ b ∈ (n.fractionBytes ++ rest).head?, Byte.isDigit b = false := by
  rw [fractionBytes]
  rcases n.fraction with - | digits
  · exact fun b hb => (hrest b hb).1
  · intro b hb
    obtain rfl := Option.some.inj hb
    rfl

theorem fractionOf?_append (hformed : n.Formed) (hrest : n.EndsBefore rest) :
    fractionOf? (n.fractionBytes ++ rest) = n.fraction := by
  have hdigits := hformed.fraction
  rw [fractionDigits] at hdigits
  rw [fractionBytes]
  rcases hfraction : n.fraction with - | digits
  · rcases rest with - | ⟨b, rest⟩
    · rfl
    · have hpoint : ¬(b == Byte.point) = true := by
        rw [beq_iff_eq]
        exact (hrest b rfl).2 hfraction
      exact if_neg hpoint
  · rw [hfraction] at hdigits
    exact congrArg some (takeWhile_run hdigits fun b hb => (hrest b hb).1)

/-- Without its sign a number starts with a digit or its point. -/
theorem exists_unsigned_head (hformed : n.Formed) (hsign : n.sign = none) (rest : List UInt8) :
    ∃ first more, n.whole ++ (n.fractionBytes ++ rest) = first :: more
      ∧ (Byte.isDigit first = true ∨ first = Byte.point) := by
  obtain ⟨sign, whole, fraction⟩ := n
  obtain ⟨_, hwhole, _, hnonempty⟩ := hformed
  obtain rfl : sign = none := hsign
  rcases whole with - | ⟨d, whole⟩
  · rcases fraction with - | digits
    · exact absurd rfl hnonempty
    · exact ⟨Byte.point, digits ++ rest, rfl, .inr rfl⟩
  · exact ⟨d, _, rfl, .inl (hwhole d List.mem_cons_self)⟩

theorem splitSign_append (hformed : n.Formed) (rest : List UInt8) :
    splitSign (n.bytes ++ rest) = (n.sign, n.whole ++ (n.fractionBytes ++ rest)) := by
  have hsign := hformed.sign
  rw [bytes_append]
  rcases h : n.sign with - | b
  · -- neither a digit nor the point is taken for a sign
    obtain ⟨first, more, heq, hfirst⟩ := exists_unsigned_head hformed h rest
    have hunsigned : ¬(first == Byte.minus || first == Byte.plus) = true := by
      rcases hfirst with hdigit | rfl
      · rw [Bool.or_eq_true, beq_iff_eq, beq_iff_eq]
        rintro (rfl | rfl) <;> cases hdigit
      · decide
    rw [Option.toList_none, List.nil_append, heq, splitSign, if_neg hunsigned]
  · have hsigned : (b == Byte.minus || b == Byte.plus) = true := by
      rw [Bool.or_eq_true, beq_iff_eq, beq_iff_eq]
      exact hsign b h
    rw [Option.toList_some, List.singleton_append, splitSign, if_pos hsigned]

/-- **A number is read back** as its parts. -/
theorem ofBytes_append (hformed : n.Formed) (hrest : n.EndsBefore rest) :
    ofBytes (n.bytes ++ rest) = n := by
  have hstop : ∀ b ∈ (n.fractionBytes ++ rest).head?, Byte.isDigit b = false :=
    not_isDigit_of_head? hrest
  have hwhole := takeWhile_run hformed.whole hstop
  have hfraction := dropWhile_run hformed.whole hstop
  simp only [ofBytes, splitSign_append hformed, hwhole, hfraction, fractionOf?_append hformed hrest]

/-- A number starts with its sign, a digit or its point. -/
theorem exists_head (hformed : n.Formed) :
    ∃ first more, n.bytes = first :: more ∧ Token.startsNumber first = true := by
  have hsign := hformed.sign
  have hbytes := bytes_append n []
  rw [List.append_nil] at hbytes
  rw [hbytes]
  rcases h : n.sign with - | b
  · obtain ⟨first, more, heq, hfirst⟩ := exists_unsigned_head hformed h []
    refine ⟨first, more, by rw [Option.toList_none, List.nil_append, heq], ?_⟩
    rcases hfirst with hdigit | rfl
    · exact Byte.startsNumber_of_isDigit hdigit
    · rfl
  · refine ⟨b, _, rfl, ?_⟩
    rcases hsign b h with rfl | rfl <;> rfl

end Numeral

/-! ### Words -/

/-- A text that is written as the kind of an event: it starts like no number, is
neither a value nor the beginning of an image, and has regular bytes only. -/
structure Word where
  text : String
  nonempty : text ≠ ""
  regular : ∀ b ∈ Utf8.encode text, Byte.isRegular b = true
  notNumber : ∀ b ∈ (Utf8.encode text).head?, Token.startsNumber b = false
  notValue : text ≠ "true" ∧ text ≠ "false"
  notImage : text ≠ "BI"

namespace Word

/-- The bytes of a word. -/
def bytes (word : Word) : List UInt8 := Utf8.encode word.text

theorem exists_head (word : Word) : ∃ first more, word.bytes = first :: more := by
  rcases h : word.bytes with - | ⟨first, more⟩
  · have hempty := congrArg Utf8.decode h
    rw [bytes, Utf8.decode_encode] at hempty
    exact absurd hempty word.nonempty
  · exact ⟨first, more, rfl⟩

/-- Words are told apart by their bytes. -/
theorem bytes_ne (word : Word) {text : String} (h : word.text ≠ text) :
    word.bytes ≠ Utf8.encode text := by
  intro hbytes
  have htext := congrArg Utf8.decode hbytes
  rw [bytes, Utf8.decode_encode, Utf8.decode_encode] at htext
  exact h htext

end Word

/-! ### Lexemes -/

namespace Token

/-- A regular byte starts a number or a run of regular bytes. -/
theorem scan_of_isRegular {first : UInt8} (h : Byte.isRegular first = true) (rest : List UInt8) :
    scan first rest
      = if startsNumber first then .number first rest else .keyword first rest := by
  have hdelimiter := Byte.isDelimiter_of_isRegular h
  simp only [Byte.isDelimiter, Bool.or_eq_false_iff] at hdelimiter
  obtain ⟨⟨⟨⟨⟨⟨⟨⟨⟨hparen, -⟩, hless⟩, hgreater⟩, hopen⟩, hclose⟩, -⟩, -⟩, hslash⟩, -⟩ := hdelimiter
  simp only [scan, hparen, hless, hgreater, hopen, hclose, hslash, Bool.false_eq_true, if_false]

/-- A run of regular bytes spells its word. -/
theorem spells_of_isRegular {first : UInt8} {more : List UInt8}
    (hregular : ∀ b ∈ first :: more, Byte.isRegular b = true)
    (hnumber : startsNumber first = false) :
    (Scan.word (first :: more)).Spells (first :: more) := by
  have hfirst := hregular first List.mem_cons_self
  refine ⟨first, more, rfl, Byte.isBlank_of_isRegular hfirst,
    Byte.ne_percent_of_isRegular hfirst, ?_⟩
  intro rest hrest
  have hrun : (more ++ rest).takeWhile Byte.isRegular = more :=
    takeWhile_run (fun b hb => hregular b (List.mem_cons_of_mem first hb)) hrest
  rw [scan_of_isRegular hfirst, if_neg (by rw [hnumber]; decide), Scan.keyword, if_pos hfirst, hrun]

/-- A number is scanned as its value and no further, whatever follows that does not go
on with it. -/
theorem scan_number {n : Numeral} (hproper : n.Proper) :
    ∃ first more, n.bytes = first :: more ∧ startsNumber first = true
      ∧ ∀ rest, n.EndsBefore rest →
        scan first (more ++ rest) = .token (.number n.value) more.length := by
  obtain ⟨first, more, hbytes, hfirst⟩ := Numeral.exists_head hproper.formed
  refine ⟨first, more, hbytes, hfirst, ?_⟩
  intro rest hrest
  have hnumeral : Numeral.ofBytes (first :: (more ++ rest)) = n := by
    rw [← List.cons_append, ← hbytes]
    exact Numeral.ofBytes_append hproper.formed hrest
  rw [scan_of_isRegular (Byte.isRegular_of_startsNumber hfirst), if_pos hfirst, Scan.number,
    hnumeral, if_pos hproper.hasDigits, hbytes]
  rfl

/-- The bytes of a number spell its value. -/
theorem spells_number {n : Numeral} (hproper : n.Proper) :
    (Token.number n.value).Spells n.bytes := by
  obtain ⟨first, more, hbytes, hfirst, hscan⟩ := scan_number hproper
  have hregular := Byte.isRegular_of_startsNumber hfirst
  exact ⟨first, more, hbytes, Byte.isBlank_of_isRegular hregular,
    Byte.ne_percent_of_isRegular hregular, fun rest hrest => hscan rest (.of_boundary hrest)⟩

end Token

namespace Lexeme

open Token

/-- A number. -/
def number (n : Numeral) (hproper : n.Proper) : Lexeme where
  bytes := n.bytes
  token := .number n.value
  spells := spells_number hproper

/-- A value of logic. -/
def bool (value : Bool) : Lexeme where
  bytes := Utf8.encode (if value then "true" else "false")
  token := .bool value
  spells := by
    cases value
    · exact @spells_of_isRegular 0x66 [0x61, 0x6C, 0x73, 0x65] (List.all_eq_true.mp rfl) rfl
    · exact @spells_of_isRegular 0x74 [0x72, 0x75, 0x65] (List.all_eq_true.mp rfl) rfl

/-- A word. -/
def keyword (word : Word) : Lexeme where
  bytes := word.bytes
  token := .keyword word.bytes
  spells := by
    obtain ⟨first, more, hbytes⟩ := word.exists_head
    have hregular := word.regular
    have hnumber := word.notNumber first (by rw [← Word.bytes, hbytes]; rfl)
    rw [← Word.bytes, hbytes] at hregular
    have htrue : word.bytes ≠ [0x74, 0x72, 0x75, 0x65] := word.bytes_ne word.notValue.1
    have hfalse : word.bytes ≠ [0x66, 0x61, 0x6C, 0x73, 0x65] := word.bytes_ne word.notValue.2
    have hword : Scan.word word.bytes = .keyword word.bytes := by
      rw [Scan.word, if_neg htrue, if_neg hfalse]
    rw [← hword, hbytes]
    exact spells_of_isRegular hregular hnumber

/-- A name, with the digits of its escapes in either case. -/
def name (upper : Bool) (text : String) : Lexeme where
  bytes := Byte.slash :: Name.escape upper (Utf8.encode text)
  token := .name text
  spells := by
    refine ⟨_, _, rfl, rfl, by decide, ?_⟩
    intro rest hrest
    show Scan.name (Name.escape upper (Utf8.encode text) ++ rest) = _
    have hrun : (Name.escape upper (Utf8.encode text) ++ rest).takeWhile Byte.isRegular
        = Name.escape upper (Utf8.encode text) :=
      takeWhile_run Name.isRegular_of_mem_escape hrest
    rw [Scan.name, hrun, Name.unescape_escape, Utf8.decode_encode]

/-- A string in parentheses. -/
def string (bytes : List UInt8) : Lexeme where
  bytes := Byte.openParen :: (Quotation.escape bytes ++ [Byte.closeParen])
  token := .string bytes
  spells := by
    refine ⟨_, _, rfl, rfl, by decide, ?_⟩
    intro rest _
    show Scan.literal (Quotation.escape bytes ++ [Byte.closeParen] ++ rest) = _
    rw [Scan.literal, List.append_assoc, List.singleton_append, Quotation.literalEnd?_escape]
    simp only [Nat.zero_add, Nat.add_sub_cancel, List.take_left, Quotation.unescape_escape,
      List.length_append, List.length_cons, List.length_nil]

/-- A bracket that opens an array. -/
def openArray : Lexeme where
  bytes := [Byte.openBracket]
  token := .openArray
  spells := ⟨_, _, rfl, rfl, by decide, fun _ _ => rfl⟩

/-- A bracket that closes an array. -/
def closeArray : Lexeme where
  bytes := [Byte.closeBracket]
  token := .closeArray
  spells := ⟨_, _, rfl, rfl, by decide, fun _ _ => rfl⟩

end Lexeme

end PageText
