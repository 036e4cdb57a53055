/-
PageText/Proofs/LiteralStrings.lean

Strings in parentheses.  Read from left to right, with the number of parentheses that are
open, each byte stands for itself, but a backslash stands with some of the bytes after it
for one byte or for none (`Quotation.Escape`), and the parenthesis that closes the first
level ends the string (`Quotation.Reading`).  Where the bytes have such a reading, the
string ends there and its escapes are resolved as the reading says; where an end is found,
the bytes have a reading (`exists_reading`).

Put the other way round, a string may be spelled with any of its bytes as they are,
escaped, or between parentheses in balance (`Quotation.Spelled`): the readings are the
spellings with the parenthesis that ends them (`reading_iff`).

Main result: `literal_located`.
-/
import PageText.Proofs.Extents

namespace PageText

namespace Quotation

variable {written denoted next body bytes : List UInt8} {depth : Nat}

/-! ### Escapes -/

/-- The letters that stand for control bytes after a backslash. -/
def controls : List (UInt8 × UInt8) :=
  [(0x6E, 0x0A), (0x72, 0x0D), (0x74, 0x09), (0x62, 0x08), (0x66, 0x0C)]

/-- What is written with a backslash stands for these bytes when `next` comes after it. -/
inductive Escape : (written denoted next : List UInt8) → Prop where
  /-- A letter, for its control byte. -/
  | control {letter byte : UInt8} {next : List UInt8} : (letter, byte) ∈ controls →
      Escape [Byte.backslash, letter] [byte] next
  /-- As many octal digits as there are, but no more than three, for their value. -/
  | octal {digits next : List UInt8} : digits ≠ [] → (∀ d ∈ digits, Byte.isOctal d = true) →
      digits.length ≤ 3 → (digits.length = 3 ∨ ∀ b ∈ next.head?, Byte.isOctal b = false) →
      Escape (Byte.backslash :: digits)
        [UInt8.ofNat (Nat.ofDigits 8 (digits.map fun d => (Byte.digitValue d).toNat).reverse)] next
  /-- The end of a line, for nothing. -/
  | lineFeed {next : List UInt8} : Escape [Byte.backslash, Byte.lineFeed] [] next
  | carriageReturn {next : List UInt8} : (∀ b ∈ next.head?, b ≠ Byte.lineFeed) →
      Escape [Byte.backslash, Byte.carriageReturn] [] next
  | bothLineEnds {next : List UInt8} :
      Escape [Byte.backslash, Byte.carriageReturn, Byte.lineFeed] [] next
  /-- Any other byte, for itself. -/
  | itself {b : UInt8} {next : List UInt8} : b ∉ controls.map Prod.fst →
      Byte.isOctal b = false → b ≠ Byte.lineFeed → b ≠ Byte.carriageReturn →
      Escape [Byte.backslash, b] [b] next

theorem octalByte_eq (digits : List UInt8) :
    octalByte digits
      = UInt8.ofNat (Nat.ofDigits 8 (digits.map fun d => (Byte.digitValue d).toNat).reverse) := by
  rw [octalByte, octalValue, Nat.ofDigits_eq_foldr, List.foldr_reverse, List.foldl_map]
  refine congrArg UInt8.ofNat (congrArg (List.foldl · 0 digits) ?_)
  funext n d
  exact Nat.add_comm _ _

theorem of_mem_controls {letter byte : UInt8} (h : (letter, byte) ∈ controls) :
    Byte.isOctal letter = false ∧ letter ≠ Byte.lineFeed ∧ letter ≠ Byte.carriageReturn
      ∧ letterMeaning letter = byte := by
  simp only [controls, List.mem_cons, Prod.mk.injEq, List.not_mem_nil, or_false] at h
  rcases h with ⟨rfl, rfl⟩ | ⟨rfl, rfl⟩ | ⟨rfl, rfl⟩ | ⟨rfl, rfl⟩ | ⟨rfl, rfl⟩ <;> decide

/-- A byte that is no letter of a control byte keeps its meaning. -/
theorem letterMeaning_of_not_mem {b : UInt8} (h : b ∉ controls.map Prod.fst) :
    letterMeaning b = b := by
  have hne : ∀ letter ∈ controls.map Prod.fst, ¬(b == letter) = true := by
    intro letter hmem heq
    exact h (beq_iff_eq.mp heq ▸ hmem)
  rw [letterMeaning, if_neg (hne 0x6E (by decide)), if_neg (hne 0x72 (by decide)),
    if_neg (hne 0x74 (by decide)), if_neg (hne 0x62 (by decide)), if_neg (hne 0x66 (by decide))]

theorem isEscaped_of_isOctal {b : UInt8} (h : Byte.isOctal b = true) : isEscaped b = false := by
  simp only [Byte.isOctal, Bool.and_eq_true, decide_eq_true_eq] at h
  simp only [isEscaped, Bool.or_eq_false_iff, beq_eq_false_iff_ne]
  grind

/-- Octal digits are taken up to a number of them. -/
theorem exists_octal_run (most : Nat) (rest : List UInt8) :
    ∃ digits next, rest = digits ++ next ∧ digits.length ≤ most
      ∧ (∀ d ∈ digits, Byte.isOctal d = true)
      ∧ (digits.length = most ∨ ∀ b ∈ next.head?, Byte.isOctal b = false) := by
  induction most generalizing rest with
  | zero => exact ⟨[], rest, rfl, Nat.le_refl 0, fun d hd => absurd hd List.not_mem_nil, .inl rfl⟩
  | succ most ih =>
    rcases rest with - | ⟨d, rest⟩
    · exact ⟨[], [], rfl, Nat.zero_le _, fun d hd => absurd hd List.not_mem_nil,
        .inr fun b hb => by cases hb⟩
    rcases hd : Byte.isOctal d with - | -
    · refine ⟨[], d :: rest, rfl, Nat.zero_le _, fun d hd => absurd hd List.not_mem_nil, .inr ?_⟩
      intro b hb
      obtain rfl := Option.some.inj hb
      exact hd
    · obtain ⟨digits, next, rfl, hlength, hdigits, hend⟩ := ih rest
      refine ⟨d :: digits, next, rfl, Nat.succ_le_succ hlength,
        List.forall_mem_cons.mpr ⟨hd, hdigits⟩, ?_⟩
      exact hend.imp_left (congrArg Nat.succ)

/-- After a backslash any byte starts an escape. -/
theorem exists_escape (b : UInt8) (rest : List UInt8) :
    ∃ written denoted next, Byte.backslash :: b :: rest = written ++ next
      ∧ Escape written denoted next := by
  rcases hoctal : Byte.isOctal b with - | -
  · by_cases hlineFeed : b = Byte.lineFeed
    · subst hlineFeed
      exact ⟨_, _, rest, rfl, .lineFeed⟩
    by_cases hreturn : b = Byte.carriageReturn
    · subst hreturn
      rcases rest with - | ⟨l, rest⟩
      · exact ⟨_, _, [], rfl, .carriageReturn fun b hb => by cases hb⟩
      by_cases hl : l = Byte.lineFeed
      · subst hl
        exact ⟨_, _, rest, rfl, .bothLineEnds⟩
      · refine ⟨_, _, l :: rest, rfl, .carriageReturn ?_⟩
        intro b hb
        obtain rfl := Option.some.inj hb
        exact hl
    by_cases hcontrol : b ∈ controls.map Prod.fst
    · obtain ⟨⟨_, byte⟩, hmem, rfl⟩ := List.mem_map.mp hcontrol
      exact ⟨_, _, rest, rfl, .control hmem⟩
    · exact ⟨_, _, rest, rfl, .itself hcontrol hoctal hlineFeed hreturn⟩
  · obtain ⟨digits, next, rfl, hlength, hdigits, hend⟩ := exists_octal_run 2 rest
    have hescape : Escape (Byte.backslash :: b :: digits) _ next :=
      .octal (List.cons_ne_nil b digits) (List.forall_mem_cons.mpr ⟨hoctal, hdigits⟩)
        (Nat.succ_le_succ hlength) (hend.imp_left (congrArg Nat.succ))
    exact ⟨_, _, next, rfl, hescape⟩

namespace Escape

/-- An escape looks no further than the byte after it, and a parenthesis does not go on
with it. -/
theorem of_head? (h : Escape written denoted next) {other : List UInt8}
    (hother : ∀ b ∈ other.head?, b ∈ next.head? ∨ b = Byte.closeParen) :
    Escape written denoted other := by
  -- what an escape asks of the byte after it holds of a parenthesis
  have hall : ∀ {p : UInt8 → Prop}, p Byte.closeParen → (∀ b ∈ next.head?, p b) →
      ∀ b ∈ other.head?, p b := by
    intro p hclose hnext b hb
    rcases hother b hb with hb | rfl
    · exact hnext b hb
    · exact hclose
  cases h with
  | control hmem => exact .control hmem
  | octal hne hdigits hlength hend => exact .octal hne hdigits hlength (hend.imp_right (hall rfl))
  | lineFeed => exact .lineFeed
  | carriageReturn hend => exact .carriageReturn (hall (by decide) hend)
  | bothLineEnds => exact .bothLineEnds
  | itself hcontrol hoctal hlineFeed hreturn => exact .itself hcontrol hoctal hlineFeed hreturn

theorem of_append {more : List UInt8} (h : Escape written denoted (next ++ more)) :
    Escape written denoted next := by
  refine h.of_head? fun b hb => .inl ?_
  rw [List.head?_append, Option.mem_def.mp hb]
  rfl

theorem append_close (h : Escape written denoted next) (more : List UInt8) :
    Escape written denoted (next ++ Byte.closeParen :: more) := by
  refine h.of_head? fun b hb => ?_
  rcases next with - | ⟨c, next⟩
  · exact .inr (Option.some.inj hb).symm
  · exact .inl hb

/-- After the byte that the backslash hides, an escape has no parentheses and no
backslash. -/
theorem exists_run (h : Escape written denoted next) :
    ∃ first run, written = Byte.backslash :: first :: run ∧ ∀ b ∈ run, isEscaped b = false := by
  cases h with
  | octal hne hdigits _ _ =>
    obtain ⟨first, run, rfl⟩ := List.exists_cons_of_ne_nil hne
    refine ⟨first, run, rfl, ?_⟩
    exact fun b hb => isEscaped_of_isOctal (hdigits b (List.mem_cons_of_mem _ hb))
  | bothLineEnds => exact ⟨_, [Byte.lineFeed], rfl, List.forall_mem_singleton.mpr rfl⟩
  | _ => exact ⟨_, [], rfl, fun b hb => absurd hb List.not_mem_nil⟩

end Escape

/-! ### Scanning over an escape -/

theorem literalEnd?_run {run : List UInt8} (h : ∀ b ∈ run, isEscaped b = false)
    (rest : List UInt8) :
    ∀ taken, literalEnd? depth taken (run ++ rest)
      = literalEnd? depth (taken + run.length) rest := by
  induction run with
  | nil => exact fun taken => rfl
  | cons b run ih =>
    intro taken
    obtain ⟨hb, hrun⟩ := List.forall_mem_cons.mp h
    rw [List.cons_append, literalEnd?_plain hb, ih hrun, List.length_cons, Nat.add_right_comm,
      Nat.add_assoc]

theorem literalEnd?_of_escape (h : Escape written denoted next) (taken : Nat)
    (rest : List UInt8) :
    literalEnd? depth taken (written ++ rest)
      = literalEnd? depth (taken + written.length) rest := by
  -- the backslash hides one byte, and the others are no parentheses
  obtain ⟨first, run, rfl, hrun⟩ := h.exists_run
  rw [List.cons_append, List.cons_append, literalEnd?_backslash, literalEnd?_run hrun,
    List.length_cons, List.length_cons]
  exact congrArg (literalEnd? depth · rest) (by omega)

theorem literalEnd?_open (taken : Nat) (rest : List UInt8) :
    literalEnd? depth taken (Byte.openParen :: rest)
      = literalEnd? (depth + 1) (taken + 1) rest := by
  rw [literalEnd?_cons (by decide)]
  rfl

theorem literalEnd?_close_inner (taken : Nat) (rest : List UInt8) :
    literalEnd? (depth + 2) taken (Byte.closeParen :: rest)
      = literalEnd? (depth + 1) (taken + 1) rest := by
  rw [literalEnd?_cons (by decide), if_neg (by decide), if_pos (beq_self_eq_true _),
    if_neg (by omega)]
  rfl

theorem unescape_lineFeed (rest : List UInt8) :
    unescape (Byte.backslash :: Byte.lineFeed :: rest) = unescape rest := by
  rw [unescape.eq_def]
  rfl

theorem unescape_bothLineEnds (rest : List UInt8) :
    unescape (Byte.backslash :: Byte.carriageReturn :: Byte.lineFeed :: rest)
      = unescape rest := by
  rw [unescape.eq_def]
  rfl

theorem unescape_carriageReturn (h : ∀ b ∈ next.head?, b ≠ Byte.lineFeed) :
    unescape (Byte.backslash :: Byte.carriageReturn :: next) = unescape next := by
  rw [unescape.eq_def]
  cases next with
  | nil => rfl
  | cons b next =>
    have hb : ¬(b == Byte.lineFeed) = true := by
      rw [beq_iff_eq]
      exact h b rfl
    exact if_neg hb

section Digits

variable {d₁ d₂ d₃ : UInt8} (h₁ : Byte.isOctal d₁ = true)
include h₁

theorem unescape_one_digit (hnext : ∀ b ∈ next.head?, Byte.isOctal b = false) :
    unescape (Byte.backslash :: d₁ :: next) = octalByte [d₁] :: unescape next := by
  rw [unescape.eq_def]
  cases next with
  | nil => simp only [bne_self_eq_false, h₁, Bool.false_eq_true, if_false, if_true, unescape]
  | cons b next =>
    simp only [bne_self_eq_false, h₁, hnext b rfl, Bool.false_eq_true, if_false, if_true]

theorem unescape_two_digits (h₂ : Byte.isOctal d₂ = true)
    (hnext : ∀ b ∈ next.head?, Byte.isOctal b = false) :
    unescape (Byte.backslash :: d₁ :: d₂ :: next) = octalByte [d₁, d₂] :: unescape next := by
  rw [unescape.eq_def]
  cases next with
  | nil => simp only [bne_self_eq_false, h₁, h₂, Bool.false_eq_true, if_false, if_true, unescape]
  | cons b next =>
    simp only [bne_self_eq_false, h₁, h₂, hnext b rfl, Bool.false_eq_true, if_false, if_true]

theorem unescape_three_digits (h₂ : Byte.isOctal d₂ = true) (h₃ : Byte.isOctal d₃ = true)
    (rest : List UInt8) :
    unescape (Byte.backslash :: d₁ :: d₂ :: d₃ :: rest)
      = octalByte [d₁, d₂, d₃] :: unescape rest := by
  rw [unescape.eq_def]
  simp only [bne_self_eq_false, h₁, h₂, h₃, Bool.false_eq_true, if_false, if_true]

end Digits

/-- Digits that are all that an escape takes are resolved together. -/
theorem unescape_octal {digits : List UInt8} (hne : digits ≠ [])
    (hdigits : ∀ d ∈ digits, Byte.isOctal d = true) (hlength : digits.length ≤ 3)
    (hend : digits.length = 3 ∨ ∀ b ∈ next.head?, Byte.isOctal b = false) :
    unescape (Byte.backslash :: (digits ++ next)) = octalByte digits :: unescape next := by
  match digits with
  | [] => exact absurd rfl hne
  | [d₁] =>
    obtain ⟨h₁, -⟩ := List.forall_mem_cons.mp hdigits
    exact unescape_one_digit h₁ (hend.resolve_left nofun)
  | [d₁, d₂] =>
    obtain ⟨h₁, hdigits⟩ := List.forall_mem_cons.mp hdigits
    obtain ⟨h₂, -⟩ := List.forall_mem_cons.mp hdigits
    exact unescape_two_digits h₁ h₂ (hend.resolve_left nofun)
  | [d₁, d₂, d₃] =>
    obtain ⟨h₁, hdigits⟩ := List.forall_mem_cons.mp hdigits
    obtain ⟨h₂, hdigits⟩ := List.forall_mem_cons.mp hdigits
    obtain ⟨h₃, -⟩ := List.forall_mem_cons.mp hdigits
    exact unescape_three_digits h₁ h₂ h₃ next
  | d₁ :: d₂ :: d₃ :: d₄ :: digits =>
    simp only [List.length_cons] at hlength
    omega

/-- An escape is resolved as what it stands for. -/
theorem unescape_of_escape (h : Escape written denoted next) :
    unescape (written ++ next) = denoted ++ unescape next := by
  cases h with
  | control hmem =>
    obtain ⟨hoctal, hlineFeed, hreturn, hmeaning⟩ := of_mem_controls hmem
    rw [← hmeaning]
    exact unescape_letter hoctal hlineFeed hreturn next
  | octal hne hdigits hlength hend =>
    rw [← octalByte_eq]
    exact unescape_octal hne hdigits hlength hend
  | lineFeed => exact unescape_lineFeed next
  | carriageReturn hend => exact unescape_carriageReturn hend
  | bothLineEnds => exact unescape_bothLineEnds next
  | @itself b _ hcontrol hoctal hlineFeed hreturn =>
    have hletter := unescape_letter hoctal hlineFeed hreturn next
    rwa [letterMeaning_of_not_mem hcontrol] at hletter

/-! ### Readings -/

/-- Reading on with `depth` parentheses open: the bytes up to the one that closes the
first of them, and the bytes that they stand for. -/
inductive Reading : (depth : Nat) → (body bytes : List UInt8) → Prop where
  /-- The end of the string stands for nothing. -/
  | last : Reading 1 [Byte.closeParen] []
  | close {depth : Nat} {body bytes : List UInt8} : Reading (depth + 1) body bytes →
      Reading (depth + 2) (Byte.closeParen :: body) (Byte.closeParen :: bytes)
  | opening {depth : Nat} {body bytes : List UInt8} : Reading (depth + 2) body bytes →
      Reading (depth + 1) (Byte.openParen :: body) (Byte.openParen :: bytes)
  | escape {depth : Nat} {written denoted body bytes : List UInt8} :
      Escape written denoted body → Reading depth body bytes →
      Reading depth (written ++ body) (denoted ++ bytes)
  | plain {depth : Nat} {b : UInt8} {body bytes : List UInt8} : isEscaped b = false →
      Reading depth body bytes → Reading depth (b :: body) (b :: bytes)

namespace Reading

/-- A string ends where its reading does. -/
theorem literalEnd?_append (h : Reading depth body bytes) (after : List UInt8) :
    ∀ taken, literalEnd? depth taken (body ++ after) = some (taken + body.length) := by
  induction h with
  | last => exact fun taken => literalEnd?_close taken after
  | close _ ih =>
    intro taken
    rw [List.cons_append, literalEnd?_close_inner, ih, List.length_cons]
    exact congrArg some (by omega)
  | opening _ ih =>
    intro taken
    rw [List.cons_append, literalEnd?_open, ih, List.length_cons]
    exact congrArg some (by omega)
  | escape hescape _ ih =>
    intro taken
    rw [List.append_assoc, literalEnd?_of_escape hescape, ih, List.length_append, Nat.add_assoc]
  | plain hb _ ih =>
    intro taken
    rw [List.cons_append, literalEnd?_plain hb, ih, List.length_cons]
    exact congrArg some (by omega)

/-- What stands before the end of a string is resolved as what its reading stands for. -/
theorem exists_inner (h : Reading depth body bytes) :
    ∃ inner, body = inner ++ [Byte.closeParen] ∧ unescape inner = bytes := by
  induction h with
  | last => exact ⟨[], rfl, rfl⟩
  | close _ ih =>
    obtain ⟨inner, rfl, rfl⟩ := ih
    exact ⟨Byte.closeParen :: inner, rfl, unescape_cons (by decide) inner⟩
  | opening _ ih =>
    obtain ⟨inner, rfl, rfl⟩ := ih
    exact ⟨Byte.openParen :: inner, rfl, unescape_cons (by decide) inner⟩
  | @escape _ written denoted _ _ hescape _ ih =>
    obtain ⟨inner, rfl, rfl⟩ := ih
    exact ⟨written ++ inner, (List.append_assoc ..).symm, unescape_of_escape hescape.of_append⟩
  | @plain _ b _ _ hb _ ih =>
    obtain ⟨inner, rfl, rfl⟩ := ih
    exact ⟨b :: inner, rfl, unescape_plain hb inner⟩

end Reading

/-- Where a string ends, the bytes have a reading up to there. -/
theorem exists_reading {depth taken : Nat} {rest : List UInt8} {n : Nat}
    (h : literalEnd? (depth + 1) taken rest = some n) :
    ∃ body bytes after, rest = body ++ after ∧ Reading (depth + 1) body bytes := by
  -- an escape may take several bytes, so the induction is on how many are left
  induction hlength : rest.length using Nat.strong_induction_on generalizing depth taken rest with
  | _ length ih
  subst hlength
  rcases rest with - | ⟨b, rest⟩
  · cases h
  by_cases hbackslash : b = Byte.backslash
  · subst hbackslash
    rcases rest with - | ⟨first, rest⟩
    · cases h
    obtain ⟨written, denoted, next, heq, hescape⟩ := exists_escape first rest
    rw [heq, literalEnd?_of_escape hescape] at h
    have hshorter : next.length < (written ++ next).length := by
      obtain ⟨first, run, rfl, -⟩ := hescape.exists_run
      rw [List.length_append, List.length_cons]
      omega
    rw [heq] at ih ⊢
    obtain ⟨body, bytes, after, rfl, hreading⟩ := ih _ hshorter h rfl
    rw [← List.append_assoc]
    exact ⟨_, _, after, rfl, .escape hescape.of_append hreading⟩
  have hshorter : rest.length < (b :: rest).length := Nat.lt_succ_self _
  by_cases hopen : b = Byte.openParen
  · subst hopen
    rw [literalEnd?_open] at h
    obtain ⟨body, bytes, after, rfl, hreading⟩ := ih _ hshorter h rfl
    exact ⟨_, _, after, rfl, hreading.opening⟩
  by_cases hclose : b = Byte.closeParen
  · subst hclose
    cases depth with
    | zero => exact ⟨_, _, rest, rfl, .last⟩
    | succ depth =>
      rw [literalEnd?_close_inner] at h
      obtain ⟨body, bytes, after, rfl, hreading⟩ := ih _ hshorter h rfl
      exact ⟨_, _, after, rfl, hreading.close⟩
  · have hb : isEscaped b = false := by
      simp only [isEscaped, Bool.or_eq_false_iff, beq_eq_false_iff_ne]
      exact ⟨⟨hopen, hclose⟩, hbackslash⟩
    rw [literalEnd?_plain hb] at h
    obtain ⟨body, bytes, after, rfl, hreading⟩ := ih _ hshorter h rfl
    exact ⟨_, _, after, rfl, .plain hb hreading⟩

/-! ### Spellings -/

/-- The bytes as they may be written between parentheses: as they are, escaped, or with
parentheses in balance around them. -/
inductive Spelled : (written bytes : List UInt8) → Prop where
  | nil : Spelled [] []
  | plain {b : UInt8} {written bytes : List UInt8} : isEscaped b = false →
      Spelled written bytes → Spelled (b :: written) (b :: bytes)
  | escape {written denoted next bytes : List UInt8} : Escape written denoted next →
      Spelled next bytes → Spelled (written ++ next) (denoted ++ bytes)
  | nested {inner between next bytes : List UInt8} : Spelled inner between →
      Spelled next bytes →
      Spelled (Byte.openParen :: (inner ++ Byte.closeParen :: next))
        (Byte.openParen :: (between ++ Byte.closeParen :: bytes))

/-- A spelling is read up to the parenthesis after it, and reading goes on there. -/
theorem Spelled.reading (h : Spelled written bytes) {rest more : List UInt8}
    (hrest : Reading (depth + 1) (Byte.closeParen :: rest) more) :
    Reading (depth + 1) (written ++ Byte.closeParen :: rest) (bytes ++ more) := by
  induction h generalizing depth rest more with
  | nil => exact hrest
  | plain hb _ ih => exact .plain hb (ih hrest)
  | escape hescape _ ih =>
    rw [List.append_assoc, List.append_assoc]
    exact .escape (hescape.append_close rest) (ih hrest)
  | nested _ _ ihInner ihNext =>
    -- the parenthesis after `inner` leads back to this level
    have hinner := ihInner (.close (ihNext hrest))
    rw [List.cons_append, List.cons_append, List.append_assoc, List.append_assoc]
    exact .opening hinner

/-- Spellings one after another, each up to a parenthesis that closes a level. -/
inductive Levels : (depth : Nat) → (body bytes : List UInt8) → Prop where
  | last {written bytes : List UInt8} : Spelled written bytes →
      Levels 1 (written ++ [Byte.closeParen]) bytes
  | close {depth : Nat} {written bytes body more : List UInt8} : Spelled written bytes →
      Levels (depth + 1) body more →
      Levels (depth + 2) (written ++ Byte.closeParen :: body) (bytes ++ Byte.closeParen :: more)

namespace Levels

theorem plain {b : UInt8} (hb : isEscaped b = false) (h : Levels depth body bytes) :
    Levels depth (b :: body) (b :: bytes) := by
  cases h with
  | last hspelled => exact .last (.plain hb hspelled)
  | close hspelled hlevels => exact .close (.plain hb hspelled) hlevels

theorem escape (hescape : Escape written denoted body) (h : Levels depth body bytes) :
    Levels depth (written ++ body) (denoted ++ bytes) := by
  cases h with
  | last hspelled =>
    rw [← List.append_assoc]
    exact .last (.escape hescape.of_append hspelled)
  | close hspelled hlevels =>
    rw [← List.append_assoc, ← List.append_assoc]
    exact .close (.escape hescape.of_append hspelled) hlevels

/-- A parenthesis that opens a level joins the first two spellings. -/
theorem opening (h : Levels (depth + 2) body bytes) :
    Levels (depth + 1) (Byte.openParen :: body) (Byte.openParen :: bytes) := by
  cases h with
  | @close _ inner between _ _ hinner hlevels =>
    cases hlevels with
    | last hspelled =>
      have hlast := Levels.last (hinner.nested hspelled)
      rwa [List.cons_append, List.append_assoc, List.cons_append] at hlast
    | close hspelled hlevels =>
      have hclose := Levels.close (hinner.nested hspelled) hlevels
      rwa [List.cons_append, List.append_assoc, List.cons_append, List.cons_append,
        List.append_assoc, List.cons_append] at hclose

end Levels

/-- With each parenthesis that is open, a reading is one more spelling. -/
theorem Reading.levels (h : Reading depth body bytes) : Levels depth body bytes := by
  induction h with
  | last => exact .last .nil
  | close _ ih => exact .close .nil ih
  | opening _ ih => exact ih.opening
  | escape hescape _ ih => exact ih.escape hescape
  | plain hb _ ih => exact ih.plain hb

/-- **The readings are the spellings** with the parenthesis that ends them. -/
theorem reading_iff :
    Reading 1 body bytes
      ↔ ∃ written, body = written ++ [Byte.closeParen] ∧ Spelled written bytes := by
  constructor
  · intro h
    cases h.levels with
    | last hspelled => exact ⟨_, rfl, hspelled⟩
  · rintro ⟨written, rfl, hspelled⟩
    have hreading := hspelled.reading Reading.last
    rwa [List.append_nil] at hreading

end Quotation

/-! ### Scans at their places -/

namespace Token

variable {body bytes : List UInt8}

theorem Scan.literal_of_reading (h : Quotation.Reading 1 body bytes) (after : List UInt8) :
    Scan.literal (body ++ after) = .token (.string bytes) body.length := by
  have hend := h.literalEnd?_append after 0
  obtain ⟨inner, rfl, hinner⟩ := h.exists_inner
  rw [Scan.literal, hend]
  simp only [Nat.zero_add, List.length_append, List.length_singleton, Nat.add_sub_cancel,
    List.append_assoc, List.take_left, hinner]

theorem Scan.literal_of_no_reading {rest : List UInt8}
    (h : ∀ body bytes after, rest = body ++ after → ¬Quotation.Reading 1 body bytes) :
    Scan.literal rest = ⟨.error .ended, rest.length⟩ := by
  rcases hend : Quotation.literalEnd? 1 0 rest with - | taken
  · rw [Scan.literal, hend]
  · obtain ⟨body, bytes, after, heq, hreading⟩ := Quotation.exists_reading hend
    exact absurd hreading (h body bytes after heq)

theorem literal_found_ne_keyword (rest word : List UInt8) :
    (Scan.literal rest).found ≠ .ok (.keyword word) := by
  rw [Scan.literal]
  split <;> exact fun h => by cases h

/-- What reading a string comes to, after the opening parenthesis at `start`. -/
def literalAt (start : Nat) (rest : List UInt8) : Except Error Token × Place :=
  (Scan.literal rest).located ⟨start, Byte.openParen :: rest⟩

theorem literalAt_closed (start : Nat) (h : Quotation.Reading 1 body bytes)
    (after : List UInt8) :
    literalAt start (body ++ after)
      = (.ok (.string bytes), ⟨start + (body.length + 1), after⟩) := by
  rw [literalAt, Scan.literal_of_reading h]
  exact Scan.located_of_more rfl start Byte.openParen after

theorem literalAt_open (start : Nat) {rest : List UInt8}
    (h : ∀ body bytes after, rest = body ++ after → ¬Quotation.Reading 1 body bytes) :
    literalAt start rest = (.error .unexpectedEnd, ⟨start + (rest.length + 1), []⟩) := by
  rw [literalAt, Scan.literal_of_no_reading h]
  have hmore : (Scan.mk (.error .ended) rest.length).more = rest.length := rfl
  have hlocated := Scan.located_of_more hmore start Byte.openParen []
  rwa [List.append_nil] at hlocated

theorem literalAt_ok_iff (start : Nat) (rest : List UInt8) (token : Token) (place : Place) :
    literalAt start rest = (.ok token, place)
      ↔ ∃ body bytes after, rest = body ++ after ∧ Quotation.Reading 1 body bytes
        ∧ token = .string bytes ∧ place = ⟨start + (body.length + 1), after⟩ := by
  constructor
  · intro hlocated
    by_cases hreading : ∃ body bytes after, rest = body ++ after ∧ Quotation.Reading 1 body bytes
    · obtain ⟨body, bytes, after, rfl, hreading⟩ := hreading
      cases (literalAt_closed start hreading after).symm.trans hlocated
      exact ⟨body, bytes, after, rfl, hreading, rfl, rfl⟩
    · have hopen := literalAt_open start fun body bytes after heq h =>
        hreading ⟨body, bytes, after, heq, h⟩
      cases hopen.symm.trans hlocated
  · rintro ⟨body, bytes, after, rfl, hreading, rfl, rfl⟩
    exact literalAt_closed start hreading after

theorem literalAt_error_iff (start : Nat) (rest : List UInt8) (error : Error) (place : Place) :
    literalAt start rest = (.error error, place)
      ↔ (∀ body bytes after, rest = body ++ after → ¬Quotation.Reading 1 body bytes)
        ∧ error = .unexpectedEnd ∧ place = ⟨start + (rest.length + 1), []⟩ := by
  constructor
  · intro hlocated
    have hopen : ∀ body bytes after, rest = body ++ after →
        ¬Quotation.Reading 1 body bytes := by
      rintro body bytes after rfl hreading
      cases (literalAt_closed start hreading after).symm.trans hlocated
    cases (literalAt_open start hopen).symm.trans hlocated
    exact ⟨hopen, rfl, rfl⟩
  · rintro ⟨hopen, rfl, rfl⟩
    exact literalAt_open start hopen

/-- **Strings in parentheses** are read where the bytes have a reading, as the bytes that
it says they stand for, and reading goes on after the parenthesis that ends it.  If they
have none, the bytes have ended.  A round at the opening parenthesis comes to this.  So
what stands before a closing parenthesis is read as a string exactly when it spells it.
As text a string has one character for each byte. -/
theorem literal_located (start : Nat) (rest : List UInt8) :
    (∀ token place, literalAt start rest = (.ok token, place) ↔
        ∃ body bytes after, rest = body ++ after ∧ Quotation.Reading 1 body bytes
          ∧ token = .string bytes ∧ place = ⟨start + (body.length + 1), after⟩)
      ∧ (∀ error place, literalAt start rest = (.error error, place) ↔
        (∀ body bytes after, rest = body ++ after → ¬Quotation.Reading 1 body bytes)
          ∧ error = .unexpectedEnd ∧ place = ⟨start + (rest.length + 1), []⟩)
      ∧ (∀ r : Reader, (r.turn? ⟨start, Byte.openParen :: rest⟩).map Turn.located
        = some (literalAt start rest))
      ∧ (∀ written bytes after, rest = written ++ Byte.closeParen :: after →
        (Quotation.Spelled written bytes
          ↔ literalAt start rest
            = (.ok (.string bytes), ⟨start + (written.length + 2), after⟩)))
      ∧ ∀ bytes, (Latin1.decode bytes).toList.map Char.toNat = bytes.map UInt8.toNat := by
  refine ⟨literalAt_ok_iff start rest, literalAt_error_iff start rest, ?_, ?_,
    Latin1.toNat_decode⟩
  · intro r
    have hfound : ∀ word, (scan Byte.openParen rest).found ≠ .ok (.keyword word) :=
      literal_found_ne_keyword rest
    exact r.located_turn? rfl (by decide) hfound start
  · rintro written bytes after rfl
    rw [literalAt_ok_iff]
    constructor
    · intro hspelled
      refine ⟨written ++ [Byte.closeParen], bytes, after, List.append_cons .., ?_, rfl, ?_⟩
      · exact Quotation.reading_iff.mpr ⟨written, rfl, hspelled⟩
      · rw [List.length_append]
        rfl
    · rintro ⟨body, _, _, hbody, hreading, htoken, hplace⟩
      cases htoken
      obtain rfl := (Place.mk.inj hplace).2
      obtain ⟨spelling, rfl, hspelled⟩ := Quotation.reading_iff.mp hreading
      rw [List.append_cons] at hbody
      obtain rfl := List.append_cancel_right (List.append_cancel_right hbody)
      exact hspelled

/-- Parentheses around an escaped one, digits whose value is too large for a byte, one
digit before a letter, a line that goes on, and a control byte. -/
theorem literal_located_of_mixed_spelling :
    (({} : Reader).turn? ⟨3, Byte.openParen ::
        ([0x28, 0x5C, 0x29, 0x29, 0x5C, 0x35, 0x30, 0x31, 0x5C, 0x35, 0x78, 0x5C, 0x0D, 0x0A,
          0x5C, 0x6E] ++ Byte.closeParen :: [0x20, 0x54, 0x6A])⟩).map Turn.located
      = some (.ok (.string [0x28, 0x29, 0x29, 0x41, 0x05, 0x78, 0x0A]),
        ⟨21, [0x20, 0x54, 0x6A]⟩) := by
  have hcontrol : Quotation.Spelled [0x5C, 0x6E] [0x0A] :=
    .escape (.control (by decide)) .nil
  have hline : Quotation.Spelled [0x5C, 0x0D, 0x0A, 0x5C, 0x6E] [0x0A] :=
    .escape .bothLineEnds hcontrol
  have hdigit : Quotation.Spelled [0x5C, 0x35, 0x78, 0x5C, 0x0D, 0x0A, 0x5C, 0x6E]
      [0x05, 0x78, 0x0A] :=
    .escape (@Quotation.Escape.octal [0x35] [0x78, 0x5C, 0x0D, 0x0A, 0x5C, 0x6E] (by decide)
      (by decide +kernel) (by decide) (.inr (by decide +kernel))) (.plain rfl hline)
  have hdigits : Quotation.Spelled
      [0x5C, 0x35, 0x30, 0x31, 0x5C, 0x35, 0x78, 0x5C, 0x0D, 0x0A, 0x5C, 0x6E]
      [0x41, 0x05, 0x78, 0x0A] :=
    .escape (@Quotation.Escape.octal [0x35, 0x30, 0x31] _ (by decide) (by decide +kernel)
      (by decide) (.inl rfl)) hdigit
  have hinner : Quotation.Spelled [0x5C, 0x29] [0x29] :=
    .escape (.itself (by decide) rfl (by decide) (by decide)) .nil
  obtain ⟨-, -, hround, hspelled, -⟩ := literal_located 3 ([0x28, 0x5C, 0x29, 0x29, 0x5C, 0x35,
    0x30, 0x31, 0x5C, 0x35, 0x78, 0x5C, 0x0D, 0x0A, 0x5C, 0x6E] ++ Byte.closeParen
      :: [0x20, 0x54, 0x6A])
  rw [hround, (hspelled _ _ _ rfl).mp (hinner.nested hdigits)]
  rfl

end Token

end PageText
