/-
PageText/Proofs/Scanning.lean

What scanning for a token looks at.  A scan takes bytes that are there
(`scan_more_le`), and no more than one byte after them says where it ends.  So a
token is found again when the bytes after it are replaced by some that start with
a blank, or with the same byte (`Byte.StartsLike`, `scan_replace`): either ends
what a token had before it, and no token goes on into a blank.

In particular a token that has ended is found again when a blank and any other
bytes follow the bytes that it was found in (`scan_append`).
-/
import Mathlib.Data.List.TakeWhile
import PageText.Proofs.Spelling

namespace PageText

/-! ### Bytes -/

/-- A blank ends every token that it is not part of. -/
theorem Byte.of_isBlank {b : UInt8} (h : isBlank b = true) :
    isRegular b = false ∧ isDigit b = false ∧ b ≠ point ∧ b ≠ greater := by
  simp only [isBlank, Bool.or_eq_true, beq_iff_eq] at h
  rcases h with ((((rfl | rfl) | rfl) | rfl) | rfl) | rfl <;> decide

theorem Byte.isBlank_lineFeed : isBlank lineFeed = true := by decide

/-- The bytes start with a blank, or with the same byte as the others. -/
def Byte.StartsLike (bytes others : List UInt8) : Prop :=
  ∀ b ∈ bytes.head?, isBlank b = true ∨ b ∈ others.head?

namespace Byte.StartsLike

variable {bytes others : List UInt8}

/-- What holds of blanks and of the first byte of the others holds of the first
byte. -/
theorem head? (h : StartsLike bytes others) {p : UInt8 → Prop}
    (hblank : ∀ b, isBlank b = true → p b) (hothers : ∀ b ∈ others.head?, p b) :
    ∀ b ∈ bytes.head?, p b := by
  intro b hb
  rcases h b hb with hb | hb
  · exact hblank b hb
  · exact hothers b hb

theorem append (h : StartsLike bytes others) (before : List UInt8) :
    StartsLike (before ++ bytes) (before ++ others) := by
  cases before with
  | nil => exact h
  | cons b before => exact fun c hc => .inr hc

/-- A blank may come after the others. -/
theorem of_blank {stop : UInt8} (hstop : isBlank stop = true) (others more : List UInt8) :
    StartsLike (others ++ stop :: more) others := by
  cases others with
  | nil =>
    intro b hb
    obtain rfl := Option.some.inj hb
    exact .inl hstop
  | cons b others => exact fun c hc => .inr hc

end Byte.StartsLike

/-! ### Runs of bytes -/

section Runs

variable {p : UInt8 → Bool}

theorem length_takeWhile_le (p : UInt8 → Bool) (bytes : List UInt8) :
    (bytes.takeWhile p).length ≤ bytes.length :=
  (List.takeWhile_prefix p).length_le

/-- A run ends at a byte that does not belong to it. -/
theorem head?_dropWhile {bytes : List UInt8} :
    ∀ b ∈ (bytes.dropWhile p).head?, p b = false := by
  intro b hb
  have hhead := List.head?_dropWhile_not p bytes
  rw [Option.mem_def.mp hb] at hhead
  simpa using hhead

/-- A run that a byte has ended does not depend on what follows that byte. -/
theorem takeWhile_ended {bytes : List UInt8} {b : UInt8} {rest : List UInt8}
    (h : bytes.dropWhile p = b :: rest) (more : List UInt8) :
    (bytes ++ more).takeWhile p = bytes.takeWhile p
      ∧ (bytes ++ more).dropWhile p = b :: (rest ++ more)
      ∧ (bytes.takeWhile p).length < bytes.length := by
  induction bytes with
  | nil => cases h
  | cons c others ih =>
    -- the run ends here, or goes on in the bytes after this one
    rcases hc : p c with - | -
    · have hneg : ¬p c = true := by rw [hc]; decide
      rw [List.dropWhile_cons_of_neg hneg] at h
      obtain ⟨rfl, rfl⟩ := List.cons.inj h
      rw [List.cons_append, List.takeWhile_cons_of_neg hneg, List.takeWhile_cons_of_neg hneg,
        List.dropWhile_cons_of_neg hneg]
      exact ⟨rfl, rfl, Nat.succ_pos _⟩
    · rw [List.dropWhile_cons_of_pos hc] at h
      obtain ⟨htake, hdrop, hlength⟩ := ih h
      rw [List.cons_append, List.takeWhile_cons_of_pos hc, List.takeWhile_cons_of_pos hc, htake,
        List.dropWhile_cons_of_pos hc, hdrop]
      exact ⟨rfl, rfl, Nat.succ_lt_succ hlength⟩

end Runs

/-- A run goes on to the end of the bytes, or to a byte that does not belong to it. -/
theorem exists_run (p : UInt8 → Bool) (bytes : List UInt8) :
    (∀ b ∈ bytes, p b = true)
      ∨ ∃ run stop rest, bytes = run ++ stop :: rest ∧ (∀ b ∈ run, p b = true)
        ∧ p stop = false := by
  rcases hdrop : bytes.dropWhile p with - | ⟨stop, rest⟩
  · exact .inl (List.dropWhile_eq_nil_iff.mp hdrop)
  · refine .inr ⟨bytes.takeWhile p, stop, rest, ?_, fun b hb => List.mem_takeWhile_imp hb, ?_⟩
    · rw [← hdrop, List.takeWhile_append_dropWhile]
    · exact head?_dropWhile stop (by rw [hdrop]; rfl)

/-- A run that is as long as the bytes before others is all of them. -/
theorem of_length_takeWhile {p : UInt8 → Bool} {run rest : List UInt8}
    (h : ((run ++ rest).takeWhile p).length = run.length) :
    (∀ b ∈ run, p b = true) ∧ ∀ b ∈ rest.head?, p b = false := by
  induction run with
  | nil =>
    refine ⟨fun b hb => absurd hb List.not_mem_nil, ?_⟩
    intro b hb
    obtain ⟨rest, rfl⟩ := List.head?_eq_some_iff.mp hb
    rw [← Bool.not_eq_true]
    intro hp
    rw [List.nil_append, List.takeWhile_cons_of_pos hp] at h
    cases h
  | cons b run ih =>
    rcases hp : p b with - | -
    · rw [List.cons_append, List.takeWhile_cons_of_neg (by rw [hp]; decide)] at h
      cases h
    · rw [List.cons_append, List.takeWhile_cons_of_pos hp] at h
      obtain ⟨hrun, hrest⟩ := ih (Nat.succ.inj h)
      exact ⟨List.forall_mem_cons.mpr ⟨hp, hrun⟩, hrest⟩

/-- A run ends before a byte that is as good as a blank. -/
theorem takeWhile_replace {p : UInt8 → Bool} {run rest other : List UInt8}
    (hblank : ∀ b, Byte.isBlank b = true → p b = false) (hother : Byte.StartsLike other rest)
    (h : ((run ++ rest).takeWhile p).length = run.length) :
    (run ++ other).takeWhile p = (run ++ rest).takeWhile p := by
  obtain ⟨hrun, hrest⟩ := of_length_takeWhile h
  rw [takeWhile_run hrun hrest, takeWhile_run hrun (hother.head? hblank hrest)]

/-! ### Strings -/

namespace Quotation

theorem literalEnd?_cons {b : UInt8} (h : ¬(b == Byte.backslash) = true) (depth taken : Nat)
    (rest : List UInt8) :
    literalEnd? depth taken (b :: rest)
      = if b == Byte.openParen then literalEnd? (depth + 1) (taken + 1) rest
        else if b == Byte.closeParen then
          if depth ≤ 1 then some (taken + 1) else literalEnd? (depth - 1) (taken + 1) rest
        else literalEnd? depth (taken + 1) rest := by
  rw [literalEnd?.eq_def]
  exact if_neg h

/-- A string that ends does so within the bytes, whatever follows them. -/
theorem literalEnd?_append (depth taken : Nat) (bytes more : List UInt8) {n : Nat}
    (h : literalEnd? depth taken bytes = some n) :
    literalEnd? depth taken (bytes ++ more) = some n ∧ n ≤ taken + bytes.length := by
  -- along the string: what is taken grows by the bytes that are gone
  fun_induction literalEnd? depth taken bytes with
  | case1 => cases h
  | case2 => cases h
  | case3 depth taken b hescape e rest ih =>
    obtain ⟨heq, hle⟩ := ih h
    rw [List.cons_append, List.cons_append, literalEnd?, if_pos hescape, List.length_cons,
      List.length_cons]
    exact ⟨heq, by omega⟩
  | case4 depth taken b rest hescape hopen ih =>
    obtain ⟨heq, hle⟩ := ih h
    rw [List.cons_append, literalEnd?_cons hescape, if_pos hopen, List.length_cons]
    exact ⟨heq, by omega⟩
  | case5 depth taken b rest hescape hopen hclose hlast =>
    rw [List.cons_append, literalEnd?_cons hescape, if_neg hopen, if_pos hclose, if_pos hlast,
      List.length_cons]
    obtain rfl := Option.some.inj h
    exact ⟨rfl, by omega⟩
  | case6 depth taken b rest hescape hopen hclose hlast ih =>
    obtain ⟨heq, hle⟩ := ih h
    rw [List.cons_append, literalEnd?_cons hescape, if_neg hopen, if_pos hclose, if_neg hlast,
      List.length_cons]
    exact ⟨heq, by omega⟩
  | case7 depth taken b rest hescape hopen hclose ih =>
    obtain ⟨heq, hle⟩ := ih h
    rw [List.cons_append, literalEnd?_cons hescape, if_neg hopen, if_neg hclose, List.length_cons]
    exact ⟨heq, by omega⟩

theorem lt_of_literalEnd? {depth taken : Nat} {bytes : List UInt8} {n : Nat}
    (h : literalEnd? depth taken bytes = some n) : taken < n := by
  fun_induction literalEnd? depth taken bytes with
  | case1 => cases h
  | case2 => cases h
  | case3 depth taken b hescape e rest ih => exact Nat.lt_of_le_of_lt (Nat.le_add_right _ 2) (ih h)
  | case4 depth taken b rest hescape hopen ih => exact Nat.lt_of_succ_lt (ih h)
  | case5 depth taken b rest hescape hopen hclose hlast =>
    obtain rfl := Option.some.inj h
    exact Nat.lt_succ_self taken
  | case6 depth taken b rest hescape hopen hclose hlast ih => exact Nat.lt_of_succ_lt (ih h)
  | case7 depth taken b rest hescape hopen hclose ih => exact Nat.lt_of_succ_lt (ih h)

/-- A string that ends within the first of the bytes does so without the others. -/
theorem literalEnd?_of_append (depth taken : Nat) (body more : List UInt8) {n : Nat}
    (h : literalEnd? depth taken (body ++ more) = some n) (hn : n ≤ taken + body.length) :
    literalEnd? depth taken body = some n := by
  fun_induction literalEnd? depth taken body with
  | case1 depth taken => exact absurd (lt_of_literalEnd? h) (Nat.not_lt.mpr hn)
  | case2 depth taken b hescape =>
    -- the backslash would hide a byte of the others
    cases more with
    | nil =>
      rw [List.append_nil, literalEnd?, if_pos hescape] at h
      cases h
    | cons e more =>
      rw [List.singleton_append, literalEnd?, if_pos hescape] at h
      have hlt := lt_of_literalEnd? h
      rw [List.length_singleton] at hn
      omega
  | case3 depth taken b hescape e rest ih =>
    rw [List.cons_append, List.cons_append, literalEnd?, if_pos hescape] at h
    rw [List.length_cons, List.length_cons] at hn
    exact ih h (by omega)
  | case4 depth taken b rest hescape hopen ih =>
    rw [List.cons_append, literalEnd?_cons hescape, if_pos hopen] at h
    rw [List.length_cons] at hn
    exact ih h (by omega)
  | case5 depth taken b rest hescape hopen hclose hlast =>
    rwa [List.cons_append, literalEnd?_cons hescape, if_neg hopen, if_pos hclose,
      if_pos hlast] at h
  | case6 depth taken b rest hescape hopen hclose hlast ih =>
    rw [List.cons_append, literalEnd?_cons hescape, if_neg hopen, if_pos hclose,
      if_neg hlast] at h
    rw [List.length_cons] at hn
    exact ih h (by omega)
  | case7 depth taken b rest hescape hopen hclose ih =>
    rw [List.cons_append, literalEnd?_cons hescape, if_neg hopen, if_neg hclose] at h
    rw [List.length_cons] at hn
    exact ih h (by omega)

end Quotation

/-! ### Numbers -/

namespace Numeral

theorem splitSign_eq (bytes : List UInt8) :
    (splitSign bytes).1.toList ++ (splitSign bytes).2 = bytes := by
  cases bytes with
  | nil => rfl
  | cons b rest =>
    rw [splitSign]
    split
    · rfl
    · rfl

theorem splitSign_sign (bytes : List UInt8) :
    ∀ b ∈ (splitSign bytes).1, b = Byte.minus ∨ b = Byte.plus := by
  intro c hc
  cases bytes with
  | nil => cases hc
  | cons b rest =>
    rw [splitSign] at hc
    split at hc
    · next hsign =>
      obtain rfl := Option.some.inj hc
      rwa [Bool.or_eq_true, beq_iff_eq, beq_iff_eq] at hsign
    · cases hc

theorem isDigit_of_mem_fractionOf? {bytes digits : List UInt8}
    (h : fractionOf? bytes = some digits) : ∀ b ∈ digits, Byte.isDigit b = true := by
  cases bytes with
  | nil => cases h
  | cons c bytes =>
    rw [fractionOf?] at h
    split at h
    · obtain rfl := Option.some.inj h
      exact fun b hb => List.mem_takeWhile_imp hb
    · cases h

/-- The number ends after the digits that follow its point, and after those before
it if there is no point. -/
theorem exists_fraction {bytes : List UInt8}
    (hbytes : ∀ b ∈ bytes.head?, Byte.isDigit b = false) :
    ∃ rest, bytes = (fractionOf? bytes).elim [] (Byte.point :: ·) ++ rest
      ∧ ∀ b ∈ rest.head?, Byte.isDigit b = false
        ∧ (fractionOf? bytes = none → b ≠ Byte.point) := by
  cases bytes with
  | nil => exact ⟨[], rfl, fun b hb => by cases hb⟩
  | cons c bytes =>
    by_cases hpoint : c = Byte.point
    · subst hpoint
      have hfraction : fractionOf? (Byte.point :: bytes)
          = some (bytes.takeWhile Byte.isDigit) := rfl
      rw [hfraction]
      refine ⟨bytes.dropWhile Byte.isDigit, ?_, ?_⟩
      · exact congrArg (Byte.point :: ·) (List.takeWhile_append_dropWhile).symm
      · exact fun b hb => ⟨head?_dropWhile b hb, fun h => by cases h⟩
    · have hfraction : fractionOf? (c :: bytes) = none := if_neg (by rwa [beq_iff_eq])
      rw [hfraction]
      refine ⟨c :: bytes, rfl, ?_⟩
      intro b hb
      obtain rfl := Option.some.inj hb
      exact ⟨hbytes _ rfl, fun _ => hpoint⟩

/-- **The bytes start with the number** that is read of them, and it ends there. -/
theorem exists_rest (bytes : List UInt8) :
    ∃ rest, bytes = (ofBytes bytes).bytes ++ rest ∧ (ofBytes bytes).EndsBefore rest := by
  have hhead : ∀ b ∈ ((splitSign bytes).2.dropWhile Byte.isDigit).head?,
      Byte.isDigit b = false := head?_dropWhile
  obtain ⟨rest, hrest, hends⟩ := exists_fraction hhead
  refine ⟨rest, ?_, hends⟩
  rw [Numeral.bytes, List.append_assoc, ofBytes, ← hrest, List.append_assoc,
    List.takeWhile_append_dropWhile, splitSign_eq]

/-- A byte that starts a number is part of it. -/
theorem bytes_ne_nil {b : UInt8} (hb : Token.startsNumber b = true) (rest : List UInt8) :
    (ofBytes (b :: rest)).bytes ≠ [] := by
  intro hnil
  obtain ⟨after, hbytes, hends⟩ := exists_rest (b :: rest)
  rw [hnil, List.nil_append] at hbytes
  rw [← hbytes] at hends
  rw [bytes, List.append_eq_nil_iff, List.append_eq_nil_iff] at hnil
  obtain ⟨⟨hsign, -⟩, hfraction⟩ := hnil
  have hnone : (ofBytes (b :: rest)).fraction = none := by
    rcases h : (ofBytes (b :: rest)).fraction with - | digits
    · rfl
    · rw [h] at hfraction
      cases hfraction
  obtain ⟨hdigit, hpoint⟩ := hends b rfl
  -- the byte is a sign, then
  have hsigned : (b == Byte.minus || b == Byte.plus) = true := by
    have hpoint' : (b == Byte.point) = false := beq_eq_false_iff_ne.mpr (hpoint hnone)
    rwa [Token.startsNumber, hdigit, hpoint', Bool.or_false, Bool.or_false, Bool.or_comm] at hb
  have hsome : (ofBytes (b :: rest)).sign = some b := by
    show (splitSign (b :: rest)).1 = some b
    rw [splitSign, if_pos hsigned]
  rw [hsome] at hsign
  cases hsign

theorem formed_ofBytes {bytes : List UInt8} (h : (ofBytes bytes).bytes ≠ []) :
    (ofBytes bytes).Formed where
  sign := splitSign_sign bytes
  whole := fun b hb => List.mem_takeWhile_imp hb
  fraction := by
    intro b hb
    rcases hfraction : (ofBytes bytes).fraction with - | digits
    · rw [fractionDigits, hfraction] at hb
      cases hb
    · rw [fractionDigits, hfraction] at hb
      exact isDigit_of_mem_fractionOf? hfraction b hb
  nonempty := h

/-- A number that takes up the first of the bytes is read of them again when others
follow that do not go on with it. -/
theorem ofBytes_replace {body rest other : List UInt8}
    (hnonempty : (ofBytes (body ++ rest)).bytes ≠ [])
    (hlength : (ofBytes (body ++ rest)).bytes.length = body.length)
    (hother : Byte.StartsLike other rest) : ofBytes (body ++ other) = ofBytes (body ++ rest) := by
  obtain ⟨after, hbytes, hends⟩ := exists_rest (body ++ rest)
  obtain ⟨hbody, hrest⟩ := List.append_inj hbytes hlength.symm
  have hend : (ofBytes (body ++ rest)).EndsBefore other := by
    refine hother.head? ?_ (hrest ▸ hends)
    intro b hb
    exact ⟨(Byte.of_isBlank hb).2.1, fun _ => (Byte.of_isBlank hb).2.2.1⟩
  calc ofBytes (body ++ other)
    _ = ofBytes ((ofBytes (body ++ rest)).bytes ++ other) := by rw [← hbody]
    _ = ofBytes (body ++ rest) := ofBytes_append (formed_ofBytes hnonempty) hend

end Numeral

/-! ### Tokens -/

namespace Token

/-- How the bytes after `b` are read: as a name, a string, a number or a word,
with a look at the next one for a second angle bracket, or not at all where `b` is
a token by itself. -/
inductive Reads (b : UInt8) : Prop where
  | name (h : scan b = Scan.name)
  | literal (hb : b = Byte.openParen) (h : scan b = Scan.literal)
  | less (hb : b = Byte.less) (h : ∀ rest, scan b rest
      = if rest.head? == some Byte.less then .token .openDict 1 else .hex rest)
  | greater (hb : b = Byte.greater) (h : ∀ rest, scan b rest
      = if rest.head? == some Byte.greater then .token .closeDict 1
        else ⟨.error (.fault 0 .loneAngle), 0⟩)
  | alone (token : Token) (h : ∀ rest, scan b rest = .token token 0)
  | number (hb : startsNumber b = true) (h : scan b = Scan.number b)
  | keyword (h : scan b = Scan.keyword b)

/-- **What a scan does** is told by the first byte. -/
theorem reads (b : UInt8) : Reads b := by
  by_cases hslash : (b == Byte.slash) = true
  · refine .name (funext fun rest => ?_)
    rw [scan, if_pos hslash]
  by_cases hparen : (b == Byte.openParen) = true
  · refine .literal (beq_iff_eq.mp hparen) (funext fun rest => ?_)
    rw [scan, if_neg hslash, if_pos hparen]
  by_cases hless : (b == Byte.less) = true
  · refine .less (beq_iff_eq.mp hless) fun rest => ?_
    rw [scan, if_neg hslash, if_neg hparen, if_pos hless]
  by_cases hgreater : (b == Byte.greater) = true
  · refine .greater (beq_iff_eq.mp hgreater) fun rest => ?_
    rw [scan, if_neg hslash, if_neg hparen, if_neg hless, if_pos hgreater]
  -- the first byte is no delimiter that others may follow
  have hrest (rest : List UInt8) : scan b rest
      = if b == Byte.openBracket then .token .openArray 0
        else if b == Byte.closeBracket then .token .closeArray 0
        else if startsNumber b then .number b rest
        else .keyword b rest := by
    rw [scan, if_neg hslash, if_neg hparen, if_neg hless, if_neg hgreater]
  by_cases hopen : (b == Byte.openBracket) = true
  · refine .alone .openArray fun rest => ?_
    rw [hrest, if_pos hopen]
  by_cases hclose : (b == Byte.closeBracket) = true
  · refine .alone .closeArray fun rest => ?_
    rw [hrest, if_neg hopen, if_pos hclose]
  by_cases hnumber : startsNumber b = true
  · refine .number hnumber (funext fun rest => ?_)
    rw [hrest, if_neg hopen, if_neg hclose, if_pos hnumber]
  · refine .keyword (funext fun rest => ?_)
    rw [hrest, if_neg hopen, if_neg hclose, if_neg hnumber]

theorem scan_less {rest : List UInt8} (h : rest.head? ≠ some Byte.less) :
    scan Byte.less rest = Scan.hex rest := by
  show (if rest.head? == some Byte.less then _ else _) = _
  exact if_neg (by rwa [beq_iff_eq])

namespace Scan

section Length

variable (rest : List UInt8)

theorem literal_more_le : (literal rest).more ≤ rest.length := by
  rw [literal]
  split
  · next taken hend =>
    have hle := (Quotation.literalEnd?_append 1 0 rest [] hend).2
    rwa [Nat.zero_add] at hle
  · exact Nat.le_refl _

theorem hex_more_le : (hex rest).more ≤ rest.length := by
  rcases hdrop : rest.dropWhile Quotation.isHexBody with - | ⟨b, others⟩
  · have hall : (hex rest).more = rest.length := by rw [hex, hdrop]
    exact Nat.le_of_eq hall
  · have hlt := (takeWhile_ended hdrop []).2.2
    rw [hex, hdrop]
    simp only
    split
    · exact hlt
    · exact hlt

theorem number_more_le (b : UInt8) : (number b rest).more ≤ rest.length := by
  obtain ⟨after, hafter, -⟩ := Numeral.exists_rest (b :: rest)
  have hle : (Numeral.ofBytes (b :: rest)).bytes.length ≤ rest.length + 1 := by
    have hlength := congrArg List.length hafter
    rw [List.length_cons, List.length_append] at hlength
    omega
  rw [number]
  split
  · exact Nat.sub_le_of_le_add hle
  · exact Nat.sub_le_of_le_add hle

theorem keyword_more_le (b : UInt8) : (keyword b rest).more ≤ rest.length := by
  rw [keyword]
  split
  · exact length_takeWhile_le _ rest
  · exact Nat.zero_le _

end Length

variable {body rest other : List UInt8} (more : List UInt8)

theorem literal_append (h : (literal rest).found ≠ .error .ended) :
    literal (rest ++ more) = literal rest := by
  rcases hend : Quotation.literalEnd? 1 0 rest with - | taken
  · rw [literal, hend] at h
    exact absurd rfl h
  · obtain ⟨hsame, hle⟩ := Quotation.literalEnd?_append 1 0 rest more hend
    have hbody : (rest ++ more).take (taken - 1) = rest.take (taken - 1) :=
      List.take_append_of_le_length (by omega)
    rw [literal, literal, hend, hsame]
    exact congrArg (fun body => token (.string (Quotation.unescape body)) taken) hbody

theorem hex_append (h : (hex rest).found ≠ .error .ended) :
    hex (rest ++ more) = hex rest := by
  rcases hdrop : rest.dropWhile Quotation.isHexBody with - | ⟨b, others⟩
  · rw [hex, hdrop] at h
    exact absurd rfl h
  · obtain ⟨htake, hdrop', -⟩ := takeWhile_ended hdrop more
    rw [hex, hex, hdrop, hdrop', htake]

theorem name_replace (hmore : (name (body ++ rest)).more = body.length)
    (hother : Byte.StartsLike other rest) : name (body ++ other) = name (body ++ rest) := by
  have hrun := takeWhile_replace (fun b hb => (Byte.of_isBlank hb).1) hother hmore
  rw [name, name, hrun]

theorem keyword_replace {b : UInt8} (hmore : (keyword b (body ++ rest)).more = body.length)
    (hother : Byte.StartsLike other rest) :
    keyword b (body ++ other) = keyword b (body ++ rest) := by
  rcases hregular : Byte.isRegular b with - | -
  · rw [keyword, keyword, hregular]
    rfl
  · rw [keyword, if_pos hregular] at hmore
    have hrun := takeWhile_replace (fun b hb => (Byte.of_isBlank hb).1) hother hmore
    rw [keyword, keyword, hrun]

theorem literal_of_append (hended : (literal (body ++ rest)).found ≠ .error .ended)
    (hmore : (literal (body ++ rest)).more = body.length) :
    (literal body).found ≠ .error .ended := by
  rcases hend : Quotation.literalEnd? 1 0 (body ++ rest) with - | taken
  · rw [literal, hend] at hended
    exact absurd rfl hended
  · rw [literal, hend] at hmore
    have hle : taken ≤ 0 + body.length := by
      rw [Nat.zero_add]
      exact Nat.le_of_eq hmore
    rw [literal, Quotation.literalEnd?_of_append 1 0 body rest hend hle]
    exact fun h => by cases h

theorem literal_replace (hended : (literal (body ++ rest)).found ≠ .error .ended)
    (hmore : (literal (body ++ rest)).more = body.length) :
    literal (body ++ other) = literal (body ++ rest) := by
  have hbody := literal_of_append hended hmore
  rw [literal_append other hbody, literal_append rest hbody]

/-- Digits and blanks before the closing bracket are a string. -/
theorem hex_closed (hbody : ∀ b ∈ body, Quotation.isHexBody b = true) (after : List UInt8) :
    hex (body ++ Byte.greater :: after)
      = .token (.string (Quotation.unhex body)) (body.length + 1) := by
  have hhead : ∀ b ∈ (Byte.greater :: after).head?, Quotation.isHexBody b = false := by
    rintro b hb
    obtain rfl := Option.some.inj hb
    rfl
  rw [hex, takeWhile_run hbody hhead, dropWhile_run hbody hhead]
  rfl

/-- The first byte that is neither a digit nor a blank nor the closing bracket is an
error. -/
theorem hex_bad {bad : UInt8} (hbody : ∀ b ∈ body, Quotation.isHexBody b = true)
    (hbad : Quotation.isHexBody bad = false) (hgreater : bad ≠ Byte.greater)
    (after : List UInt8) :
    hex (body ++ bad :: after)
      = ⟨.error (.fault (body.length + 1) (.badHexDigit bad)), body.length + 1⟩ := by
  have hhead : ∀ b ∈ (bad :: after).head?, Quotation.isHexBody b = false := by
    rintro b hb
    obtain rfl := Option.some.inj hb
    exact hbad
  rw [hex, takeWhile_run hbody hhead, dropWhile_run hbody hhead]
  exact if_neg (by rwa [beq_iff_eq])

/-- Digits and blanks to the end of the bytes are no string. -/
theorem hex_open (hbody : ∀ b ∈ body, Quotation.isHexBody b = true) :
    hex body = ⟨.error .ended, body.length⟩ := by
  have hnone : body.dropWhile Quotation.isHexBody = [] := List.dropWhile_eq_nil_iff.mpr hbody
  rw [hex, hnone]

/-- A string in angle brackets that ends takes up its body and the byte after it. -/
theorem hex_more {bytes : List UInt8} (hended : (hex bytes).found ≠ .error .ended) :
    (hex bytes).more = (bytes.takeWhile Quotation.isHexBody).length + 1 := by
  rcases hdrop : bytes.dropWhile Quotation.isHexBody with - | ⟨b, others⟩
  · rw [hex, hdrop] at hended
    exact absurd rfl hended
  · rw [hex, hdrop]
    simp only
    split
    · rfl
    · rfl

theorem hex_of_append (hended : (hex (body ++ rest)).found ≠ .error .ended)
    (hmore : (hex (body ++ rest)).more = body.length) : (hex body).found ≠ .error .ended := by
  rw [hex_more hended] at hmore
  rcases hdrop : body.dropWhile Quotation.isHexBody with - | ⟨b, others⟩
  · -- the byte that ends the string would come after the body
    rw [List.takeWhile_append_of_pos (List.dropWhile_eq_nil_iff.mp hdrop), List.length_append]
      at hmore
    omega
  · rw [hex, hdrop]
    simp only
    split
    · exact fun h => by cases h
    · exact fun h => by cases h

theorem hex_replace (hended : (hex (body ++ rest)).found ≠ .error .ended)
    (hmore : (hex (body ++ rest)).more = body.length) :
    hex (body ++ other) = hex (body ++ rest) := by
  have hbody := hex_of_append hended hmore
  rw [hex_append other hbody, hex_append rest hbody]

theorem number_more (b : UInt8) (bytes : List UInt8) :
    (number b bytes).more = (Numeral.ofBytes (b :: bytes)).bytes.length - 1 := by
  rw [number]
  split
  · rfl
  · rfl

theorem number_replace {b : UInt8} (hb : startsNumber b = true)
    (hmore : (number b (body ++ rest)).more = body.length)
    (hother : Byte.StartsLike other rest) :
    number b (body ++ other) = number b (body ++ rest) := by
  have hnonempty := Numeral.bytes_ne_nil hb (body ++ rest)
  have hlength : (Numeral.ofBytes (b :: body ++ rest)).bytes.length = (b :: body).length := by
    have hpos := List.length_pos_iff.mpr hnonempty
    rw [number_more] at hmore
    rw [List.cons_append, List.length_cons]
    omega
  have hsame := Numeral.ofBytes_replace hnonempty hlength hother
  rw [List.cons_append, List.cons_append] at hsame
  rw [number, number, hsame]

end Scan

/-- **A token lies within the bytes.** -/
theorem scan_more_le (b : UInt8) (rest : List UInt8) : (scan b rest).more ≤ rest.length := by
  cases reads b with
  | name h =>
    rw [h]
    exact length_takeWhile_le _ rest
  | literal _ h =>
    rw [h]
    exact Scan.literal_more_le rest
  | less _ h =>
    rw [h]
    cases rest with
    | nil => exact Nat.le_refl 0
    | cons c others =>
      split
      · exact Nat.succ_pos _
      · exact Scan.hex_more_le _
  | greater _ h =>
    rw [h]
    cases rest with
    | nil => exact Nat.le_refl 0
    | cons c others =>
      split
      · exact Nat.succ_pos _
      · exact Nat.zero_le _
  | alone token h =>
    rw [h]
    exact Nat.zero_le _
  | number _ h =>
    rw [h]
    exact Scan.number_more_le rest b
  | keyword h =>
    rw [h]
    exact Scan.keyword_more_le rest b

/-- **A token does not change with what follows it**, as long as that starts with a
blank or with the same byte. -/
theorem scan_replace {b : UInt8} {body rest other : List UInt8}
    (hended : (scan b (body ++ rest)).found ≠ .error .ended)
    (hmore : (scan b (body ++ rest)).more = body.length) (hother : Byte.StartsLike other rest) :
    scan b (body ++ other) = scan b (body ++ rest) := by
  cases reads b with
  | name h =>
    rw [h] at hmore ⊢
    exact Scan.name_replace hmore hother
  | literal _ h =>
    rw [h] at hended hmore ⊢
    exact Scan.literal_replace hended hmore
  | less _ h =>
    cases body with
    | nil =>
      -- a token that starts so has a second byte
      rw [List.nil_append, h] at hended hmore
      split at hmore
      · cases hmore
      · next hdict =>
        rw [if_neg hdict] at hended
        rw [Scan.hex_more hended] at hmore
        cases hmore
    | cons c body =>
      rw [h, List.cons_append, List.head?_cons, ← List.cons_append] at hended hmore
      rw [h, h, List.cons_append, List.cons_append, List.head?_cons, List.head?_cons]
      split
      · rfl
      · next hdict =>
        rw [if_neg hdict] at hended hmore
        exact Scan.hex_replace hended hmore
  | greater _ h =>
    cases body with
    | nil =>
      rw [List.nil_append, h] at hmore
      split at hmore
      · cases hmore
      · next hdict =>
        -- a blank is no second angle bracket either
        have hne : ∀ c ∈ other.head?, c ≠ Byte.greater := by
          refine hother.head? (fun c hc => (Byte.of_isBlank hc).2.2.2) ?_
          rintro c hc rfl
          exact hdict (beq_iff_eq.mpr hc)
        have hdict' : ¬(other.head? == some Byte.greater) = true := by
          rw [beq_iff_eq]
          exact fun hhead => hne _ hhead rfl
        rw [List.nil_append, List.nil_append, h, h, if_neg hdict, if_neg hdict']
    | cons c body => rw [h, h, List.cons_append, List.cons_append, List.head?_cons, List.head?_cons]
  | alone token h => rw [h, h]
  | number hb h =>
    rw [h] at hmore ⊢
    exact Scan.number_replace hb hmore hother
  | keyword h =>
    rw [h] at hmore ⊢
    exact Scan.keyword_replace hmore hother

/-- **A token that has ended is not changed by a blank after the bytes**, whatever
follows the blank. -/
theorem scan_append {stop : UInt8} (hstop : Byte.isBlank stop = true) {b : UInt8}
    {rest : List UInt8} (hended : (scan b rest).found ≠ .error .ended) (more : List UInt8) :
    scan b (rest ++ stop :: more) = scan b rest := by
  have hsplit := List.take_append_drop (scan b rest).more rest
  have hended' : (scan b (rest.take (scan b rest).more
      ++ rest.drop (scan b rest).more)).found ≠ .error .ended := by rwa [hsplit]
  have hmore : (scan b (rest.take (scan b rest).more ++ rest.drop (scan b rest).more)).more
      = (rest.take (scan b rest).more).length := by
    rw [hsplit, List.length_take_of_le (scan_more_le b rest)]
  -- the blank comes after the token, or after the bytes that follow it
  have hsame := scan_replace hended' hmore (.of_blank hstop _ more)
  rwa [← List.append_assoc, hsplit] at hsame

end Token

end PageText
