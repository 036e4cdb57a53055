/-
PageText/Proofs/ReadingBounds.lean

The counts of a reading stay in range.  A reader and its place (`Parser`) go on round by
round (`Parser.round?`), and in every round that they come to, of whatever bytes and with
whatever errors in them,

* the digits collected after a point are below the power of ten that goes with them, at
  most `10 ^ 18`, so there is room for one more as long as one is collected;
* a literal string has at least one open parenthesis until it ends, and no more than there
  are bytes; what its octal digits denote is below `8 ^ 3`;
* no dictionary is closed that is not open, the place of a bad digit is the one before the
  next place, and image data has a byte before each of its places;
* the places follow one another within the bytes.

Main result: `Content.reading_bounded`.
-/
import PageText.Proofs.Cursors
import PageText.Proofs.Delivery
import PageText.Proofs.InlineImages
import PageText.Proofs.NumeralValues

namespace PageText

open Binary64 (toRat)

/-! ### Digits after the point -/

namespace Numeral

/-- What is collected is below its power of ten, and while digits are collected there is
room for one more in the word. -/
structure Fraction.Fits (f : Fraction) : Prop where
  below : ∃ k ≤ 18, f.scale.isFinite = true ∧ toRat f.scale = (10 ^ k : ℕ)
    ∧ f.collected.toNat < 10 ^ k
  room : ∀ d, Byte.isDigit d = true → f.scale < 1e18 →
    f.collected.toNat * 10 + (Byte.digitValue d).toNat < 2 ^ 64
      ∧ (f.push d).collected.toNat = f.collected.toNat * 10 + (Byte.digitValue d).toNat

/-- Digits are collected in range, however many there are. -/
theorem Collects.fits {digits : List UInt8} {f : Fraction} (h : Collects digits f)
    (hdigits : ∀ d ∈ digits, Byte.isDigit d = true) : f.Fits := by
  have hlength : (digits.take 18).length ≤ 18 := List.length_take_le 18 digits
  have hbelow : f.collected.toNat < 10 ^ (digits.take 18).length := by
    rw [h.collected]
    exact Byte.natOfDigits_lt fun d hd => hdigits d (List.mem_of_mem_take hd)
  constructor
  · refine ⟨_, hlength, ?_⟩
    rw [h.scale]
    obtain ⟨hfinite, hvalue⟩ := toRat_scale _ hlength
    exact ⟨hfinite, hvalue, hbelow⟩
  · intro d hd hless
    have hcount : (digits.take 18).length < 18 := by
      rw [h.scale] at hless
      exact (scale_lt_iff _ hlength).mp hless
    have hpow : 10 ^ (digits.take 18).length ≤ 10 ^ 17 :=
      Nat.pow_le_pow_right (by decide) (Nat.le_of_lt_succ hcount)
    have hdigit := Byte.digitValue_lt hd
    have hten : (10 : UInt64).toNat = 10 := rfl
    rw [Fraction.push, if_pos hless, UInt64.toNat_add, UInt64.toNat_mul, UInt8.toNat_toUInt64, hten]
    omega

end Numeral

/-! ### Octal digits -/

namespace Quotation

theorem octalValue_concat (digits : List UInt8) (d : UInt8) :
    octalValue (digits ++ [d]) = 8 * octalValue digits + (Byte.digitValue d).toNat := by
  rw [octalValue, List.foldl_append]
  rfl

theorem octalValue_lt {digits : List UInt8} (h : ∀ d ∈ digits, Byte.isOctal d = true) :
    octalValue digits < 8 ^ digits.length := by
  induction digits using List.reverseRecOn with
  | nil => exact Nat.one_pos
  | append_singleton digits d ih =>
    obtain ⟨hdigits, hd⟩ := List.forall_mem_append.mp h
    have hvalue : (Byte.digitValue d).toNat < 8 := by
      have hoctal := hd d List.mem_cons_self
      revert hoctal
      refine Byte.of_forall_lt d d.toNat_lt ?_
      decide +kernel
    have hlt := ih hdigits
    rw [octalValue_concat, List.length_append, List.length_singleton, Nat.pow_succ]
    omega

/-- Three octal digits at most are taken after a backslash, and what they denote, and their
first ones, is no more than 511. -/
theorem exists_octal_escape (rest : List UInt8) :
    ∃ digits next, rest = digits ++ next ∧ digits.length ≤ 3
      ∧ (∀ d ∈ digits, Byte.isOctal d = true)
      ∧ (digits.length = 3 ∨ ∀ b ∈ next.head?, Byte.isOctal b = false)
      ∧ (digits ≠ [] → unescape (Byte.backslash :: rest) = octalByte digits :: unescape next)
      ∧ ∀ front, front <+: digits → octalValue front ≤ 511 := by
  obtain ⟨digits, next, rfl, hlength, hdigits, hend⟩ := exists_octal_run 3 rest
  refine ⟨digits, next, rfl, hlength, hdigits, hend, ?_, ?_⟩
  · exact fun hne => unescape_octal hne hdigits hlength hend
  · intro front hfront
    have hlt := octalValue_lt fun d hd => hdigits d (hfront.subset hd)
    have hpow : 8 ^ front.length ≤ 8 ^ 3 :=
      Nat.pow_le_pow_right (by decide) (hfront.length_le.trans hlength)
    omega

end Quotation

/-! ### Rounds -/

/-- Where a digit is bad, it is the last byte that is read. -/
theorem Token.more_of_badHexDigit {first bad : UInt8} {rest : List UInt8} {offset : Nat}
    (h : (scan first rest).found = .error (.fault offset (.badHexDigit bad))) :
    (scan first rest).more = offset := by
  cases reads first with
  | name hscan =>
    rw [hscan] at h
    cases h
  | literal _ hscan =>
    rw [hscan, Scan.literal] at h
    split at h <;> cases h
  | less _ hscan =>
    rw [hscan] at h ⊢
    split at h
    · cases h
    · next hless =>
      rw [if_neg hless]
      rcases exists_run Quotation.isHexBody rest with hall | ⟨body, b, after, rfl, hbody, hb⟩
      · rw [Scan.hex_open hall] at h
        cases h
      · by_cases hgreater : b = Byte.greater
        · rw [hgreater, Scan.hex_closed hbody] at h
          cases h
        · rw [Scan.hex_bad hbody hb hgreater] at h ⊢
          cases h
          rfl
  | greater _ hscan =>
    rw [hscan] at h
    split at h <;> cases h
  | alone token hscan =>
    rw [hscan] at h
    cases h
  | number _ hscan =>
    rw [hscan, Scan.number] at h
    split at h <;> cases h
  | keyword hscan =>
    rw [hscan, Scan.keyword] at h
    split at h <;> cases h

/-- Only its keyword announces the data of an image. -/
theorem Reader.found_of_imageData {r : Reader} {offset : Nat}
    {found : Except Token.Failure Token} (h : (r.take offset found).2 = .imageData) :
    found = .ok (.keyword beginImageData) := by
  by_cases hkeyword : ∃ bytes, found = .ok (.keyword bytes)
  · obtain ⟨bytes, rfl⟩ := hkeyword
    rcases Nat.eq_zero_or_pos r.dictDepth with hdict | hdict
    · rw [take_outside hdict, takeOutside, takeKeyword] at h
      split at h
      · cases h
      · split at h
        · next hdata => rw [hdata.1]
        · split_ifs at h
    · rw [take, if_pos hdict] at h
      cases h
  · exact absurd h (r.take_ne_imageData offset fun bytes heq => hkeyword ⟨bytes, heq⟩)

namespace Turn

/-- The offset after the token. -/
def stop (turn : Turn) : Nat := turn.start.offset + (turn.scan.more + 1)

/-- The counts of a round of the reader `r` are in range. -/
structure Bounded (bytes : List UInt8) (r : Reader) (turn : Turn) : Prop where
  /-- The token and the bytes read over after it are within the bytes. -/
  places : turn.start.offset < turn.stop ∧ turn.stop ≤ turn.next.offset
    ∧ turn.next.offset ≤ bytes.length
  /-- What is left at the start and at the end is a piece of the bytes, too. -/
  start : turn.start.Within bytes
  next : turn.next.Within bytes
  /-- A keyword is a piece of the bytes. -/
  keyword : ∀ word, turn.scan.found = .ok (.keyword word) →
    word = (bytes.drop turn.start.offset).take (turn.stop - turn.start.offset)
  /-- Whatever digits of a number have been read, those collected are in range. -/
  number : ∀ first rest, turn.start.rest = first :: rest → Token.startsNumber first = true →
    turn.scan = .number first rest
      ∧ ∀ digits ∈ (Numeral.ofBytes (first :: rest)).fraction, ∀ front, front <+: digits →
        (front.foldl Numeral.Fraction.push .empty).Fits
  /-- Wherever the scan of a string stands, the depth is in range; and it goes on until the
  last parenthesis closes or the bytes end. -/
  literal : ∀ rest, turn.start.rest = Byte.openParen :: rest →
    turn.scan = .literal rest
      ∧ ∀ c, Leads Quotation.Cursor.next? (.ofBytes rest) c →
        1 ≤ c.depth ∧ c.depth ≤ 2 ^ 31 - 1
          ∧ turn.start.offset + 1 + c.taken + c.rest.length = bytes.length
          ∧ Quotation.literalEnd? 1 0 rest = c.end?
          ∧ (c.next? = none → c.end?
            = if c.rest.head? = some Byte.closeParen then some (c.taken + 1) else none)
  /-- After any backslash, the octal digits that are taken denote a number in range. -/
  octal : ∀ before rest, turn.start.rest = before ++ Byte.backslash :: rest →
    ∃ digits next, rest = digits ++ next ∧ digits.length ≤ 3
      ∧ (∀ d ∈ digits, Byte.isOctal d = true)
      ∧ (digits.length = 3 ∨ ∀ b ∈ next.head?, Byte.isOctal b = false)
      ∧ (digits ≠ [] → Quotation.unescape (Byte.backslash :: rest)
        = Quotation.octalByte digits :: Quotation.unescape next)
      ∧ ∀ front, front <+: digits → Quotation.octalValue front ≤ 511
  /-- The depth of dictionaries goes down only if it is not zero. -/
  dicts : turn.scan.found = .ok .closeDict →
    (0 < r.dictDepth → turn.reader.dictDepth + 1 = r.dictDepth)
      ∧ (r.dictDepth = 0 → turn.reader = r)
  /-- The place of a bad digit is the one before the next place, which is not zero. -/
  badHexDigit : ∀ offset bad, turn.scan.found = .error (.fault offset (.badHexDigit bad)) →
    turn.start.offset + offset + 1 = turn.next.offset
  /-- Wherever the scan over image data stands, there is a byte before. -/
  imageData : turn.outcome = .imageData →
    ∀ c, Leads ImageData.Cursor.next? (.ofBytes (bytes.drop turn.stop)) c →
      c.Stands bytes turn.stop ∧ ImageData.size? (bytes.drop turn.stop) = c.end?
        ∧ (c.next? = none → c.end? = if c.rest.isEmpty then none else some (c.taken + 2))

end Turn

namespace Turn.Reads

variable {bytes : List UInt8} {r : Reader} {place : Place} {turn : Turn} {gap : List UInt8}
  {first : UInt8} {body data : List UInt8} (h : turn.Reads r place gap first body data)
include h

theorem scan_eq {b : UInt8} {rest : List UInt8} (hstart : turn.start.rest = b :: rest) :
    turn.scan = Token.scan b rest := by
  have hrest := congrArg Place.rest h.start
  rw [hstart] at hrest
  obtain ⟨rfl, rfl⟩ := List.cons.inj hrest
  exact h.scan

theorem places (hplace : place.Within bytes) :
    turn.start.offset < turn.stop ∧ turn.stop ≤ turn.next.offset
      ∧ turn.next.offset ≤ bytes.length := by
  have hnext := (h.next_within hplace).length
  have hoffset := h.offset
  rw [stop, h.more]
  omega

theorem keyword (hplace : place.Within bytes) {word : List UInt8}
    (hword : turn.scan.found = .ok (.keyword word)) :
    word = (bytes.drop turn.start.offset).take (turn.stop - turn.start.offset) := by
  have hrest := congrArg Place.rest h.start
  rw [h.scan] at hword
  rw [Token.keyword_eq_of_scan hword, (h.start_within hplace).drop, hrest, stop,
    Nat.add_sub_cancel_left, List.take_succ_cons, h.scan]

/-- The digits after the point of a number are collected in range. -/
theorem number {b : UInt8} {rest : List UInt8} (hstart : turn.start.rest = b :: rest)
    (hb : Token.startsNumber b = true) :
    turn.scan = .number b rest
      ∧ ∀ digits ∈ (Numeral.ofBytes (b :: rest)).fraction, ∀ front, front <+: digits →
        (front.foldl Numeral.Fraction.push .empty).Fits := by
  constructor
  · rw [h.scan_eq hstart, Token.scan_of_isRegular (Byte.isRegular_of_startsNumber hb), if_pos hb]
  · intro digits hdigits front hfront
    have hall : ∀ d ∈ front, Byte.isDigit d = true := fun d hd =>
      Numeral.isDigit_of_mem_fractionOf? hdigits d (hfront.subset hd)
    exact (Numeral.collects hall).fits hall

/-- The depth of a literal string is no more than the bytes. -/
theorem literal (hplace : place.Within bytes) (hlength : bytes.length < 2 ^ 31)
    {rest : List UInt8} (hstart : turn.start.rest = Byte.openParen :: rest) :
    turn.scan = .literal rest
      ∧ ∀ c, Leads Quotation.Cursor.next? (.ofBytes rest) c →
        1 ≤ c.depth ∧ c.depth ≤ 2 ^ 31 - 1
          ∧ turn.start.offset + 1 + c.taken + c.rest.length = bytes.length
          ∧ Quotation.literalEnd? 1 0 rest = c.end?
          ∧ (c.next? = none → c.end?
            = if c.rest.head? = some Byte.closeParen then some (c.taken + 1) else none) := by
  refine ⟨h.scan_eq hstart, ?_⟩
  intro c hc
  obtain ⟨hone, hdepth, hrest, hend⟩ := Quotation.Cursor.depth_bounds hc
  have hstop := (h.start_within hplace).length
  rw [hstart, List.length_cons] at hstop
  exact ⟨hone, by omega, by omega, hend, Quotation.Cursor.end?_of_last⟩

/-- A dictionary that is closed is open. -/
theorem dicts (hfound : turn.scan.found = .ok .closeDict) :
    (0 < r.dictDepth → turn.reader.dictDepth + 1 = r.dictDepth)
      ∧ (r.dictDepth = 0 → turn.reader = r) := by
  have htaken := congrArg Prod.fst h.taken
  rw [hfound] at htaken
  constructor
  · intro hdict
    rw [Reader.take_closeDict hdict] at htaken
    have hdepth : turn.reader.dictDepth = r.dictDepth - 1 := congrArg Reader.dictDepth htaken
    omega
  · intro hdict
    rw [Reader.take_outside hdict] at htaken
    exact htaken

theorem badHexDigit {offset : Nat} {bad : UInt8}
    (hfound : turn.scan.found = .error (.fault offset (.badHexDigit bad))) :
    turn.start.offset + offset + 1 = turn.next.offset := by
  have houtcome : turn.outcome ≠ .imageData := by
    have htaken := congrArg Prod.snd h.taken
    rw [hfound] at htaken
    intro himage
    rw [himage] at htaken
    cases htaken
  have hmore := h.more
  rw [h.scan] at hfound hmore
  rw [Token.more_of_badHexDigit hfound] at hmore
  rw [h.offset, h.quiet houtcome, hmore, List.length_nil]
  omega

/-- Image data comes after its keyword, which does not end in a blank. -/
theorem imageData (hplace : place.Within bytes) (houtcome : turn.outcome = .imageData)
    {c : ImageData.Cursor} (hc : Leads ImageData.Cursor.next? (.ofBytes (bytes.drop turn.stop)) c) :
    c.Stands bytes turn.stop ∧ ImageData.size? (bytes.drop turn.stop) = c.end?
      ∧ (c.next? = none → c.end? = if c.rest.isEmpty then none else some (c.taken + 2)) := by
  have htaken := congrArg Prod.snd h.taken
  have hmore := h.more
  rw [houtcome] at htaken
  have hfound := Reader.found_of_imageData htaken.symm
  rw [h.scan] at hfound hmore
  obtain ⟨rfl, hword⟩ := List.cons.inj (Token.keyword_eq_of_scan hfound)
  rw [hmore, List.take_left] at hword
  subst hword
  -- the second byte of the keyword is the one before the data
  obtain ⟨before, hbytes, hoffset⟩ := h.start_within hplace
  rw [congrArg Place.rest h.start, List.append_cons, List.singleton_append] at hbytes
  have hstop : turn.stop = (before ++ [0x49]).length + 1 := by
    rw [stop, h.more, hoffset, List.length_append]
    rfl
  have hdrop : bytes.drop turn.stop = data ++ turn.next.rest := by
    rw [hbytes, hstop, List.drop_length_add_append]
    rfl
  rw [hdrop] at hc ⊢
  rw [hbytes, hstop]
  have hlast : Byte.isBlank 0x44 = false := by decide
  obtain ⟨hstands, hend⟩ := ImageData.Cursor.lookbehind (before ++ [0x49]) hlast hc
  exact ⟨hstands, hend, ImageData.Cursor.end?_of_last⟩

/-- **The counts of a round are in range**, whatever the bytes are. -/
theorem bounded (hplace : place.Within bytes) (hlength : bytes.length < 2 ^ 31) :
    turn.Bounded bytes r where
  places := h.places hplace
  start := h.start_within hplace
  next := h.next_within hplace
  keyword _ hword := h.keyword hplace hword
  number _ _ hstart hb := h.number hstart hb
  literal _ hstart := h.literal hplace hlength hstart
  octal _ rest _ := Quotation.exists_octal_escape rest
  dicts hfound := h.dicts hfound
  badHexDigit _ _ hfound := h.badHexDigit hfound
  imageData houtcome _ hc := h.imageData hplace houtcome hc

end Turn.Reads

/-! ### Readings -/

namespace Parser

/-- The parser after a round, if there is one. -/
def round? (parser : Parser) : Option Parser :=
  (parser.reader.turn? parser.place).map fun turn => ⟨turn.reader, turn.next⟩

theorem round?_of_turn {r : Reader} {place : Place} {turn : Turn}
    (h : r.turn? place = some turn) :
    round? ⟨r, place⟩ = some ⟨turn.reader, turn.next⟩ := by
  rw [round?, h]
  rfl

/-- The rounds of a reading are those that a parser comes to. -/
theorem mem_rounds_iff (r : Reader) (place : Place) (turn : Turn) :
    turn ∈ r.rounds place ↔ ∃ parser, Leads round? ⟨r, place⟩ parser
      ∧ parser.reader.turn? parser.place = some turn := by
  induction r, place using Reader.rounds_induction with
  | done r place h =>
    rw [Reader.rounds_of_none h]
    refine iff_of_false List.not_mem_nil ?_
    rintro ⟨parser, hleads, hturn⟩
    rcases hleads.cases_head with rfl | ⟨next, hnext, -⟩
    · cases h.symm.trans hturn
    · rw [round?, h] at hnext
      cases hnext
  | step r place first h ih =>
    rw [Reader.rounds_of_turn h, List.mem_cons, ih]
    constructor
    · rintro (rfl | ⟨parser, hleads, hturn⟩)
      · exact ⟨_, .refl, h⟩
      · exact ⟨parser, .head (round?_of_turn h) hleads, hturn⟩
    · rintro ⟨parser, hleads, hturn⟩
      rcases hleads.cases_head with rfl | ⟨next, hnext, hleads⟩
      · exact .inl (Option.some.inj (hturn.symm.trans h))
      · obtain rfl := Option.some.inj ((round?_of_turn h).symm.trans hnext)
        exact .inr ⟨parser, hleads, hturn⟩

/-- A parser stands at a place of the bytes. -/
theorem within_of_leads {bytes : List UInt8} {parser : Parser}
    (h : Leads round? (.ofBytes bytes) parser) : parser.place.Within bytes := by
  refine h.preserves (P := fun parser => parser.place.Within bytes) ?_ (Place.within_head bytes)
  rintro ⟨r, place⟩ next hplace hnext
  rcases hturn : r.turn? place with - | turn
  · rw [round?, hturn] at hnext
    cases hnext
  · obtain rfl := Option.some.inj ((round?_of_turn hturn).symm.trans hnext)
    exact r.within_next place turn hplace hturn

end Parser

/-- **The counts of a reading are in range** in every round that it comes to, for all bytes
that a number of 31 bits can count. -/
theorem Content.reading_bounded {bytes : List UInt8} (hlength : bytes.length < 2 ^ 31) :
    (∀ turn, turn ∈ Reader.turns {} bytes ↔
        ∃ parser, Leads Parser.round? (.ofBytes bytes) parser
          ∧ parser.reader.turn? parser.place = some turn)
      ∧ ∀ parser, Leads Parser.round? (.ofBytes bytes) parser →
        parser.place.Within bytes
          ∧ ∀ turn, parser.reader.turn? parser.place = some turn →
            turn.Bounded bytes parser.reader := by
  refine ⟨Parser.mem_rounds_iff {} ⟨0, bytes⟩, ?_⟩
  intro parser hparser
  have hplace := Parser.within_of_leads hparser
  refine ⟨hplace, ?_⟩
  intro turn hturn
  obtain ⟨gap, first, body, data, hreads⟩ := Reader.exists_reads hturn
  exact hreads.bounded hplace hlength

/-- The round of a string with parentheses within it. -/
theorem Content.reading_bounded_of_nested_string :
    ([0x28, 0x28, 0x29, 0x29] : List UInt8).length < 2 ^ 31
      ∧ ∃ turn, Reader.turn? {} ⟨0, [0x28, 0x28, 0x29, 0x29]⟩ = some turn
        ∧ turn.Bounded [0x28, 0x28, 0x29, 0x29] {} := by
  refine ⟨by decide, _, rfl, ?_⟩
  exact ((reading_bounded (by decide)).2 (.ofBytes [0x28, 0x28, 0x29, 0x29]) .refl).2 _ rfl

end PageText
