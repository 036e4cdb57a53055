/-
PageText/Proofs/Keywords.lean

Keywords and the kinds that they act as.  A keyword is a run of bytes, and its event
carries it as text, with U+FFFD in place of what is no UTF-8; so different keywords may
have the same text.  Those that spell a kind do not.  A character below U+0080 is read of
one byte, which is its number (`Utf8.head_cases`): several bytes stand for a greater
number, whichever of the bytes that their lead allows they are, and U+FFFD is a greater
one, too.  So a text of such characters is read of its own bytes and of no others,

    decode bytes = text  ↔  bytes = encode text        (`Utf8.decode_eq_iff`),

and every spelling is such a text.

Main result: `Kind.ofName?_keyword`.
-/
import PageText.Proofs.Extents
import PageText.Proofs.OperandShapes

namespace PageText

namespace Utf8

/-! ### Several bytes -/

/-- The lead promises more bytes, and whatever they are, the number that they make up
with it is at least 0x80 and that of a character. -/
def Lead.isLong (lead : Lead) : Bool :=
  match lead.ranges with
  | [] => false
  | range :: more =>
    let least := (lead.bits * 64 + range.low.toNat % 64) * 64 ^ more.length
    let bound := (lead.bits * 64 + range.high.toNat % 64 + 1) * 64 ^ more.length
    0x80 ≤ range.low.toNat && range.high.toNat ≤ 0xBF && 0x80 ≤ least
      && (bound ≤ 0xD800 || 0xE000 ≤ least && bound ≤ 0x110000)

/-- A byte is a character, or the lead of several bytes, or no lead at all. -/
theorem lead?_cases (b : UInt8) : b.toNat < 0x80 ∧ lead? b = some ⟨b.toNat, []⟩
    ∨ (lead? b).all Lead.isLong = true := by
  refine Byte.of_forall_lt b b.toNat_lt ?_
  decide +kernel

/-- Each byte that fits adds six bits, the lowest ones last. -/
theorem takeTail_cases (ranges : List ByteRange) : ∀ (n : Nat) (rest : List UInt8),
    (takeTail n ranges rest).1 = replacement
      ∨ ∃ m, (takeTail n ranges rest).1 = Char.ofNat m
        ∧ n * 64 ^ ranges.length ≤ m ∧ m < (n + 1) * 64 ^ ranges.length := by
  induction ranges with
  | nil =>
    intro n rest
    exact .inr ⟨n, rfl, by simp, by simp⟩
  | cons range ranges ih =>
    rintro n (- | ⟨b, rest⟩)
    · exact .inl rfl
    rw [takeTail]
    split
    · have hsix : b.toNat % 64 < 64 := Nat.mod_lt _ (by decide)
      refine (ih (n * 64 + b.toNat % 64) rest).imp id ?_
      rintro ⟨m, hm, hleast, hbound⟩
      refine ⟨m, hm, ?_, ?_⟩
      · calc n * 64 ^ (ranges.length + 1)
          _ = n * 64 * 64 ^ ranges.length := by rw [Nat.pow_succ', ← Nat.mul_assoc]
          _ ≤ (n * 64 + b.toNat % 64) * 64 ^ ranges.length :=
            Nat.mul_le_mul_right _ (Nat.le_add_right _ _)
          _ ≤ m := hleast
      · calc m
          _ < (n * 64 + b.toNat % 64 + 1) * 64 ^ ranges.length := hbound
          _ ≤ (n + 1) * 64 * 64 ^ ranges.length := Nat.mul_le_mul_right _ (by omega)
          _ = (n + 1) * 64 ^ (ranges.length + 1) := by rw [Nat.pow_succ', ← Nat.mul_assoc]
    · exact .inl rfl

theorem le_toNat_replacement : 0x80 ≤ replacement.toNat := by decide

/-- What a lead of several bytes comes to is no character of one byte. -/
theorem le_toNat_takeTail {lead : Lead} (h : lead.isLong = true) (rest : List UInt8) :
    0x80 ≤ (takeTail lead.bits lead.ranges rest).1.toNat := by
  obtain ⟨bits, - | ⟨range, more⟩⟩ := lead
  · cases h
  simp only [Lead.isLong, Bool.and_eq_true, Bool.or_eq_true, decide_eq_true_eq] at h
  obtain ⟨⟨⟨hlow, hhigh⟩, hleast⟩, hvalid⟩ := h
  rcases rest with - | ⟨b, rest⟩
  · exact le_toNat_replacement
  rw [takeTail]
  split
  · next hmem =>
    simp only [ByteRange.mem, UInt8.le_iff_toNat_le, Bool.and_eq_true, decide_eq_true_eq] at hmem
    -- between the ends of its range, the byte's six bits are between theirs
    have hfrom : range.low.toNat % 64 ≤ b.toNat % 64 := by omega
    have hto : b.toNat % 64 ≤ range.high.toNat % 64 := by omega
    rcases takeTail_cases more (bits * 64 + b.toNat % 64) rest with hbad | ⟨m, hm, hge, hlt⟩
    · rw [hbad]
      exact le_toNat_replacement
    · have hge' := Nat.le_trans
        (Nat.mul_le_mul_right (64 ^ more.length) (Nat.add_le_add_left hfrom (bits * 64))) hge
      have hlt' := Nat.lt_of_lt_of_le hlt (Nat.mul_le_mul_right (64 ^ more.length)
        (Nat.add_le_add_right (Nat.add_le_add_left hto (bits * 64)) 1))
      have hchar : m.isValidChar := by
        rcases hvalid with hbound | ⟨habove, hbound⟩
        · exact .inl (Nat.lt_of_lt_of_le hlt' hbound)
        · exact .inr ⟨Nat.lt_of_lt_of_le (by decide) (Nat.le_trans habove hge'),
            Nat.lt_of_lt_of_le hlt' hbound⟩
      rw [hm, Char.toNat_ofNat, if_pos hchar]
      exact Nat.le_trans hleast hge'
  · exact le_toNat_replacement

/-! ### Characters of one byte -/

/-- **A character below U+0080 is read of the byte that is its number**, and of nothing
else. -/
theorem head_cases (b : UInt8) (rest : List UInt8) :
    b.toNat < 0x80 ∧ head b rest = (Char.ofNat b.toNat, 0) ∨ 0x80 ≤ (head b rest).1.toNat := by
  rcases lead?_cases b with ⟨hb, hlead⟩ | hlong
  · refine .inl ⟨hb, ?_⟩
    rw [head, hlead]
    rfl
  · right
    rw [head]
    cases hlead : lead? b with
    | none => exact le_toNat_replacement
    | some lead =>
      rw [hlead] at hlong
      exact le_toNat_takeTail hlong rest

theorem utf8EncodeChar_ofNat {b : UInt8} (hb : b.toNat < 0x80) :
    String.utf8EncodeChar (Char.ofNat b.toNat) = [b] := by
  revert hb
  refine Byte.of_forall_lt b b.toNat_lt ?_
  decide +kernel

/-- Bytes that are read as characters below U+0080 are the bytes of these. -/
theorem bytes_of_ascii (bytes : List UInt8) (h : ∀ c ∈ decodeFrom 0 bytes, c.toNat < 0x80) :
    (∀ b ∈ bytes, b.toNat < 0x80)
      ∧ (decodeFrom 0 bytes).flatMap String.utf8EncodeChar = bytes := by
  induction bytes with
  | nil => exact ⟨fun b hb => absurd hb List.not_mem_nil, rfl⟩
  | cons b rest ih =>
    rw [decodeFrom] at h ⊢
    rcases head_cases b rest with ⟨hb, hhead⟩ | hlarge
    · rw [hhead] at h ⊢
      obtain ⟨hrest, hbytes⟩ := ih fun c hc => h c (List.mem_cons_of_mem _ hc)
      refine ⟨List.forall_mem_cons.mpr ⟨hb, hrest⟩, ?_⟩
      rw [List.flatMap_cons, utf8EncodeChar_ofNat hb, hbytes]
      rfl
    · exact absurd (h _ List.mem_cons_self) (Nat.not_lt.mpr hlarge)

/-- **A text of characters below U+0080** is read of its own bytes alone. -/
theorem decode_eq_iff {bytes : List UInt8} {text : String}
    (htext : ∀ c ∈ text.toList, c.toNat < 0x80) : decode bytes = text ↔ bytes = encode text := by
  constructor
  · rintro rfl
    rw [decode, String.toList_ofList] at htext
    rw [encode_eq_flatMap, decode, String.toList_ofList, (bytes_of_ascii bytes htext).2]
  · rintro rfl
    exact decode_encode text

theorem lt_of_mem_encode {text : String} (htext : ∀ c ∈ text.toList, c.toNat < 0x80) :
    ∀ b ∈ encode text, b.toNat < 0x80 := by
  have hchars : ∀ c ∈ decodeFrom 0 (encode text), c.toNat < 0x80 := by
    have hread := congrArg String.toList (decode_encode text)
    rw [decode, String.toList_ofList] at hread
    rwa [hread]
  exact (bytes_of_ascii _ hchars).1

end Utf8

/-! ### Spellings -/

namespace Kind

/-- The bytes are those of one of the two spellings of the kind. -/
inductive SpelledBy (kind : Kind) : List UInt8 → Prop where
  | description : SpelledBy kind (Utf8.encode kind.description)
  | mnemonic {name : String} : kind.mnemonic? = some name → SpelledBy kind (Utf8.encode name)

variable {kind : Kind} {name : String} {word : List UInt8}

theorem spelledBy_iff :
    kind.SpelledBy word ↔ ∃ name, kind.isSpelled name = true ∧ word = Utf8.encode name := by
  simp only [isSpelled, Bool.or_eq_true, beq_iff_eq]
  constructor
  · intro h
    cases h with
    | description => exact ⟨_, .inl rfl, rfl⟩
    | mnemonic hname => exact ⟨_, .inr hname, rfl⟩
  · rintro ⟨name, rfl | hname, rfl⟩
    · exact .description
    · exact .mnemonic hname

theorem lt_of_mem_spellings (kind : Kind) :
    ∀ c ∈ kind.description.toList ++ kind.mnemonic?.elim [] String.toList, c.toNat < 0x80 := by
  have hall : (kind.description.toList ++ kind.mnemonic?.elim [] String.toList).all
      (·.toNat < 0x80) = true := by
    cases kind <;> decide +kernel
  simpa only [List.all_eq_true, decide_eq_true_eq] using hall

theorem lt_of_isSpelled (h : kind.isSpelled name = true) : ∀ c ∈ name.toList, c.toNat < 0x80 := by
  rw [isSpelled, Bool.or_eq_true, beq_iff_eq, beq_iff_eq] at h
  intro c hc
  refine lt_of_mem_spellings kind c (List.mem_append.mpr ?_)
  rcases h with rfl | h
  · exact .inl hc
  · rw [h]
    exact .inr hc

/-- The text of a keyword spells a kind if the keyword does. -/
theorem isSpelled_decode_iff :
    kind.isSpelled (Utf8.decode word) = true ↔ kind.SpelledBy word := by
  rw [spelledBy_iff]
  constructor
  · intro h
    exact ⟨_, h, (Utf8.decode_eq_iff (lt_of_isSpelled h)).mp rfl⟩
  · rintro ⟨name, hname, rfl⟩
    rwa [Utf8.decode_encode]

theorem SpelledBy.lt (h : kind.SpelledBy word) : ∀ b ∈ word, b.toNat < 0x80 := by
  obtain ⟨name, hname, rfl⟩ := spelledBy_iff.mp h
  exact Utf8.lt_of_mem_encode (lt_of_isSpelled hname)

/-- No other keyword has the text of one that spells a kind. -/
theorem SpelledBy.eq_of_decode_eq (h : kind.SpelledBy word) {other : List UInt8}
    (hother : Utf8.decode other = Utf8.decode word) : other = word := by
  obtain ⟨name, hname, rfl⟩ := spelledBy_iff.mp h
  rw [Utf8.decode_encode] at hother
  exact (Utf8.decode_eq_iff (lt_of_isSpelled hname)).mp hother

end Kind

/-! ### Events -/

namespace Reader

/-- An event is delivered for a keyword, and its kind is the text of that. -/
theorem exists_keyword_of_take {r : Reader} {offset : Nat} {found : Except Token.Failure Token}
    {event : Event} (h : (r.take offset found).2 = .event event) :
    ∃ word, found = .ok (.keyword word) ∧ event.kind = Utf8.decode word := by
  rcases found with failure | token
  · cases h
  rw [take] at h
  split at h
  · cases token <;> cases h
  · cases token with
    | keyword word =>
      refine ⟨word, rfl, ?_⟩
      rw [takeOutside, takeKeyword] at h
      split_ifs at h
      cases h
      rfl
    | closeArray =>
      rw [takeOutside] at h
      split at h <;> cases h
    | _ => cases h

theorem exists_keyword_of_event {bytes : List UInt8} {turn : Turn} (hturn : turn ∈ turns {} bytes)
    {event : Event} (hevent : turn.event? = some event) :
    ∃ word, turn.scan.found = .ok (.keyword word) ∧ event.kind = Utf8.decode word := by
  obtain ⟨r, place, -, hmade⟩ := exists_of_mem_rounds (P := fun _ => True)
    (fun _ _ _ _ _ => trivial) {} ⟨0, bytes⟩ trivial turn hturn
  obtain ⟨gap, first, rest, -, -, -, -, -, -, htaken, -⟩ := exists_scan hmade
  have houtcome : turn.outcome = .event event := by
    rw [Turn.event?_eq] at hevent
    cases houtcome : turn.outcome with
    | event e =>
      rw [houtcome] at hevent
      exact congrArg Outcome.event (Option.some.inj hevent)
    | _ =>
      rw [houtcome] at hevent
      cases hevent
  exact exists_keyword_of_take ((congrArg Prod.snd htaken).symm.trans houtcome)

end Reader

/-- **A keyword acts as a kind only if it is one of its spellings**, byte for byte.  With
a byte of 0x80 or more, whether it is UTF-8 or not, it is passed over as unknown, and no
two keywords act as one spelling.  Where a keyword brings an event, this is the event's
kind, and nothing else brings one. -/
theorem Kind.ofName?_keyword (word : List UInt8) :
    (∀ kind, Kind.ofName? (Utf8.decode word) = some kind ↔ kind.SpelledBy word)
      ∧ ((∃ b ∈ word, 0x80 ≤ b) →
        ∀ operands, Operator.ofEvent? ⟨Utf8.decode word, operands⟩ = .ok none)
      ∧ (∀ kind other, Kind.ofName? (Utf8.decode word) = some kind →
        Utf8.decode other = Utf8.decode word → other = word)
      ∧ ∀ bytes, ∀ turn ∈ Reader.turns {} bytes, ∀ event, turn.event? = some event →
        (turn.scan.found = .ok (.keyword word) → event.kind = Utf8.decode word)
          ∧ ∃ other, turn.scan.found = .ok (.keyword other) := by
  have hkinds : ∀ kind, Kind.ofName? (Utf8.decode word) = some kind ↔ kind.SpelledBy word :=
    fun kind => Kind.ofName?_eq_some_iff.trans isSpelled_decode_iff
  refine ⟨hkinds, ?_, ?_, ?_⟩
  · rintro ⟨b, hb, hlarge⟩ operands
    rw [ofEvent?_eq_none_iff]
    intro kind
    rw [← Bool.not_eq_true, isSpelled_decode_iff]
    intro hspelled
    exact Nat.not_lt.mpr (UInt8.le_iff_toNat_le.mp hlarge) (hspelled.lt b hb)
  · intro kind other hkind hother
    exact ((hkinds kind).mp hkind).eq_of_decode_eq hother
  · intro bytes turn hturn event hevent
    obtain ⟨other, hfound, hkind⟩ := Reader.exists_keyword_of_event hturn hevent
    refine ⟨fun hword => ?_, other, hfound⟩
    rw [hfound] at hword
    cases hword
    exact hkind

end PageText
