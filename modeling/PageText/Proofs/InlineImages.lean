/-
PageText/Proofs/InlineImages.lean

Inline images are read over.  Between the keywords of an image no other keyword counts,
so where its arrays and dictionaries are balanced the reader passes over what stands
there (`Reader.passes_imageDict`), and at the second keyword it has nothing but operands
gathered, which it clears.

The data of the image goes on to the first `EI` that stands after a blank and before a
boundary (`ImageData.EndsAt`), or to the end of the bytes; one blank after the keyword is
not part of it.  That is where reading goes on (`ImageData.resumes_size`), with a reader
that has nothing gathered:

    r.rounds ⟨offset, bytes⟩ = turns ++ Reader.rounds {} ⟨offset + resume, bytes.drop resume⟩

Main result: `Reader.rounds_of_image`.
-/
import PageText.Proofs.Dictionaries
import PageText.Proofs.HexStrings
import PageText.Proofs.LiteralStrings

namespace PageText

/-! ### End marks -/

namespace ImageData

/-- An end mark stands at the offset: `EI` after a blank, and before a blank, a delimiter
or the end of the bytes. -/
def EndsAt (bytes : List UInt8) (offset : Nat) : Prop :=
  ∃ before blank after, bytes = before ++ blank :: 0x45 :: 0x49 :: after
    ∧ offset = before.length + 1 ∧ Byte.isBlank blank = true ∧ Byte.Boundary after

/-- Where reading goes on after data that starts at `start`: after the first end mark from
there on, or at the end of the bytes. -/
inductive Resumes (bytes : List UInt8) (start : Nat) : (resume : Nat) → Prop where
  | mark {offset : Nat} : EndsAt bytes offset → start ≤ offset →
      (∀ other, EndsAt bytes other → start ≤ other → offset ≤ other) →
      Resumes bytes start (offset + 2)
  | ended : (∀ offset, EndsAt bytes offset → offset < start) → Resumes bytes start bytes.length

theorem EndsAt.add_two_le {bytes : List UInt8} {offset : Nat} (h : EndsAt bytes offset) :
    offset + 2 ≤ bytes.length := by
  obtain ⟨before, blank, after, rfl, rfl, -, -⟩ := h
  simp only [List.length_append, List.length_cons]
  omega

theorem startsWithEnd_iff {bytes : List UInt8} :
    startsWithEnd bytes = true
      ↔ ∃ after, bytes = 0x45 :: 0x49 :: after ∧ Byte.Boundary after := by
  constructor
  · intro h
    rcases bytes with - | ⟨b, - | ⟨c, after⟩⟩
    · cases h
    · rw [startsWithEnd_singleton] at h
      cases h
    · rw [startsWithEnd_cons_cons, Bool.and_eq_true, Bool.and_eq_true, beq_iff_eq, beq_iff_eq,
        Option.all_eq_true] at h
      obtain ⟨⟨rfl, rfl⟩, hafter⟩ := h
      refine ⟨after, rfl, fun b hb => ?_⟩
      have hnot := hafter b hb
      rwa [Bool.not_eq_true'] at hnot
  · rintro ⟨after, rfl, hafter⟩
    rw [startsWithEnd_cons_cons, Bool.and_eq_true, Option.all_eq_true]
    refine ⟨rfl, fun b hb => ?_⟩
    rw [Bool.not_eq_true']
    exact hafter b hb

/-- An end mark is told by the byte before it and the bytes from it on. -/
theorem endsAt_length_iff {before bytes : List UInt8} :
    EndsAt (before ++ bytes) before.length
      ↔ before.getLast?.any Byte.isBlank = true ∧ startsWithEnd bytes = true := by
  rw [startsWithEnd_iff]
  constructor
  · rintro ⟨front, blank, after, hbytes, hlength, hblank, hafter⟩
    rw [List.append_cons] at hbytes
    obtain ⟨rfl, rfl⟩ := List.append_inj hbytes (by rw [hlength, List.length_append]; rfl)
    rw [List.getLast?_concat]
    exact ⟨hblank, after, rfl, hafter⟩
  · rintro ⟨hlast, after, rfl, hafter⟩
    obtain ⟨blank, hblank, hisBlank⟩ := (Option.any_eq_true _ _).mp hlast
    obtain ⟨front, rfl⟩ := List.getLast?_eq_some_iff.mp hblank
    exact ⟨front, blank, after, (List.append_cons ..).symm, List.length_append, hisBlank, hafter⟩

namespace Resumes

variable {bytes : List UInt8} {start resume other : Nat}

/-- Reading goes on at one place only. -/
theorem unique (h : Resumes bytes start resume) (h' : Resumes bytes start other) :
    other = resume := by
  cases h with
  | mark hends hle hfirst =>
    cases h' with
    | mark hends' hle' hfirst' =>
      have hone := hfirst _ hends' hle'
      have htwo := hfirst' _ hends hle
      omega
    | ended hnone => exact absurd (hnone _ hends) (Nat.not_lt.mpr hle)
  | ended hnone =>
    cases h' with
    | mark hends' hle' _ => exact absurd (hnone _ hends') (Nat.not_lt.mpr hle')
    | ended _ => rfl

/-- Data may start one byte earlier if no end mark stands there. -/
theorem of_succ (h : Resumes bytes (start + 1) resume) (hstart : ¬EndsAt bytes start) :
    Resumes bytes start resume := by
  have hne : ∀ offset, EndsAt bytes offset → offset ≠ start := by
    rintro offset hends rfl
    exact hstart hends
  cases h with
  | mark hends hle hfirst =>
    refine .mark hends (Nat.le_of_succ_le hle) ?_
    intro offset hoffset hfrom
    exact hfirst offset hoffset (Nat.lt_of_le_of_ne hfrom (hne offset hoffset).symm)
  | ended hnone =>
    refine .ended ?_
    intro offset hoffset
    exact Nat.lt_of_le_of_ne (Nat.le_of_lt_succ (hnone offset hoffset)) (hne offset hoffset)

end Resumes

/-- **The first end mark is found** from any byte on. -/
theorem exists_resumes (bytes : List UInt8) : ∀ (before : List UInt8) (taken : Nat),
    ∃ resume, Resumes (before ++ bytes) before.length resume
      ∧ resume + taken = before.length
        + (sizeFrom? (before.getLast?.any Byte.isBlank) taken bytes).getD
          (taken + bytes.length) := by
  -- a byte that does not begin a mark goes over to those before the rest
  induction bytes with
  | nil =>
    intro before taken
    rw [List.append_nil]
    refine ⟨before.length, .ended ?_, rfl⟩
    intro offset hends
    have hle := hends.add_two_le
    omega
  | cons b rest ih =>
    intro before taken
    rw [sizeFrom?]
    split
    · next hend =>
      rw [Bool.and_eq_true] at hend
      -- a mark at the head is the first one
      refine ⟨before.length + 2, .mark (endsAt_length_iff.mpr hend) (Nat.le_refl _) ?_, ?_⟩
      · exact fun other _ hle => hle
      · rw [Option.getD_some, Nat.add_assoc, Nat.add_comm 2]
    · next hend =>
      obtain ⟨resume, hresume, hsize⟩ := ih (before ++ [b]) (taken + 1)
      rw [List.append_assoc, List.singleton_append, List.length_append] at hresume
      rw [List.getLast?_concat, List.length_append, List.length_singleton] at hsize
      refine ⟨resume, hresume.of_succ ?_, ?_⟩
      · rwa [endsAt_length_iff, ← Bool.and_eq_true]
      · rw [Option.any_some] at hsize
        rw [List.length_cons, Nat.add_comm rest.length, ← Nat.add_assoc taken]
        omega

/-- **Image data is read over to its end**, after one blank that is not part of it. -/
theorem resumes_size {read : List UInt8} (hread : read.getLast?.any Byte.isBlank = false)
    (rest : List UInt8) :
    Resumes (read ++ rest) (read.length + if rest.head?.any Byte.isBlank then 1 else 0)
      (read.length + size rest) := by
  cases rest with
  | nil =>
    obtain ⟨resume, hresume, hsize⟩ := exists_resumes [] read 0
    have hend : resume = read.length + 0 := hsize
    rw [hend] at hresume
    exact hresume
  | cons b rest =>
    rw [size, size?, List.head?_cons, Option.any_some, List.length_cons]
    rcases hblank : Byte.isBlank b with - | -
    · obtain ⟨resume, hresume, hsize⟩ := exists_resumes (b :: rest) read 0
      rw [hread, Nat.zero_add, Nat.add_zero, List.length_cons] at hsize
      rw [if_neg Bool.false_ne_true, if_neg Bool.false_ne_true, ← hsize]
      exact hresume
    · -- the blank is among the bytes before the data, and a mark may come right after it
      obtain ⟨resume, hresume, hsize⟩ := exists_resumes rest (read ++ [b]) 1
      rw [List.append_assoc, List.singleton_append, List.length_append] at hresume
      rw [List.getLast?_concat, Option.any_some, hblank, List.length_append,
        List.length_singleton, Nat.add_comm 1 rest.length] at hsize
      rw [if_pos rfl, if_pos rfl]
      have hend : resume = read.length + (sizeFrom? true 1 rest).getD (rest.length + 1) := by omega
      rw [← hend]
      exact hresume

end ImageData

/-! ### Scans -/

namespace Token

/-- Scans leave a part at the end of the bytes. -/
theorem scans_suffix (n : Nat) : ∀ bytes, (scans n bytes).2 <:+ bytes := by
  induction n with
  | zero => exact fun bytes => List.suffix_refl bytes
  | succ n ih =>
    intro bytes
    cases Gap.splits bytes with
    | ended hgap =>
      rw [scans_of_trailing hgap]
    | @before gap first more hgap hblank hpercent =>
      rw [scans_cons hgap hblank hpercent]
      calc (scans n (more.drop (scan first more).more)).2
        _ <:+ more.drop (scan first more).more := ih _
        _ <:+ more := List.drop_suffix _ _
        _ <:+ first :: more := List.suffix_cons _ _
        _ <:+ gap ++ first :: more := List.suffix_append _ _

/-- One more scan finds the last token. -/
theorem scans_concat {n : Nat} {bytes rest : List UInt8} {found : List (Except Failure Token)}
    {last : Except Failure Token} (hlength : found.length = n)
    (h : scans (n + 1) bytes = (found ++ [last], rest)) :
    (scans n bytes).1 = found ∧ scans 1 (scans n bytes).2 = ([last], rest) := by
  rw [scans_add, Prod.mk.injEq] at h
  obtain ⟨hfound, hrest⟩ := h
  have hcount := congrArg List.length hfound
  rw [List.length_append, List.length_append, hlength, List.length_singleton] at hcount
  have hfirst := length_scans_le n bytes
  have hlast := length_scans_le 1 (scans n bytes).2
  obtain ⟨hone, htwo⟩ := List.append_inj hfound (by omega)
  exact ⟨hone, Prod.ext htwo hrest⟩

theorem number_found_ne_keyword (b : UInt8) (rest bytes : List UInt8) :
    (Scan.number b rest).found ≠ .ok (.keyword bytes) := by
  rw [Scan.number]
  split <;> exact fun h => by cases h

/-- A keyword is the first byte and those that its scan takes after it. -/
theorem Scan.keyword_eq {b : UInt8} {rest bytes : List UInt8}
    (h : (keyword b rest).found = .ok (.keyword bytes)) :
    bytes = b :: rest.take (keyword b rest).more := by
  rw [keyword] at h ⊢
  split
  · next hregular =>
    rw [if_pos hregular, token, word] at h
    have hrun := List.prefix_iff_eq_take.mp (List.takeWhile_prefix (l := rest) Byte.isRegular)
    split at h
    · cases h
    · split at h
      · cases h
      · cases h
        exact congrArg (b :: ·) hrun
  · next hregular =>
    rw [if_neg hregular] at h
    cases h
    rfl

theorem keyword_eq_of_scan {first : UInt8} {more bytes : List UInt8}
    (h : (scan first more).found = .ok (.keyword bytes)) :
    bytes = first :: more.take (scan first more).more := by
  unfold scan at h ⊢
  split_ifs at h ⊢
  · cases h
  · exact absurd h (literal_found_ne_keyword more bytes)
  · cases h
  · exact absurd h (hex_found_ne_keyword more bytes)
  · cases h
  · cases h
  · cases h
  · exact absurd h (number_found_ne_keyword first more bytes)
  · exact Scan.keyword_eq h

/-! ### What stands in an image before its data -/

/-- The operand that a token is by itself. -/
def operand? : Token → Option Operand
  | .number value => some (.number value)
  | .bool value => some (.bool value)
  | .name text => some (.name text)
  | .string bytes => some (.text (Latin1.decode bytes))
  | _ => none

/-- The token is neither a bracket nor a keyword of an image. -/
def isPlain : Token → Bool
  | .openArray | .closeArray | .openDict | .closeDict => false
  | .keyword bytes => bytes != Reader.beginImage && bytes != Reader.beginImageData
  | _ => true

/-- The tokens between the keywords of an image.  Arrays and dictionaries are balanced,
and keywords of an image stand within dictionaries only. -/
inductive ImageDict : List Token → Prop where
  | nil : ImageDict []
  | plain {token : Token} {rest : List Token} : token.isPlain = true → ImageDict rest →
    ImageDict (token :: rest)
  | array {items rest : List Token} : ImageDict items → ImageDict rest →
    ImageDict (.openArray :: (items ++ .closeArray :: rest))
  | dict {inner rest : List Token} : DictsBalanced (inner.map .ok) → ImageDict rest →
    ImageDict (.openDict :: (inner ++ .closeDict :: rest))

end Token

namespace Reader

@[simp] theorem length_push_arrays (r : Reader) (operand : Operand) :
    (r.push operand).arrays.length = r.arrays.length := by
  rw [push]
  split
  · rfl
  · next heq => rw [heq, List.length_cons, List.length_cons]

/-- The reader stands outside of dictionaries, between the keywords of an image or not,
with `depth` arrays open. -/
structure Stands (r : Reader) (inImage : Bool) (depth : Nat) : Prop where
  dicts : r.dictDepth = 0
  image : r.inImageDict = inImage
  arrays : r.arrays.length = depth

namespace Stands

variable {r : Reader} {inImage : Bool} {depth : Nat}

theorem push (h : r.Stands inImage depth) (operand : Operand) :
    (r.push operand).Stands inImage depth where
  dicts := (push_dictDepth r operand).trans h.dicts
  image := (push_inImageDict r operand).trans h.image
  arrays := (length_push_arrays r operand).trans h.arrays

theorem openArray (h : r.Stands inImage depth) :
    Stands { r with arrays := [] :: r.arrays } inImage (depth + 1) :=
  ⟨h.dicts, h.image, congrArg Nat.succ h.arrays⟩

theorem take_value (h : r.Stands inImage depth) {token : Token} {operand : Operand}
    (htoken : token.operand? = some operand) :
    r.take 0 (.ok token) = (r.push operand, .nothing) := by
  rw [take_outside h.dicts]
  cases token with
  | number value | bool value | name text | string bytes =>
    cases htoken
    rfl
  | _ => cases htoken

/-- Operands are gathered, and other keywords are read over. -/
theorem take_plain (h : r.Stands true depth) {token : Token} (htoken : token.isPlain = true) :
    ∃ next, r.take 0 (.ok token) = (next, .nothing) ∧ next.Stands true depth := by
  cases token with
  | number value | bool value | name text | string bytes => exact ⟨_, h.take_value rfl, h.push _⟩
  | keyword bytes =>
    rw [Token.isPlain, Bool.and_eq_true, bne_iff_ne, bne_iff_ne] at htoken
    obtain ⟨hbegin, hdata⟩ := htoken
    refine ⟨r, ?_, h⟩
    rw [take_outside h.dicts, takeOutside, takeKeyword, if_neg hbegin,
      if_neg fun hand => hdata hand.1, if_pos h.image]
  | _ => cases htoken

theorem take_closeArray (h : r.Stands inImage (depth + 1)) :
    ∃ next, r.take 0 (.ok .closeArray) = (next, .nothing) ∧ next.Stands inImage depth := by
  obtain ⟨items, outer, heq⟩ := List.exists_cons_of_length_eq_add_one h.arrays
  have houter : Stands { r with arrays := outer } inImage depth := by
    refine ⟨h.dicts, h.image, ?_⟩
    have harrays := h.arrays
    rw [heq] at harrays
    exact Nat.succ.inj harrays
  rw [take_outside h.dicts, takeOutside, heq]
  exact ⟨_, rfl, houter.push _⟩

end Stands

/-- **What stands in an image before its data is passed over**, and leaves the arrays that
were open before it. -/
theorem passes_imageDict {tokens : List Token} (htokens : Token.ImageDict tokens) :
    ∀ {r : Reader} {depth : Nat}, r.Stands true depth →
      ∃ r', r.Passes (tokens.map .ok) r' ∧ r'.Stands true depth := by
  induction htokens with
  | nil => exact fun {r depth} h => ⟨r, .nil, h⟩
  | plain htoken _ ih =>
    intro r depth h
    obtain ⟨next, htake, hnext⟩ := h.take_plain htoken
    obtain ⟨r', hrest, hafter⟩ := ih hnext
    exact ⟨r', .cons htake rfl hrest, hafter⟩
  | array _ _ ihitems ihrest =>
    intro r depth h
    obtain ⟨last, hitems, hlast⟩ := ihitems h.openArray
    obtain ⟨next, hclose, hnext⟩ := hlast.take_closeArray
    obtain ⟨r', hrest, hafter⟩ := ihrest hnext
    have hinside := hitems.append (.cons hclose rfl hrest)
    rw [List.map_cons, List.map_append, List.map_cons]
    exact ⟨r', .cons (take_outside h.dicts 0 .openArray) rfl hinside, hafter⟩
  | dict hinner _ ih =>
    intro r depth h
    obtain ⟨r', hrest, hafter⟩ := ih h
    rw [List.map_cons, List.map_append, List.map_cons]
    exact ⟨r', hrest.dict hinner, hafter⟩

/-- At the second keyword nothing is gathered any more. -/
theorem Stands.take_beginImageData {r : Reader} (h : r.Stands true 0) (offset : Nat) :
    r.take offset (.ok (.keyword beginImageData)) = ({}, .imageData) := by
  obtain ⟨operands, arrays, dictDepth, inImageDict⟩ := r
  obtain ⟨rfl, rfl, harrays⟩ := h
  obtain rfl := List.length_eq_zero_iff.mp harrays
  rfl

/-- The first keyword is taken with nothing but operands gathered. -/
theorem take_beginImage {r : Reader} (hdict : r.dictDepth = 0) (offset : Nat) :
    r.take offset (.ok (.keyword beginImage))
      = ({ r with inImageDict := true, operands := [] }, .nothing) := by
  rw [take_outside hdict]
  rfl

/-- The rounds before that deliver nothing. -/
theorem rounds_of_imageDict {r : Reader} (harrays : r.arrays = []) (hdict : r.dictDepth = 0)
    {tokens : List Token} (htokens : Token.ImageDict tokens) {bytes : List UInt8}
    (hfound : (Token.scans (tokens.length + 1) bytes).1
      = (.keyword beginImage :: tokens).map .ok) (offset : Nat) :
    ∃ (before : List UInt8) (turns : List Turn) (r' : Reader),
      bytes = before ++ (Token.scans (tokens.length + 1) bytes).2
      ∧ r.rounds ⟨offset, bytes⟩ = turns
        ++ r'.rounds ⟨offset + before.length, (Token.scans (tokens.length + 1) bytes).2⟩
      ∧ turns.map (·.scan.found) = (.keyword beginImage :: tokens).map .ok
      ∧ (∀ turn ∈ turns, turn.event? = none) ∧ r'.Stands true 0 := by
  have hwithin : Stands { r with inImageDict := true, operands := [] } true 0 :=
    ⟨hdict, rfl, congrArg List.length harrays⟩
  obtain ⟨r', hpasses, hafter⟩ := passes_imageDict htokens hwithin
  have hpassed : r.Passes (Token.scans (tokens.length + 1) bytes).1 r' := by
    rw [hfound]
    exact .cons (take_beginImage hdict 0) rfl hpasses
  obtain ⟨turns, stop, hrounds, hstop, hturns, -, hsilent⟩ :=
    rounds_scans (tokens.length + 1) offset hpassed
  obtain ⟨before, hbefore⟩ := Token.scans_suffix (tokens.length + 1) bytes
  have hlength := congrArg List.length hbefore
  rw [List.length_append] at hlength
  have hplace : stop = offset + before.length := by omega
  rw [hplace] at hrounds
  exact ⟨before, turns, r', hbefore.symm, hrounds, hturns.trans hfound,
    fun turn hturn => event?_of_silenced (hsilent turn hturn), hafter⟩

/-- The round at the second keyword reads over the data. -/
theorem rounds_of_imageData {r : Reader} (h : r.Stands true 0) {bytes rest : List UInt8}
    (hscan : Token.scans 1 bytes = ([.ok (.keyword beginImageData)], rest)) (offset : Nat) :
    ∃ gap turn, bytes = gap ++ beginImageData ++ rest
      ∧ r.rounds ⟨offset, bytes⟩ = turn :: rounds {}
        ⟨offset + ((gap ++ beginImageData).length + ImageData.size rest),
          rest.drop (ImageData.size rest)⟩
      ∧ turn.scan.found = .ok (.keyword beginImageData) ∧ turn.event? = none := by
  cases Gap.splits bytes with
  | ended hgap =>
    rw [Token.scans_of_trailing hgap] at hscan
    cases hscan
  | @before gap first more hgap hblank hpercent =>
    rw [Token.scans_cons hgap hblank hpercent] at hscan
    obtain ⟨hfound, hrest⟩ := Prod.mk.inj hscan
    have hkeyword := (List.cons.inj hfound).1
    -- the keyword is two bytes, and the data starts right after them
    have hbytes := Token.keyword_eq_of_scan hkeyword
    have hdrop : more.drop (Token.scan first more).more = rest := hrest
    have hmore : first :: more = beginImageData ++ rest := by
      rw [hbytes, ← hdrop, List.cons_append, List.take_append_drop]
    have hlength : (Token.scan first more).more + 1 = beginImageData.length := by
      rw [hbytes, List.length_cons, List.length_take_of_le (Token.scan_more_le first more)]
    have hturn := (turn?_gap r hgap offset (first :: more)).trans
      (turn?_cons r hblank hpercent _ more)
    rw [hkeyword, h.take_beginImageData] at hturn
    have hround := rounds_of_turn hturn
    rw [hlength, hdrop, resume, Place.skip, Nat.add_assoc, Nat.add_assoc,
      ← Nat.add_assoc gap.length, ← List.length_append] at hround
    refine ⟨gap, _, ?_, hround, hkeyword, rfl⟩
    rw [hmore, List.append_assoc]

/-- **Inline images are read over.**  The keyword of an image, what stands in it and the
keyword of its data, read with no array and no dictionary open, deliver nothing.  Reading
goes on right after the first end mark from the data on, or at the end of the bytes, as
it starts on the bytes from there. -/
theorem rounds_of_image (r : Reader) (harrays : r.arrays = []) (hdict : r.dictDepth = 0)
    {tokens : List Token} (htokens : Token.ImageDict tokens) {bytes rest : List UInt8}
    (hscans : Token.scans (tokens.length + 2) bytes
      = ((.keyword beginImage :: (tokens ++ [.keyword beginImageData])).map .ok, rest))
    (offset : Nat) :
    ∃ read turns resume, bytes = read ++ rest
      ∧ (∀ place, ImageData.Resumes bytes
          (read.length + if rest.head?.any Byte.isBlank then 1 else 0) place ↔ place = resume)
      ∧ r.rounds ⟨offset, bytes⟩
        = turns ++ rounds {} ⟨offset + resume, bytes.drop resume⟩
      ∧ turns.map (·.scan.found)
        = (.keyword beginImage :: (tokens ++ [.keyword beginImageData])).map .ok
      ∧ (∀ turn ∈ turns, turn.event? = none)
      ∧ r.eventsFrom ⟨offset, bytes⟩ = Content.events (bytes.drop resume) := by
  rw [← List.cons_append, List.map_append] at hscans
  obtain ⟨hfound, hlast⟩ := Token.scans_concat (by rw [List.length_map]; rfl) hscans
  obtain ⟨before, turns, r', hbefore, hrounds, hturns, hsilent, hafter⟩ :=
    rounds_of_imageDict harrays hdict htokens hfound offset
  obtain ⟨gap, turn, hgap, hround, hdata, hturn⟩ :=
    rounds_of_imageData hafter hlast (offset + before.length)
  -- the last byte that is read before the data is a letter
  have hread : (before ++ (gap ++ beginImageData)).getLast?.any Byte.isBlank = false := by
    rw [← List.append_assoc, List.getLast?_append]
    rfl
  have hbytes : bytes = before ++ (gap ++ beginImageData) ++ rest := by
    rw [List.append_assoc, ← hgap, ← hbefore]
  have hresumes := ImageData.resumes_size hread rest
  rw [← hbytes] at hresumes
  have hdrop : bytes.drop ((before ++ (gap ++ beginImageData)).length + ImageData.size rest)
      = rest.drop (ImageData.size rest) := by
    rw [hbytes, List.drop_length_add_append]
  have hall : r.rounds ⟨offset, bytes⟩ = turns ++ [turn] ++ rounds {}
      ⟨offset + ((before ++ (gap ++ beginImageData)).length + ImageData.size rest),
        bytes.drop ((before ++ (gap ++ beginImageData)).length + ImageData.size rest)⟩ := by
    have hlength : (before ++ (gap ++ beginImageData)).length
        = before.length + (gap ++ beginImageData).length := List.length_append
    rw [hrounds, hround, hdrop, hlength, List.append_assoc, List.singleton_append, Nat.add_assoc,
      Nat.add_assoc]
  have hnone : ∀ t ∈ turns ++ [turn], t.event? = none := by
    rw [List.forall_mem_append, List.forall_mem_singleton]
    exact ⟨hsilent, hturn⟩
  refine ⟨before ++ (gap ++ beginImageData), turns ++ [turn], _, hbytes,
    fun place => ⟨hresumes.unique, fun heq => heq ▸ hresumes⟩, hall, ?_, hnone, ?_⟩
  · rw [List.map_append, hturns, List.map_singleton, hdata, ← List.cons_append, List.map_append]
    rfl
  · rw [eventsFrom, hall, List.filterMap_append, List.filterMap_eq_nil_iff.mpr hnone]
    exact eventsFrom_offset {} ⟨0, _⟩ _

/-- An operand stands before the image, `BI/F[/A]<<BI>>q ID` comes before its data, and
in these, `xEI` and a byte that is not text, the letters of the mark follow no blank. -/
theorem rounds_of_image_with_array :
    let r : Reader := { operands := [.text "p"] }
    let tokens : List Token := [.name "F", .openArray, .name "A", .closeArray, .openDict,
      .keyword [0x42, 0x49], .closeDict, .keyword [0x71]]
    let read : List UInt8 := [0x42, 0x49, 0x2F, 0x46, 0x5B, 0x2F, 0x41, 0x5D, 0x3C, 0x3C, 0x42,
      0x49, 0x3E, 0x3E, 0x71, 0x20, 0x49, 0x44]
    let data : List UInt8 := [0x0A, 0x78, 0x45, 0x49, 0xFF, 0x20, 0x45, 0x49]
    let rest : List UInt8 := [0x20, 0x51]
    Token.ImageDict tokens
      ∧ Token.scans (tokens.length + 2) (read ++ (data ++ rest))
        = ((.keyword beginImage :: (tokens ++ [.keyword beginImageData])).map .ok, data ++ rest)
      ∧ r.eventsFrom ⟨4, read ++ (data ++ rest)⟩ = [⟨"Q", []⟩] := by
  intro r tokens read data rest
  have hinner : Token.DictsBalanced (([.keyword beginImage] : List Token).map .ok) := by decide
  have hdict : Token.ImageDict [.openDict, .keyword beginImage, .closeDict, .keyword [0x71]] :=
    .dict hinner (.plain (by decide) .nil)
  have hitems : Token.ImageDict [.name "A"] := .plain rfl .nil
  have htokens : Token.ImageDict tokens := .plain rfl (.array hitems hdict)
  have hscans : Token.scans (tokens.length + 2) (read ++ (data ++ rest))
      = ((.keyword beginImage :: (tokens ++ [.keyword beginImageData])).map .ok, data ++ rest) := by
    cbv
  refine ⟨htokens, hscans, ?_⟩
  obtain ⟨read', turns, resume, hbytes, hresume, -, -, -, hevents⟩ :=
    rounds_of_image r rfl rfl htokens hscans 4
  obtain rfl : read = read' := List.append_cancel_right hbytes
  have hplace : read.length + ImageData.size (data ++ rest) = resume :=
    (hresume _).mp (ImageData.resumes_size rfl (data ++ rest))
  rw [hevents, ← hplace, List.drop_length_add_append]
  cbv

end Reader

end PageText
