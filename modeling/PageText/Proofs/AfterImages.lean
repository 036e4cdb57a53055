/-
PageText/Proofs/AfterImages.lean

Readers after an image.  The keyword of image data clears the operands and the marks of
the image, and no dictionary is open at it.  Arrays that are open stay so: a bracket that
is opened in an image and not closed goes on after it, and until it is closed nothing
that comes after is delivered.  Where no array is open the reader is a new one:

    turn.reader = { arrays := (after {} earlier).arrays }

What a new reader finds up to a keyword outside of arrays and dictionaries makes up
operands (`Token.Gathers`), and the keyword is delivered with those.

Main result: `Reader.turns_after_image`.
-/
import PageText.Proofs.InlineImages
import PageText.Proofs.Writing

namespace PageText

/-! ### Operands in a row -/

namespace Token

/-- What is found closes an array. -/
def closesArray : Except Failure Token → Bool
  | .ok .closeArray => true
  | _ => false

/-- How many closing brackets are found. -/
def bracketsClosed (found : List (Except Failure Token)) : Nat := found.countP closesArray

theorem bracketsClosed_cons (first : Except Failure Token) (rest : List (Except Failure Token)) :
    bracketsClosed (first :: rest) = bracketsClosed [first] + bracketsClosed rest := by
  show ([first] ++ rest).countP closesArray = _
  exact List.countP_append

/-- What is found with `depth` arrays open makes up the operands.  Dictionaries, ends
without a beginning and what is no token make up none, and neither do keywords within an
array. -/
inductive Gathers : (depth : Nat) → List (Except Failure Token) → List Operand → Prop where
  | nil {depth : Nat} : Gathers depth [] []
  | failure {depth : Nat} {failure : Failure} {rest : List (Except Failure Token)}
      {operands : List Operand} : Gathers depth rest operands →
      Gathers depth (.error failure :: rest) operands
  | value {depth : Nat} {token : Token} {operand : Operand} {rest : List (Except Failure Token)}
      {operands : List Operand} : token.operand? = some operand → Gathers depth rest operands →
      Gathers depth (.ok token :: rest) (operand :: operands)
  | array {depth : Nat} {inner rest : List (Except Failure Token)}
      {items operands : List Operand} : Gathers (depth + 1) inner items →
      Gathers depth rest operands →
      Gathers depth (.ok .openArray :: (inner ++ .ok .closeArray :: rest))
        (.array items :: operands)
  | dict {depth : Nat} {inner rest : List (Except Failure Token)} {operands : List Operand} :
      DictsBalanced inner → Gathers depth rest operands →
      Gathers depth (.ok .openDict :: (inner ++ .ok .closeDict :: rest)) operands
  | keyword {depth : Nat} {bytes : List UInt8} {rest : List (Except Failure Token)}
      {operands : List Operand} : bytes ≠ Reader.beginImage →
      Gathers (depth + 1) rest operands →
      Gathers (depth + 1) (.ok (.keyword bytes) :: rest) operands
  | strayBracket {rest : List (Except Failure Token)} {operands : List Operand} :
      Gathers 0 rest operands → Gathers 0 (.ok .closeArray :: rest) operands
  | strayDictEnd {depth : Nat} {rest : List (Except Failure Token)} {operands : List Operand} :
      Gathers depth rest operands → Gathers depth (.ok .closeDict :: rest) operands

end Token

namespace Reader

namespace Stands

variable {r : Reader} {depth : Nat}

/-- An array is an operand when it is closed. -/
theorem take_array (h : r.Stands false depth) (items : List Operand) :
    Reader.take { r with arrays := items.reverse :: r.arrays } 0 (.ok .closeArray)
      = (r.push (.array items), .nothing) := by
  have hdicts : dictDepth { r with arrays := items.reverse :: r.arrays } = 0 := h.dicts
  rw [take_outside hdicts]
  simp only [takeOutside, List.reverse_reverse]

/-- A keyword within an array is dropped. -/
theorem take_keyword (h : r.Stands false (depth + 1)) {bytes : List UInt8}
    (hbytes : bytes ≠ beginImage) :
    r.take 0 (.ok (.keyword bytes)) = (r, .notice (.keywordInArray (Utf8.decode bytes))) := by
  obtain ⟨items, outer, heq⟩ := List.exists_cons_of_length_eq_add_one h.arrays
  rw [take_outside h.dicts, takeOutside, takeKeyword_of_no_image h.image hbytes, heq]
  rfl

theorem take_strayBracket (h : r.Stands false 0) :
    r.take 0 (.ok .closeArray) = (r, .notice (.strayBracket 0)) := by
  rw [take_outside h.dicts, takeOutside, List.length_eq_zero_iff.mp h.arrays]

end Stands

/-- **What makes up operands is passed over**, and the reader has those gathered. -/
theorem passes_gathers {depth : Nat} {found : List (Except Token.Failure Token)}
    {operands : List Operand} (h : Token.Gathers depth found operands) :
    ∀ r : Reader, r.Stands false depth → r.Passes found (operands.foldl push r) := by
  induction h with
  | nil => exact fun r _ => .nil
  | failure _ ih => exact fun r hr => .cons rfl rfl (ih r hr)
  | value htoken _ ih => exact fun r hr => .cons (hr.take_value htoken) rfl (ih _ (hr.push _))
  | @array depth inner rest items operands _ _ ihitems ihrest =>
    intro r hr
    -- the items go to the array that the bracket opens
    have hitems := ihitems _ hr.openArray
    rw [foldl_push_of_arrays, List.append_nil] at hitems
    have hclose := Passes.cons (hr.take_array items) rfl (ihrest _ (hr.push (.array items)))
    exact .cons (take_outside hr.dicts 0 .openArray) rfl (hitems.append hclose)
  | dict hinner _ ih => exact fun r hr => (ih r hr).dict hinner
  | keyword hbytes _ ih => exact fun r hr => .cons (hr.take_keyword hbytes) rfl (ih r hr)
  | strayBracket _ ih => exact fun r hr => .cons hr.take_strayBracket rfl (ih r hr)
  | strayDictEnd _ ih =>
    exact fun r hr => .cons (take_outside hr.dicts 0 .closeDict) rfl (ih r hr)

/-! ### Rounds in a row -/

/-- The first round is made where reading starts, and the others where it leads. -/
theorem of_rounds_cons {r : Reader} {place : Place} {turn : Turn} {later : List Turn}
    (h : r.rounds place = turn :: later) :
    r.turn? place = some turn ∧ turn.reader.rounds turn.next = later := by
  rcases hturn : r.turn? place with - | first
  · rw [rounds_of_none hturn] at h
    cases h
  · rw [rounds_of_turn hturn] at h
    obtain ⟨rfl, hlater⟩ := List.cons.inj h
    exact ⟨rfl, hlater⟩

/-- Each round is made by the reader after those before it. -/
theorem exists_turn_after {later : List Turn} {turn : Turn} (earlier : List Turn) :
    ∀ {r : Reader} {place : Place}, r.rounds place = earlier ++ turn :: later →
      ∃ place', (r.after earlier).turn? place' = some turn
        ∧ turn.reader.rounds turn.next = later := by
  induction earlier with
  | nil =>
    intro r place h
    exact ⟨place, of_rounds_cons h⟩
  | cons first rest ih =>
    intro r place h
    exact ih (of_rounds_cons h).2

/-- What a round takes up, whatever its place. -/
theorem taken {r : Reader} {place : Place} {turn : Turn} (h : r.turn? place = some turn) :
    turn.reader = (r.take 0 turn.scan.found).1
      ∧ turn.outcome.silenced = (r.take 0 turn.scan.found).2.silenced := by
  obtain ⟨gap, first, body, data, hreads⟩ := exists_reads h
  obtain ⟨hreader, houtcome⟩ := r.take_offset turn.start.offset 0 turn.scan.found
  rw [← hreads.taken] at hreader houtcome
  exact ⟨hreader, houtcome⟩

/-- Rounds that find what a reader passes over deliver nothing. -/
theorem after_of_passes {others : List Turn} (passed : List Turn) :
    ∀ {r r' : Reader} {place : Place}, r.rounds place = passed ++ others →
      r.Passes (passed.map (·.scan.found)) r' →
      r.after passed = r' ∧ ∀ turn ∈ passed, turn.event? = none := by
  induction passed with
  | nil =>
    intro r r' place _ hpasses
    cases hpasses
    exact ⟨rfl, fun turn hturn => absurd hturn List.not_mem_nil⟩
  | cons turn rest ih =>
    intro r r' place h hpasses
    obtain ⟨hturn, hrest⟩ := of_rounds_cons h
    obtain ⟨hreader, houtcome⟩ := taken hturn
    cases hpasses with
    | cons htake hsilent hpasses =>
      rw [htake] at hreader houtcome
      subst hreader
      obtain ⟨hafter, hnone⟩ := ih hrest hpasses
      exact ⟨hafter, List.forall_mem_cons.mpr ⟨event?_of_silenced (houtcome.trans hsilent), hnone⟩⟩

/-- The first keyword of a new reader is delivered with the operands before it. -/
theorem event?_of_gathers {place : Place} {passed others : List Turn} {word : Turn}
    (h : rounds {} place = passed ++ word :: others) {operands : List Operand}
    (hpassed : Token.Gathers 0 (passed.map (·.scan.found)) operands) {keyword : List UInt8}
    (hword : word.scan.found = .ok (.keyword keyword)) (hkeyword : keyword ≠ beginImage) :
    (∀ turn ∈ passed, turn.event? = none)
      ∧ word.event? = some ⟨Utf8.decode keyword, operands⟩ := by
  have hpasses := passes_gathers hpassed {} ⟨rfl, rfl, rfl⟩
  rw [foldl_push operands {} rfl, List.append_nil] at hpasses
  obtain ⟨hafter, hnone⟩ := after_of_passes passed h hpasses
  obtain ⟨place', hturn, -⟩ := exists_turn_after passed h
  obtain ⟨-, houtcome⟩ := taken hturn
  rw [hword, hafter, take_outside rfl, takeOutside, takeKeyword_of_no_image rfl hkeyword]
    at houtcome
  have hevent := congrArg Outcome.event? houtcome
  rw [Outcome.event?_silenced, ← Turn.event?_eq, List.reverse_reverse] at hevent
  exact ⟨hnone, hevent⟩

/-! ### Open arrays -/

/-- Nothing but a closing bracket closes an array, and with one open no event is
delivered. -/
theorem take_arrays (r : Reader) (offset : Nat) (found : Except Token.Failure Token) :
    r.arrays.length ≤ (r.take offset found).1.arrays.length + Token.bracketsClosed [found]
      ∧ (0 < r.arrays.length → (r.take offset found).2.event? = none) := by
  rcases found with failure | token
  · exact ⟨Nat.le_refl _, fun _ => rfl⟩
  rw [take]
  split
  · -- within a dictionary arrays are neither opened nor closed
    cases token <;> exact ⟨Nat.le_add_right _ _, fun _ => rfl⟩
  have hpush (operand : Operand) : r.arrays.length ≤ (r.push operand).arrays.length + 0 :=
    Nat.le_of_eq (length_push_arrays r operand).symm
  cases token with
  | number value => exact ⟨hpush _, fun _ => rfl⟩
  | bool value => exact ⟨hpush _, fun _ => rfl⟩
  | name text => exact ⟨hpush _, fun _ => rfl⟩
  | string bytes => exact ⟨hpush _, fun _ => rfl⟩
  | keyword bytes =>
    rw [takeOutside, takeKeyword]
    split
    · exact ⟨Nat.le_refl _, fun _ => rfl⟩
    split
    · exact ⟨Nat.le_refl _, fun _ => rfl⟩
    split
    · exact ⟨Nat.le_refl _, fun _ => rfl⟩
    split
    · exact ⟨Nat.le_refl _, fun _ => rfl⟩
    · -- an event is delivered, and no array is open
      next hempty =>
      rw [Bool.not_eq_true, Bool.not_eq_false', List.isEmpty_iff] at hempty
      exact ⟨Nat.le_refl _, fun hopen => by simp [hempty] at hopen⟩
  | openArray => exact ⟨Nat.le_succ _, fun _ => rfl⟩
  | closeArray =>
    rw [takeOutside]
    split
    · exact ⟨Nat.le_add_right _ _, fun _ => rfl⟩
    · next items outer heq =>
      refine ⟨?_, fun _ => rfl⟩
      rw [heq, List.length_cons, length_push_arrays]
      exact Nat.le_refl _
  | openDict => exact ⟨Nat.le_refl _, fun _ => rfl⟩
  | closeDict => exact ⟨Nat.le_refl _, fun _ => rfl⟩

/-- Until open arrays are closed, rounds deliver nothing. -/
theorem event?_of_open_arrays {others : List Turn} (passed : List Turn) :
    ∀ {r : Reader} {place : Place}, r.rounds place = passed ++ others →
      Token.bracketsClosed (passed.map (·.scan.found)) < r.arrays.length →
      ∀ turn ∈ passed, turn.event? = none := by
  induction passed with
  | nil => exact fun _ _ turn hturn => absurd hturn List.not_mem_nil
  | cons turn rest ih =>
    intro r place h hopen
    obtain ⟨hturn, hrest⟩ := of_rounds_cons h
    obtain ⟨hreader, houtcome⟩ := taken hturn
    obtain ⟨hclosed, hnone⟩ := r.take_arrays 0 turn.scan.found
    rw [List.map_cons, Token.bracketsClosed_cons] at hopen
    have hevent := congrArg Outcome.event? houtcome
    rw [Outcome.event?_silenced, Outcome.event?_silenced, ← Turn.event?_eq,
      hnone (Nat.lt_of_le_of_lt (Nat.zero_le _) hopen)] at hevent
    rw [← hreader] at hclosed
    exact List.forall_mem_cons.mpr ⟨hevent, ih hrest (by omega)⟩

/-! ### The reader after an image -/

theorem takeKeyword_imageData {r next : Reader} {keyword : List UInt8}
    (h : r.takeKeyword keyword = (next, .imageData)) :
    next = { r with inImageDict := false, operands := [] } := by
  rw [takeKeyword] at h
  split at h
  · cases h
  split at h
  · exact (congrArg Prod.fst h).symm
  split at h
  · cases h
  split at h
  · cases h
  · cases h

/-- The keyword of image data clears all but the arrays that are open. -/
theorem take_imageData {r next : Reader} {offset : Nat} {found : Except Token.Failure Token}
    (h : r.take offset found = (next, .imageData)) : next = { arrays := r.arrays } := by
  by_cases hkeyword : ∃ bytes, found = .ok (.keyword bytes)
  · obtain ⟨bytes, rfl⟩ := hkeyword
    rcases Nat.eq_zero_or_pos r.dictDepth with hdict | hdict
    · rw [take_outside hdict] at h
      rw [takeKeyword_imageData h, hdict]
    · rw [take, if_pos hdict] at h
      cases h
  · have houtcome := congrArg Prod.snd h
    exact absurd houtcome (r.take_ne_imageData offset fun bytes heq => hkeyword ⟨bytes, heq⟩)

theorem reader_of_imageData {r : Reader} {place : Place} {turn : Turn}
    (h : r.turn? place = some turn) (himage : turn.outcome = .imageData) :
    turn.reader = { arrays := r.arrays } := by
  obtain ⟨gap, first, body, data, hreads⟩ := exists_reads h
  have htaken := hreads.taken
  rw [himage] at htaken
  exact take_imageData htaken.symm

/-- **The reader after an image** has gathered nothing but the arrays that are open.  If
there are none, then what follows is read as if it stood alone, and its first keyword
outside of arrays and dictionaries is delivered with the operands before it in there.  If
there are some, then nothing is delivered until they are closed. -/
theorem turns_after_image {bytes : List UInt8} {earlier later : List Turn} {turn : Turn}
    (hturns : turns {} bytes = earlier ++ turn :: later) (himage : turn.outcome = .imageData) :
    let arrays := (after {} earlier).arrays
    turn.reader = { arrays := arrays }
      ∧ (arrays = [] → later.filterMap Turn.event? = Content.events turn.next.rest
        ∧ ∀ passed word others operands keyword, later = passed ++ word :: others →
          Token.Gathers 0 (passed.map (·.scan.found)) operands →
          word.scan.found = .ok (.keyword keyword) → keyword ≠ beginImage →
          (∀ t ∈ passed, t.event? = none)
            ∧ word.event? = some ⟨Utf8.decode keyword, operands⟩)
      ∧ ∀ passed others, later = passed ++ others →
        Token.bracketsClosed (passed.map (·.scan.found)) < arrays.length →
        ∀ t ∈ passed, t.event? = none := by
  intro arrays
  obtain ⟨place, hturn, hlater⟩ := exists_turn_after earlier hturns
  have hreader : turn.reader = { arrays := arrays } := reader_of_imageData hturn himage
  refine ⟨hreader, ?_, ?_⟩
  · intro hnone
    rw [hreader, hnone] at hlater
    refine ⟨?_, ?_⟩
    · rw [← hlater]
      exact eventsFrom_offset {} ⟨0, turn.next.rest⟩ turn.next.offset
    · intro passed word others operands keyword hsplit hgathers hword hkeyword
      exact event?_of_gathers (hlater.trans hsplit) hgathers hword hkeyword
  · intro passed others hsplit hopen
    rw [hreader] at hlater
    exact event?_of_open_arrays passed (hlater.trans hsplit) hopen

/-- In `(p)BI/W ID x EI(a)<<Q>>[q(b)]Tj` an operand stands before the image and one in it,
and after it keywords stand in a dictionary and in an array. -/
theorem turns_after_image_with_keywords :
    let bytes : List UInt8 := [0x28, 0x70, 0x29, 0x42, 0x49, 0x2F, 0x57, 0x20, 0x49, 0x44, 0x20,
      0x78, 0x20, 0x45, 0x49, 0x28, 0x61, 0x29, 0x3C, 0x3C, 0x51, 0x3E, 0x3E, 0x5B, 0x71, 0x28,
      0x62, 0x29, 0x5D, 0x54, 0x6A]
    ∃ earlier turn later, turns {} bytes = earlier ++ turn :: later ∧ turn.outcome = .imageData
      ∧ (after {} earlier).arrays = [] ∧ turn.reader = {}
      ∧ later.filterMap Turn.event? = Content.events turn.next.rest
      ∧ ∃ passed word, later = passed ++ [word]
        ∧ word.event? = some ⟨"Tj", [.text "a", .array [.text "b"]]⟩ := by
  intro bytes
  have himage : (turns {} bytes)[3]?.map Turn.outcome = some .imageData := by cbv
  have harrays : (after {} ((turns {} bytes).take 3)).arrays = [] := by cbv
  have hfound : ((turns {} bytes).drop 4).map (·.scan.found)
      = [.ok (.string [0x61]), .ok .openDict, .ok (.keyword [0x51]), .ok .closeDict,
        .ok .openArray, .ok (.keyword [0x71]), .ok (.string [0x62]), .ok .closeArray]
        ++ [.ok (.keyword [0x54, 0x6A])] := by
    cbv
  obtain ⟨turn, hturn, houtcome⟩ := Option.map_eq_some_iff.mp himage
  obtain ⟨passed, last, hlater, hpassed, hlast⟩ := List.map_eq_append_iff.mp hfound
  obtain ⟨word, rfl, hword⟩ := List.map_eq_singleton_iff.mp hlast
  have hgathers : Token.Gathers 0 (passed.map (·.scan.found)) [.text "a", .array [.text "b"]] := by
    have hinner : Token.DictsBalanced [.ok (.keyword [0x51])] := by decide
    have hitems : Token.Gathers 1 [.ok (.keyword [0x71]), .ok (.string [0x62])] [.text "b"] :=
      .keyword (by decide) (.value rfl .nil)
    rw [hpassed]
    exact .value rfl (.dict hinner (.array hitems .nil))
  have hturns : turns {} bytes = (turns {} bytes).take 3 ++ turn :: (passed ++ [word]) := by
    obtain ⟨hlength, rfl⟩ := List.getElem?_eq_some_iff.mp hturn
    rw [← hlater, List.getElem_cons_drop, List.take_append_drop]
  obtain ⟨hreader, hnone, -⟩ := turns_after_image hturns houtcome
  obtain ⟨hevents, hfirst⟩ := hnone harrays
  obtain ⟨-, hevent⟩ := hfirst passed word [] _ _ rfl hgathers hword (by decide)
  rw [harrays] at hreader
  exact ⟨_, turn, _, hturns, houtcome, harrays, hreader, hevents, passed, word, rfl, hevent⟩

/-- The array that is opened in the image of `BI [ ID x EI (a) Tj` is open after it, and
nothing is delivered, although the bytes after the image deliver an event. -/
theorem turns_after_image_with_open_array :
    let bytes : List UInt8 := [0x42, 0x49, 0x20, 0x5B, 0x20, 0x49, 0x44, 0x20, 0x78, 0x20, 0x45,
      0x49, 0x20, 0x28, 0x61, 0x29, 0x20, 0x54, 0x6A]
    (∃ turn ∈ turns {} bytes, turn.outcome = .imageData ∧ turn.reader ≠ ({} : Reader))
      ∧ Content.events bytes = [] ∧ Content.events (bytes.drop 12) = [⟨"Tj", [.text "a"]⟩] := by
  intro bytes
  have hturn : (turns {} bytes)[2]?.map (fun turn => (turn.outcome, turn.reader.arrays))
      = some (.imageData, [[]]) := by
    cbv
  obtain ⟨turn, hmem, hboth⟩ := Option.map_eq_some_iff.mp hturn
  obtain ⟨himage, harrays⟩ := Prod.mk.inj hboth
  refine ⟨⟨turn, List.mem_of_getElem? hmem, himage, ?_⟩, by cbv, by cbv⟩
  intro heq
  rw [heq] at harrays
  cases harrays

end Reader

end PageText
