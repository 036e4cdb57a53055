/-
PageText/Proofs/Reading.lean

Reading as a list of rounds.  `Reader.rounds` is unfolded one round at a time
(`rounds_of_turn`), and a round over a gap and bytes that spell a token takes
that token (`turn?_of_spells`).

Main result: tokens that are spelled one after the other, with gaps between
them, are taken in that order, so the events of the bytes are those that the
tokens deliver (`events_spaced`).
-/
import PageText.Content.Reader

namespace PageText

/-! ### Gaps -/

namespace Gap

/-- The bytes are blanks and comments, and the comments are closed. -/
inductive Closed : List UInt8 → Prop where
  | nil : Closed []
  | blank {b : UInt8} {rest : List UInt8} : Byte.isBlank b = true → Closed rest → Closed (b :: rest)
  | comment {body rest : List UInt8} {stop : UInt8} : (∀ b ∈ body, Byte.isLineEnd b = false) →
    Byte.isLineEnd stop = true → Closed rest → Closed (Byte.percent :: (body ++ stop :: rest))

theorem sizeFrom_eq_add (bytes : List UInt8) :
    ∀ (inComment : Bool) (taken : Nat),
      sizeFrom inComment taken bytes = taken + sizeFrom inComment 0 bytes := by
  induction bytes with
  | nil =>
    intro inComment taken
    cases inComment <;> rfl
  | cons b rest ih =>
    intro inComment taken
    cases inComment with
    | true => rw [sizeFrom, sizeFrom, ih _ (taken + 1), ih _ (0 + 1), Nat.zero_add, Nat.add_assoc]
    | false =>
      rw [sizeFrom, sizeFrom]
      split
      · rw [ih _ (taken + 1), ih _ (0 + 1), Nat.zero_add, Nat.add_assoc]
      split
      · rw [ih _ (taken + 1), ih _ (0 + 1), Nat.zero_add, Nat.add_assoc]
      · rfl

theorem size_blank {b : UInt8} (h : Byte.isBlank b = true) (rest : List UInt8) :
    size (b :: rest) = size rest + 1 := by
  have hpercent : ¬(b == Byte.percent) = true := by
    rw [beq_iff_eq]
    rintro rfl
    cases h
  rw [size, sizeFrom, if_neg hpercent, if_pos h, sizeFrom_eq_add, Nat.zero_add, Nat.add_comm]
  rfl

theorem size_comment {body : List UInt8} {stop : UInt8}
    (hbody : ∀ b ∈ body, Byte.isLineEnd b = false) (hstop : Byte.isLineEnd stop = true)
    (rest : List UInt8) :
    size (Byte.percent :: (body ++ stop :: rest)) = size rest + (body.length + 2) := by
  have hinside : sizeFrom true 0 (body ++ stop :: rest) = body.length + 1 + size rest := by
    induction body with
    | nil =>
      rw [List.nil_append, sizeFrom, hstop, sizeFrom_eq_add]
      rfl
    | cons b body ih =>
      rw [List.cons_append, sizeFrom, hbody b List.mem_cons_self, sizeFrom_eq_add, Bool.not_false,
        ih fun c hc => hbody c (List.mem_cons_of_mem b hc), List.length_cons]
      omega
  have hpercent : size (Byte.percent :: (body ++ stop :: rest))
      = sizeFrom true 1 (body ++ stop :: rest) := rfl
  rw [hpercent, sizeFrom_eq_add, hinside]
  omega

/-- A gap that is closed is read over, and the gap after it. -/
theorem size_append {gap : List UInt8} (h : Closed gap) (rest : List UInt8) :
    size (gap ++ rest) = gap.length + size rest := by
  induction h with
  | nil => exact (Nat.zero_add _).symm
  | blank hb _ ih =>
    rw [List.cons_append, size_blank hb, ih, List.length_cons]
    omega
  | comment hbody hstop _ ih =>
    rw [List.cons_append, List.append_assoc, List.cons_append, size_comment hbody hstop, ih]
    simp only [List.length_cons, List.length_append]
    omega

/-- There is no gap before a byte that is neither a blank nor a percent sign. -/
theorem size_cons {b : UInt8} (hblank : Byte.isBlank b = false) (hpercent : b ≠ Byte.percent)
    (rest : List UInt8) : size (b :: rest) = 0 := by
  rw [size, sizeFrom, if_neg (by rwa [beq_iff_eq]), if_neg (by rw [hblank]; decide)]

/-- Only a gap is left. -/
theorem size_of_closed {gap : List UInt8} (h : Closed gap) : size gap = gap.length := by
  have happend := size_append h []
  rwa [List.append_nil] at happend

end Gap

namespace Reader

/-! ### Rounds -/

/-- The rounds of reading from a place to the end. -/
def rounds (r : Reader) (place : Place) : List Turn := (r.turnsFrom #[] place).toList

theorem turnsFrom_of_none {r : Reader} {place : Place} (h : r.turn? place = none)
    (done : Array Turn) : r.turnsFrom done place = done := by
  rw [turnsFrom]
  split
  · rfl
  · next turn hturn =>
    rw [h] at hturn
    cases hturn

theorem turnsFrom_of_turn {r : Reader} {place : Place} {turn : Turn} (h : r.turn? place = some turn)
    (done : Array Turn) :
    r.turnsFrom done place = turn.reader.turnsFrom (done.push turn) turn.next := by
  rw [turnsFrom]
  split
  · next hnone =>
    rw [h] at hnone
    cases hnone
  · next other hother =>
    obtain rfl : turn = other := Option.some.inj (h.symm.trans hother)
    rfl

/-- The rounds that came before take no part in those that follow. -/
theorem toList_turnsFrom (n : Nat) : ∀ (r : Reader) (place : Place), place.rest.length < n →
    ∀ done : Array Turn, (r.turnsFrom done place).toList = done.toList ++ r.rounds place := by
  -- every round leaves fewer bytes, and their count bounds the rounds that are left
  induction n with
  | zero =>
    intro r place hlength
    exact absurd hlength (Nat.not_lt_zero _)
  | succ n ih =>
    intro r place hlength done
    rcases hturn : r.turn? place with - | turn
    · rw [rounds, turnsFrom_of_none hturn, turnsFrom_of_none hturn, List.append_nil]
    · have hshort : turn.next.rest.length < n :=
        Nat.lt_of_lt_of_le (turn?_shortens hturn) (Nat.le_of_lt_succ hlength)
      rw [rounds, turnsFrom_of_turn hturn, turnsFrom_of_turn hturn, ih _ _ hshort, ih _ _ hshort,
        Array.toList_push, Array.toList_push, List.append_assoc]
      rfl

theorem rounds_of_none {r : Reader} {place : Place} (h : r.turn? place = none) :
    r.rounds place = [] := by
  rw [rounds, turnsFrom_of_none h]

/-- **Reading goes round by round.** -/
theorem rounds_of_turn {r : Reader} {place : Place} {turn : Turn} (h : r.turn? place = some turn) :
    r.rounds place = turn :: turn.reader.rounds turn.next := by
  rw [rounds, turnsFrom_of_turn h, toList_turnsFrom _ _ _ (Nat.lt_succ_self _)]
  rfl

/-- What holds where only a gap is left, and before a round if it holds after it,
holds of every reader at every place. -/
theorem rounds_induction {motive : Reader → Place → Prop}
    (done : ∀ r place, r.turn? place = none → motive r place)
    (step : ∀ r place turn, r.turn? place = some turn → motive turn.reader turn.next →
      motive r place) (r : Reader) (place : Place) : motive r place := by
  rcases hturn : r.turn? place with - | turn
  · exact done r place hturn
  · exact step r place turn hturn (rounds_induction done step turn.reader turn.next)
termination_by place.rest.length
decreasing_by exact turn?_shortens hturn

end Reader

/-! ### Spelled tokens -/

/-- What follows does not go on with a regular byte. -/
def Byte.Boundary (rest : List UInt8) : Prop := ∀ b ∈ rest.head?, Byte.isRegular b = false

/-- The bytes are scanned as the token and no further, whatever follows them
past a boundary. -/
def Token.Spells (bytes : List UInt8) (token : Token) : Prop :=
  ∃ first more, bytes = first :: more ∧ Byte.isBlank first = false ∧ first ≠ Byte.percent
    ∧ ∀ rest, Byte.Boundary rest → Token.scan first (more ++ rest) = .token token more.length

/-- A round at a gap and a byte after it scans from that byte. -/
theorem Reader.turn?_of_cons {r : Reader} {place : Place} {offset : Nat} {first : UInt8}
    {more : List UInt8} (h : place.skip (Gap.size place.rest) = ⟨offset, first :: more⟩) :
    r.turn? place = some
      ⟨⟨offset, first :: more⟩, Token.scan first more,
        (r.take offset (Token.scan first more).found).2,
        (r.take offset (Token.scan first more).found).1,
        resume ⟨offset + ((Token.scan first more).more + 1), more.drop (Token.scan first more).more⟩
          (r.take offset (Token.scan first more).found).2⟩ := by
  rw [turn?]
  simp only [h]
  rfl

/-- A round at a gap and bytes that spell a token takes that token, and leaves
what follows it. -/
theorem Reader.turn?_of_spells (r : Reader) {gap bytes rest : List UInt8} {token : Token}
    (hgap : Gap.Closed gap) (hspells : token.Spells bytes) (hrest : Byte.Boundary rest)
    (offset : Nat) :
    ∃ turn, r.turn? ⟨offset, gap ++ (bytes ++ rest)⟩ = some turn
      ∧ (turn.reader, turn.outcome) = r.take (offset + gap.length) (.ok token)
      ∧ turn.next = resume ⟨offset + gap.length + bytes.length, rest⟩ turn.outcome := by
  obtain ⟨first, more, rfl, hblank, hpercent, hscan⟩ := hspells
  have hsize : Gap.size (gap ++ (first :: more ++ rest)) = gap.length := by
    rw [Gap.size_append hgap, List.cons_append, Gap.size_cons hblank hpercent, Nat.add_zero]
  have hstart : Place.skip ⟨offset, gap ++ (first :: more ++ rest)⟩
      (Gap.size (gap ++ (first :: more ++ rest)))
      = ⟨offset + gap.length, first :: (more ++ rest)⟩ := by
    rw [hsize, Place.skip, List.drop_left, List.cons_append]
  refine ⟨_, turn?_of_cons hstart, ?_⟩
  rw [hscan rest hrest]
  exact ⟨rfl, by rw [Token.Scan.token, List.drop_left, List.length_cons]⟩

/-! ### Tokens in a row -/

/-- The event among what taking a token brings about. -/
def Reader.Outcome.event? : Outcome → Option Event
  | event e => some e
  | _ => none

/-- The events that are delivered when tokens are taken one after the other. -/
def Reader.delivered (r : Reader) : List Token → List Event
  | [] => []
  | token :: rest =>
    (r.take 0 (.ok token)).2.event?.toList ++ delivered (r.take 0 (.ok token)).1 rest

theorem Turn.event?_eq (turn : Turn) : turn.event? = turn.outcome.event? := by
  rw [Turn.event?]
  cases turn.outcome <;> rfl

@[simp] theorem Reader.push_inImageDict (r : Reader) (operand : Operand) :
    (r.push operand).inImageDict = r.inImageDict := by
  unfold push
  split <;> rfl

@[simp] theorem Reader.push_dictDepth (r : Reader) (operand : Operand) :
    (r.push operand).dictDepth = r.dictDepth := by
  unfold push
  split <;> rfl

/-- The outcome without its notice, if it is one. -/
def Reader.Outcome.silenced : Outcome → Outcome
  | notice _ => nothing
  | outcome => outcome

@[simp] theorem Reader.Outcome.event?_silenced (outcome : Outcome) :
    outcome.silenced.event? = outcome.event? := by
  cases outcome <;> rfl

/-- Where a scan was made shows in notices only. -/
theorem Reader.take_offset (r : Reader) (m n : Nat) (found : Except Token.Failure Token) :
    (r.take m found).1 = (r.take n found).1
      ∧ (r.take m found).2.silenced = (r.take n found).2.silenced := by
  rcases found with failure | token
  · exact ⟨rfl, rfl⟩
  by_cases hdict : 0 < r.dictDepth
  · rw [take, take, if_pos hdict, if_pos hdict]
    exact ⟨rfl, rfl⟩
  · rw [take, take, if_neg hdict, if_neg hdict]
    cases token with
    | closeArray =>
      rw [takeOutside, takeOutside]
      cases r.arrays <;> exact ⟨rfl, rfl⟩
    | _ => exact ⟨rfl, rfl⟩

/-- Without an inline image the keyword of image data is like any other. -/
theorem Reader.takeKeyword_of_no_image {r : Reader} {keyword : List UInt8}
    (himage : r.inImageDict = false) (hkeyword : keyword ≠ beginImage) :
    r.takeKeyword keyword
      = if r.arrays.isEmpty then
          ({ r with operands := [] }, .event ⟨Utf8.decode keyword, r.operands.reverse⟩)
        else (r, .notice (.keywordInArray (Utf8.decode keyword))) := by
  rw [takeKeyword, if_neg hkeyword, if_neg (by simp [himage]), if_neg (by simp [himage])]
  cases r.arrays <;> rfl

/-- Without an inline image, a token other than the keyword that begins one
leads to none, and reading goes on right after it. -/
theorem Reader.take_of_no_image {r : Reader} {token : Token} (himage : r.inImageDict = false)
    (htoken : token ≠ .keyword beginImage) (offset : Nat) :
    (r.take offset (.ok token)).1.inImageDict = false
      ∧ ∀ stop, resume stop (r.take offset (.ok token)).2 = stop := by
  rw [take]
  split
  · cases token <;> exact ⟨himage, fun _ => rfl⟩
  · cases token with
    | keyword bytes =>
      have hbytes : bytes ≠ beginImage := fun h => htoken (congrArg Token.keyword h)
      rw [takeOutside, takeKeyword_of_no_image himage hbytes]
      split <;> exact ⟨himage, fun _ => rfl⟩
    | closeArray =>
      rw [takeOutside]
      split
      · exact ⟨himage, fun _ => rfl⟩
      · exact ⟨(push_inImageDict _ _).trans himage, fun _ => rfl⟩
    | number value => exact ⟨(push_inImageDict _ _).trans himage, fun _ => rfl⟩
    | bool value => exact ⟨(push_inImageDict _ _).trans himage, fun _ => rfl⟩
    | name text => exact ⟨(push_inImageDict _ _).trans himage, fun _ => rfl⟩
    | string bytes => exact ⟨(push_inImageDict _ _).trans himage, fun _ => rfl⟩
    | _ => exact ⟨himage, fun _ => rfl⟩

/-- Bytes between two tokens: a closed gap that is not empty. -/
structure Separator where
  bytes : List UInt8
  closed : Gap.Closed bytes
  nonempty : bytes ≠ []

/-- A token ends where a separator begins. -/
theorem Separator.boundary (separator : Separator) (rest : List UInt8) :
    Byte.Boundary (separator.bytes ++ rest) := by
  obtain ⟨bytes, hclosed, hnonempty⟩ := separator
  -- a closed gap starts with a blank or a percent sign
  rintro b hb
  cases hclosed with
  | nil => exact absurd rfl hnonempty
  | blank hblank _ =>
    obtain rfl := Option.some.inj hb
    rw [Byte.isRegular, hblank]
    rfl
  | comment _ _ _ =>
    obtain rfl := Option.some.inj hb
    rfl

/-- Bytes together with the token that they spell. -/
structure Lexeme where
  bytes : List UInt8
  token : Token
  spells : token.Spells bytes

/-- The bytes of lexemes one after the other, the `n`th with the `n`th separator
after it. -/
def spaced : (Nat → Separator) → List Lexeme → List UInt8
  | _, [] => []
  | separators, lexeme :: rest =>
    lexeme.bytes ++ ((separators 0).bytes ++ spaced (fun n => separators (n + 1)) rest)

/-- **Spelled tokens are taken in order**, and deliver the events of the bytes. -/
theorem Reader.events_spaced (lexemes : List Lexeme) :
    ∀ r : Reader, r.inImageDict = false →
      (∀ lexeme ∈ lexemes, lexeme.token ≠ .keyword beginImage) →
      ∀ (separators : Nat → Separator) {gap : List UInt8}, Gap.Closed gap → ∀ offset : Nat,
        (r.rounds ⟨offset, gap ++ spaced separators lexemes⟩).filterMap Turn.event?
          = r.delivered (lexemes.map Lexeme.token) := by
  induction lexemes with
  | nil =>
    intro r _ _ separators gap hgap offset
    have hnone : r.turn? ⟨offset, gap ++ spaced separators []⟩ = none := by
      rw [spaced, List.append_nil, turn?]
      simp only [Place.skip, Gap.size_of_closed hgap, List.drop_length]
    rw [rounds_of_none hnone]
    rfl
  | cons lexeme rest ih =>
    intro r himage htokens separators gap hgap offset
    obtain ⟨turn, hturn, htaken, hnext⟩ := r.turn?_of_spells hgap lexeme.spells
      ((separators 0).boundary (spaced (fun n => separators (n + 1)) rest)) offset
    have hreader : turn.reader = (r.take (offset + gap.length) (.ok lexeme.token)).1 :=
      congrArg Prod.fst htaken
    have houtcome : turn.outcome = (r.take (offset + gap.length) (.ok lexeme.token)).2 :=
      congrArg Prod.snd htaken
    obtain ⟨hquiet, hresume⟩ :=
      take_of_no_image himage (htokens lexeme List.mem_cons_self) (offset + gap.length)
    obtain ⟨hafter, hsilenced⟩ := r.take_offset (offset + gap.length) 0 (.ok lexeme.token)
    have hevent := congrArg Outcome.event? hsilenced
    rw [Outcome.event?_silenced, Outcome.event?_silenced] at hevent
    rw [← hreader] at hquiet hafter
    rw [← houtcome] at hresume hevent
    -- the separator just read past the token is the gap of the next round
    have hrest := ih _ hquiet (fun l hl => htokens l (List.mem_cons_of_mem _ hl))
      (fun n => separators (n + 1)) (separators 0).closed
      (offset + gap.length + lexeme.bytes.length)
    rw [spaced, rounds_of_turn hturn, hnext, hresume, List.map_cons, delivered, ← hafter, ← hevent,
      ← hrest, ← Turn.event?_eq]
    rcases h : turn.event? with - | event
    · rw [List.filterMap_cons_none h]
      rfl
    · rw [List.filterMap_cons_some h]
      rfl

end PageText
