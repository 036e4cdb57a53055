/-
PageText/Proofs/Extents.lean

The bytes that a round of reading takes up.  At the head of any bytes there is
a gap, and then either nothing or a byte that a token starts with
(`Gap.splits`); a round takes up the gap, the token and the data of an image,
if the token announces it, one right after the other:

    place.rest = gap ++ first :: (body ++ (data ++ turn.next.rest))

The parts of a round, with their offsets and what was found in them, are told by
`Turn.Reads` (`Reader.exists_reads`).  They stay as they are when the bytes after
the round are replaced by others that start with a blank or with the same byte.

Main results: `Reader.exists_reads` and `Reader.turn?_replace`.
-/
import PageText.Proofs.Continuation

namespace PageText

/-! ### Gaps -/

namespace Gap

/-- The bytes are blanks and comments, of which the last may lack its line end. -/
inductive Trailing : List UInt8 → Prop where
  | closed {gap : List UInt8} : Closed gap → Trailing gap
  | comment {gap body : List UInt8} : Closed gap → (∀ b ∈ body, Byte.isLineEnd b = false) →
    Trailing (gap ++ Byte.percent :: body)

/-- What the bytes start with: they are a gap throughout, or a closed gap comes
before a byte that is neither a blank nor a percent sign. -/
inductive Splits : List UInt8 → Prop where
  | ended {gap : List UInt8} : Trailing gap → Splits gap
  | before {gap : List UInt8} {first : UInt8} {rest : List UInt8} : Closed gap →
    Byte.isBlank first = false → first ≠ Byte.percent → Splits (gap ++ first :: rest)

theorem Closed.append {gap gap' : List UInt8} (h : Closed gap) (h' : Closed gap') :
    Closed (gap ++ gap') := by
  induction h with
  | nil => exact h'
  | blank hb _ ih => exact .blank hb ih
  | @comment body rest stop hbody hstop _ ih =>
    rw [List.cons_append, List.append_assoc, List.cons_append]
    exact .comment hbody hstop ih

/-- A closed gap goes on into what stands after it. -/
theorem Splits.append {gap bytes : List UInt8} (hgap : Closed gap) (h : Splits bytes) :
    Splits (gap ++ bytes) := by
  cases h with
  | ended h =>
    cases h with
    | closed h => exact .ended (.closed (hgap.append h))
    | comment h hbody =>
      rw [← List.append_assoc]
      exact .ended (.comment (hgap.append h) hbody)
  | before h hblank hpercent =>
    rw [← List.append_assoc]
    exact .before (hgap.append h) hblank hpercent

/-- A comment ends at the first line end, if there is one. -/
theorem exists_lineEnd (bytes : List UInt8) :
    (∀ b ∈ bytes, Byte.isLineEnd b = false)
      ∨ ∃ body stop rest, bytes = body ++ stop :: rest
        ∧ (∀ b ∈ body, Byte.isLineEnd b = false) ∧ Byte.isLineEnd stop = true := by
  have hrun := exists_run (fun b => !Byte.isLineEnd b) bytes
  simpa only [Bool.not_eq_true', Bool.not_eq_false'] using hrun

/-- **All bytes start with a gap**, and then they are over or a token starts. -/
theorem splits (bytes : List UInt8) : Splits bytes := by
  rcases bytes with - | ⟨first, bytes⟩
  · exact .ended (.closed .nil)
  rcases hblank : Byte.isBlank first with - | -
  · by_cases hpercent : first = Byte.percent
    · subst hpercent
      rcases exists_lineEnd bytes with hall | ⟨body, stop, rest, rfl, hbody, hstop⟩
      · exact .ended (.comment .nil hall)
      · have hgap : Closed (Byte.percent :: (body ++ [stop])) := .comment hbody hstop .nil
        have happend := (splits rest).append hgap
        rwa [List.cons_append, List.append_assoc, List.singleton_append] at happend
    · exact .before .nil hblank hpercent
  · exact (splits bytes).append (.blank hblank .nil)
termination_by bytes.length

/-- A comment without a line end takes up the bytes. -/
theorem size_of_trailing {gap : List UInt8} (h : Trailing gap) : size gap = gap.length := by
  cases h with
  | closed h => exact size_of_closed h
  | @comment gap body h hbody =>
    have hinside : sizeFrom true 0 body = body.length := by
      induction body with
      | nil => rfl
      | cons b body ih =>
        rw [sizeFrom, hbody b List.mem_cons_self, sizeFrom_eq_add, Bool.not_false,
          ih fun c hc => hbody c (List.mem_cons_of_mem b hc), List.length_cons]
        omega
    have hpercent : size (Byte.percent :: body) = sizeFrom true 1 body := rfl
    rw [size_append h, hpercent, sizeFrom_eq_add, hinside, List.length_append, List.length_cons]
    omega

end Gap

/-! ### Rounds -/

/-- The place is one of the bytes: those before it are as many as its offset says. -/
def Place.Within (place : Place) (bytes : List UInt8) : Prop :=
  ∃ before, bytes = before ++ place.rest ∧ place.offset = before.length

theorem Place.within_head (bytes : List UInt8) : Place.Within ⟨0, bytes⟩ bytes := ⟨[], rfl, rfl⟩

theorem Place.Within.drop {place : Place} {bytes : List UInt8} (h : place.Within bytes) :
    bytes.drop place.offset = place.rest := by
  obtain ⟨before, hbytes, hoffset⟩ := h
  rw [hbytes, hoffset, List.drop_left]

theorem Place.Within.length {place : Place} {bytes : List UInt8} (h : place.Within bytes) :
    place.offset + place.rest.length = bytes.length := by
  obtain ⟨before, hbytes, hoffset⟩ := h
  rw [hbytes, hoffset, List.length_append]

/-- The place after some of the bytes of another one. -/
theorem Place.Within.after {place : Place} {bytes : List UInt8} (h : place.Within bytes)
    {taken rest : List UInt8} (hrest : place.rest = taken ++ rest) :
    Place.Within ⟨place.offset + taken.length, rest⟩ bytes := by
  obtain ⟨before, hbytes, hoffset⟩ := h
  refine ⟨before ++ taken, ?_, ?_⟩
  · rw [hbytes, hrest, List.append_assoc]
  · rw [hoffset, List.length_append]

/-- No token was found in the round. -/
def Turn.rejected (turn : Turn) : Bool :=
  match turn.scan.found with
  | .error _ => true
  | .ok _ => false

/-- What stands from the bytes of a token on. -/
structure Turn.Reads (r : Reader) (place : Place) (turn : Turn) (gap : List UInt8) (first : UInt8)
    (body data : List UInt8) : Prop where
  bytes : place.rest = gap ++ first :: (body ++ (data ++ turn.next.rest))
  closed : Gap.Closed gap
  blank : Byte.isBlank first = false
  percent : first ≠ Byte.percent
  start : turn.start
    = ⟨place.offset + gap.length, first :: (body ++ (data ++ turn.next.rest))⟩
  scan : turn.scan = Token.scan first (body ++ (data ++ turn.next.rest))
  more : turn.scan.more = body.length
  taken : (turn.reader, turn.outcome) = r.take turn.start.offset turn.scan.found
  next : turn.next = Reader.resume
    ⟨turn.start.offset + (body.length + 1), data ++ turn.next.rest⟩ turn.outcome
  offset : turn.next.offset = turn.start.offset + (body.length + 1) + data.length
  quiet : turn.outcome ≠ .imageData → data = []

namespace Reader

/-- A gap is read over before a round. -/
theorem turn?_gap (r : Reader) {gap : List UInt8} (hgap : Gap.Closed gap) (offset : Nat)
    (rest : List UInt8) :
    r.turn? ⟨offset, gap ++ rest⟩ = r.turn? ⟨offset + gap.length, rest⟩ := by
  have hstart : Place.skip ⟨offset, gap ++ rest⟩ (Gap.size (gap ++ rest))
      = Place.skip ⟨offset + gap.length, rest⟩ (Gap.size rest) := by
    rw [Gap.size_append hgap, Place.skip, Place.skip, List.drop_length_add_append, Nat.add_assoc]
  rw [turn?, turn?]
  simp only [hstart]

theorem turn?_of_trailing (r : Reader) {gap : List UInt8} (hgap : Gap.Trailing gap)
    (offset : Nat) : r.turn? ⟨offset, gap⟩ = none :=
  turn?_eq_none_iff.mpr (Gap.size_of_trailing hgap)

/-- A round at the first byte of a token. -/
theorem turn?_cons (r : Reader) {first : UInt8} (hblank : Byte.isBlank first = false)
    (hpercent : first ≠ Byte.percent) (offset : Nat) (rest : List UInt8) :
    r.turn? ⟨offset, first :: rest⟩ = some
      ⟨⟨offset, first :: rest⟩, Token.scan first rest,
        (r.take offset (Token.scan first rest).found).2,
        (r.take offset (Token.scan first rest).found).1,
        resume ⟨offset + ((Token.scan first rest).more + 1), rest.drop (Token.scan first rest).more⟩
          (r.take offset (Token.scan first rest).found).2⟩ := by
  refine turn?_of_cons ?_
  rw [Gap.size_cons hblank hpercent]
  rfl

/-- Only a gap is left where no round is made. -/
theorem trailing_of_turn? {r : Reader} {place : Place} (h : r.turn? place = none) :
    Gap.Trailing place.rest := by
  obtain ⟨offset, rest⟩ := place
  cases Gap.splits rest with
  | ended hgap => exact hgap
  | before hgap hblank hpercent =>
    rw [turn?_gap r hgap, turn?_cons r hblank hpercent] at h
    cases h

/-- A round is made after a gap, at the first byte of a token, and its parts are
those of the scan there. -/
theorem exists_scan {r : Reader} {place : Place} {turn : Turn} (h : r.turn? place = some turn) :
    ∃ gap first rest, place.rest = gap ++ first :: rest
      ∧ Gap.Closed gap ∧ Byte.isBlank first = false ∧ first ≠ Byte.percent
      ∧ turn.start = ⟨place.offset + gap.length, first :: rest⟩
      ∧ turn.scan = Token.scan first rest
      ∧ (turn.reader, turn.outcome) = r.take turn.start.offset turn.scan.found
      ∧ turn.next = resume ⟨turn.start.offset + (turn.scan.more + 1), rest.drop turn.scan.more⟩
        turn.outcome := by
  obtain ⟨offset, bytes⟩ := place
  cases Gap.splits bytes with
  | ended hgap =>
    rw [turn?_of_trailing r hgap] at h
    cases h
  | @before gap first rest hgap hblank hpercent =>
    rw [turn?_gap r hgap, turn?_cons r hblank hpercent] at h
    obtain rfl := Option.some.inj h
    exact ⟨gap, first, rest, rfl, hgap, hblank, hpercent, rfl, rfl, rfl, rfl⟩

/-- Where reading goes on after a token is some bytes further on, none unless the
token announces the data of an image. -/
theorem exists_resume (stop : Place) (outcome : Outcome) :
    ∃ data, stop.rest = data ++ (resume stop outcome).rest
      ∧ (resume stop outcome).offset = stop.offset + data.length
      ∧ (outcome ≠ .imageData → data = []) := by
  cases outcome with
  | imageData =>
    have hlength := List.length_take_of_le (ImageData.size_le_length stop.rest)
    refine ⟨stop.rest.take (ImageData.size stop.rest), ?_, ?_, fun h => absurd rfl h⟩
    · exact (List.take_append_drop _ _).symm
    · rw [hlength]
      rfl
  | _ => exact ⟨[], rfl, rfl, fun _ => rfl⟩

/-- **The parts of a round** stand one right after the other. -/
theorem exists_reads {r : Reader} {place : Place} {turn : Turn} (h : r.turn? place = some turn) :
    ∃ gap first body data, turn.Reads r place gap first body data := by
  obtain ⟨gap, first, rest, hbytes, hgap, hblank, hpercent, hstart, hscan, htaken, hnext⟩ :=
    exists_scan h
  -- the token is as long as its scan says
  have hmore : turn.scan.more ≤ rest.length := by
    rw [hscan]
    exact Token.scan_more_le first rest
  have hbody := List.length_take_of_le hmore
  obtain ⟨data, hdata, hoffset, hquiet⟩ := exists_resume
    ⟨turn.start.offset + (turn.scan.more + 1), rest.drop turn.scan.more⟩ turn.outcome
  rw [← hnext] at hdata hoffset
  have hall : rest.take turn.scan.more ++ (data ++ turn.next.rest) = rest := by
    rw [← hdata]
    exact List.take_append_drop _ _
  refine ⟨gap, first, rest.take turn.scan.more, data, ?_⟩
  constructor
  case bytes => rw [hall, hbytes]
  case closed => exact hgap
  case blank => exact hblank
  case percent => exact hpercent
  case start => rw [hall, hstart]
  case scan => rw [hall, hscan]
  case more => exact hbody.symm
  case taken => exact htaken
  case next => rw [← hdata, hbody, ← hnext]
  case offset => rw [hoffset, hbody]
  case quiet => exact hquiet

/-- Each of the rounds is made somewhere, and what rounds preserve holds there. -/
theorem exists_of_mem_rounds {P : Place → Prop}
    (hstep : ∀ (r : Reader) place turn, P place → r.turn? place = some turn → P turn.next)
    (r : Reader) (place : Place) (hplace : P place) :
    ∀ turn ∈ r.rounds place, ∃ (r' : Reader) (place' : Place),
      P place' ∧ r'.turn? place' = some turn := by
  induction r, place using rounds_induction with
  | done r place h =>
    rw [rounds_of_none h]
    exact fun turn hturn => absurd hturn List.not_mem_nil
  | step r place turn h ih =>
    rw [rounds_of_turn h]
    refine List.forall_mem_cons.mpr ⟨⟨r, place, hplace, h⟩, ?_⟩
    exact ih (hstep r place turn hplace h)

end Reader

namespace Turn.Reads

variable {r : Reader} {place : Place} {turn : Turn} {gap : List UInt8} {first : UInt8}
  {body data bytes : List UInt8}

theorem start_offset (h : turn.Reads r place gap first body data) :
    turn.start.offset = place.offset + gap.length := congrArg Place.offset h.start

theorem start_within (h : turn.Reads r place gap first body data) (hplace : place.Within bytes) :
    turn.start.Within bytes := by
  rw [h.start]
  exact hplace.after h.bytes

theorem next_within (h : turn.Reads r place gap first body data) (hplace : place.Within bytes) :
    turn.next.Within bytes := by
  have hrest : turn.start.rest = first :: (body ++ data) ++ turn.next.rest := by
    rw [h.start, List.cons_append, List.append_assoc]
  have hoffset : turn.start.offset + (first :: (body ++ data)).length = turn.next.offset := by
    rw [h.offset, List.length_cons, List.length_append]
    omega
  have hafter := (h.start_within hplace).after hrest
  rw [hoffset] at hafter
  exact hafter

end Turn.Reads

/-- A round leads from one place of the bytes to another one. -/
theorem Reader.within_next {bytes : List UInt8} (r : Reader) (place : Place) (turn : Turn)
    (hplace : place.Within bytes) (h : r.turn? place = some turn) : turn.next.Within bytes := by
  obtain ⟨gap, first, body, data, hreads⟩ := exists_reads h
  exact hreads.next_within hplace

/-! ### Tokens at their places -/

/-- What a scan from a place comes to: the token, or the error with its offset in the
content, and the place after what was read. -/
def Token.Scan.located (scan : Scan) (start : Place) : Except Error Token × Place :=
  (scan.found.mapError (·.error start.offset), start.skip (scan.more + 1))

/-- A scan that took all of `body` after the first byte goes on with what follows it. -/
theorem Token.Scan.located_of_more {scan : Scan} {body : List UInt8} (h : scan.more = body.length)
    (start : Nat) (first : UInt8) (after : List UInt8) :
    scan.located ⟨start, first :: (body ++ after)⟩
      = (scan.found.mapError (·.error start), ⟨start + (body.length + 1), after⟩) := by
  rw [located, Place.skip, h, List.drop_succ_cons, List.drop_left]

/-- What a round comes to: the token or the error, and the place where the next round
starts. -/
def Turn.located (turn : Turn) : Except Error Token × Place :=
  (turn.scan.found.mapError (·.error turn.start.offset), turn.next)

namespace Reader

/-- Only a keyword announces the data of an image. -/
theorem take_ne_imageData (r : Reader) (offset : Nat) {found : Except Token.Failure Token}
    (hfound : ∀ bytes, found ≠ .ok (.keyword bytes)) : (r.take offset found).2 ≠ .imageData := by
  rcases found with failure | token
  · exact fun h => by cases h
  · rw [take]
    split
    · cases token <;> exact fun h => by cases h
    · cases token with
      | keyword bytes => exact absurd rfl (hfound bytes)
      | closeArray =>
        rw [takeOutside]
        split <;> exact fun h => by cases h
      | _ => exact fun h => by cases h

theorem resume_of_ne {outcome : Outcome} (h : outcome ≠ .imageData) (stop : Place) :
    resume stop outcome = stop := by
  cases outcome with
  | imageData => exact absurd rfl h
  | _ => rfl

/-- A round at a token other than a keyword comes to what its scan comes to. -/
theorem located_turn? (r : Reader) {first : UInt8} {rest : List UInt8}
    (hblank : Byte.isBlank first = false) (hpercent : first ≠ Byte.percent)
    (hfound : ∀ bytes, (Token.scan first rest).found ≠ .ok (.keyword bytes)) (offset : Nat) :
    (r.turn? ⟨offset, first :: rest⟩).map Turn.located
      = some ((Token.scan first rest).located ⟨offset, first :: rest⟩) := by
  rw [turn?_cons r hblank hpercent, Option.map_some, Turn.located,
    resume_of_ne (r.take_ne_imageData offset hfound)]
  rfl

end Reader

/-! ### Bytes after a round -/

namespace Reader

theorem resume_replace {rest other data : List UInt8} (hother : Byte.StartsLike other rest)
    (hend : rest = [] → other = []) {offset : Nat} {outcome : Outcome}
    (h : resume ⟨offset, data ++ rest⟩ outcome = ⟨offset + data.length, rest⟩) :
    resume ⟨offset, data ++ other⟩ outcome = ⟨offset + data.length, other⟩ := by
  have hoffset := congrArg Place.offset h
  cases outcome with
  | imageData =>
    have hsize : ImageData.size (data ++ rest) = data.length := Nat.add_left_cancel hoffset
    rw [resume, ImageData.size_replace hother hend hsize, Place.skip, List.drop_left]
  | _ =>
    have hdata : data = [] := by
      rw [← List.length_eq_zero_iff]
      exact (Nat.add_eq_left.mp hoffset.symm)
    rw [hdata]
    rfl

/-- **A round does not change with what follows it**, as long as that starts with a
blank or with the same byte, and is nothing where it was nothing. -/
theorem turn?_replace {r : Reader} {place : Place} {turn : Turn} {gap : List UInt8} {first : UInt8}
    {body data other : List UInt8} (h : turn.Reads r place gap first body data)
    (hended : turn.scan.found ≠ .error .ended) (hother : Byte.StartsLike other turn.next.rest)
    (hend : turn.next.rest = [] → other = []) :
    r.turn? ⟨place.offset, gap ++ first :: (body ++ (data ++ other))⟩
      = some ⟨⟨turn.start.offset, first :: (body ++ (data ++ other))⟩, turn.scan, turn.outcome,
        turn.reader, ⟨turn.next.offset, other⟩⟩ := by
  have hmore := h.more
  rw [h.scan] at hended hmore
  have hscan : Token.scan first (body ++ (data ++ other)) = turn.scan := by
    rw [h.scan]
    exact Token.scan_replace hended hmore (hother.append data)
  have hnext : resume ⟨turn.start.offset + (body.length + 1), data ++ other⟩ turn.outcome
      = ⟨turn.next.offset, other⟩ := by
    rw [h.offset]
    refine resume_replace hother hend ?_
    rw [← h.next, ← h.offset]
  rw [turn?_gap r h.closed, turn?_cons r h.blank h.percent, hscan, ← h.start_offset, ← h.taken,
    h.more, List.drop_left, hnext]

end Reader

end PageText
