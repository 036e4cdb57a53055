/-
PageText/Content/Reader.lean

Reading a content stream as events.

A reader takes one token at a time.  Operands pile up until a keyword arrives
and takes them along as an event; brackets gather operands into arrays, which
may nest.  Dictionaries are read over.  Inline images are too: between the
keywords `BI` and `ID` no keyword counts, and after `ID` the data is read over
without looking for tokens in it.

`turn?` is one round of reading: over a gap, one token, and the data of an
image if the token announces it.  `turns` is the whole reading as a list of
rounds, each with the place where its token stands, what was found, and the
reader after it; events and notices are read off it.  Every round consumes at
least one byte, so reading ends on every input.
-/
import PageText.Content.Event
import PageText.Content.Gap
import PageText.Content.Token
import PageText.Notice

namespace PageText

/-! ### Taking tokens -/

/-- What a reader has gathered and not delivered yet. -/
structure Reader where
  /-- The operands since the last keyword, newest first. -/
  operands : List Operand := []
  /-- The arrays that are open, innermost first, the items of each newest first. -/
  arrays : List (List Operand) := []
  /-- How many dictionaries are open. -/
  dictDepth : Nat := 0
  /-- The reader stands between `BI` and `ID`. -/
  inImageDict : Bool := false

namespace Reader

/-- What taking a token brings about outside the reader. -/
inductive Outcome where
  | nothing
  | event (event : Event)
  | notice (notice : Notice)
  /-- Image data follows. -/
  | imageData

/-- Adds an operand to the innermost open array, or to the operands. -/
def push (r : Reader) (operand : Operand) : Reader :=
  match r.arrays with
  | [] => { r with operands := operand :: r.operands }
  | items :: outer => { r with arrays := (operand :: items) :: outer }

/-- The keyword that begins an inline image. -/
def beginImage : List UInt8 := [0x42, 0x49]

/-- The keyword that the data of an inline image follows. -/
def beginImageData : List UInt8 := [0x49, 0x44]

/-- Takes a keyword outside of dictionaries. -/
def takeKeyword (r : Reader) (keyword : List UInt8) : Reader × Outcome :=
  if keyword = beginImage then
    ({ r with inImageDict := true, operands := [] }, .nothing)
  else if keyword = beginImageData ∧ r.inImageDict then
    ({ r with inImageDict := false, operands := [] }, .imageData)
  else if r.inImageDict then (r, .nothing)
  else if !r.arrays.isEmpty then (r, .notice (.keywordInArray (Utf8.decode keyword)))
  else
    ({ r with operands := [] }, .event ⟨Utf8.decode keyword, r.operands.reverse⟩)

/-- Takes a token that stands at `offset` outside of dictionaries. -/
def takeOutside (r : Reader) (offset : Nat) : Token → Reader × Outcome
  | .number value => (r.push (.number value), .nothing)
  | .bool value => (r.push (.bool value), .nothing)
  | .name text => (r.push (.name text), .nothing)
  | .string bytes => (r.push (.text (Latin1.decode bytes)), .nothing)
  | .openArray => ({ r with arrays := [] :: r.arrays }, .nothing)
  | .closeArray =>
    match r.arrays with
    | [] => (r, .notice (.strayBracket offset))
    | items :: outer => ({ r with arrays := outer }.push (.array items.reverse), .nothing)
  | .openDict => ({ r with dictDepth := 1 }, .nothing)
  | .closeDict => (r, .notice (.strayDictEnd offset))
  | .keyword bytes => r.takeKeyword bytes

/-- Takes a token within dictionaries, where only their ends and further
dictionaries count. -/
def takeInside (r : Reader) : Token → Reader × Outcome
  | .openDict => ({ r with dictDepth := r.dictDepth + 1 }, .nothing)
  | .closeDict => ({ r with dictDepth := r.dictDepth - 1 }, .nothing)
  | _ => (r, .nothing)

/-- Takes what a scan found at `offset`. -/
def take (r : Reader) (offset : Nat) : Except Token.Failure Token → Reader × Outcome
  | .error failure => (r, .notice (.badToken (failure.error offset)))
  | .ok token => if 0 < r.dictDepth then r.takeInside token else r.takeOutside offset token

end Reader

/-! ### Rounds of reading -/

/-- A place in a content stream: an offset and the bytes from there on. -/
structure Place where
  offset : Nat
  rest : List UInt8

/-- The place `n` bytes further on. -/
def Place.skip (place : Place) (n : Nat) : Place := ⟨place.offset + n, place.rest.drop n⟩

/-- One round of reading. -/
structure Turn where
  /-- Where the token starts, after the gap before it. -/
  start : Place
  /-- What was found there. -/
  scan : Token.Scan
  /-- What it brought about. -/
  outcome : Reader.Outcome
  /-- The reader after the round. -/
  reader : Reader
  /-- Where the next round starts. -/
  next : Place

namespace Turn

/-- The event that the round delivered. -/
def event? (turn : Turn) : Option Event :=
  match turn.outcome with
  | .event e => some e
  | _ => none

/-- The notice that the round gave. -/
def notice? (turn : Turn) : Option Notice :=
  match turn.outcome with
  | .notice n => some n
  | _ => none

end Turn

namespace Reader

/-- Where reading goes on after a token that ends at `stop`. -/
def resume (stop : Place) : Outcome → Place
  | .imageData => stop.skip (ImageData.size stop.rest)
  | _ => stop

/-- One round of reading at a place; nothing when only a gap is left. -/
def turn? (r : Reader) (place : Place) : Option Turn :=
  let start := place.skip (Gap.size place.rest)
  match start.rest with
  | [] => none
  | b :: rest =>
    let scan := Token.scan b rest
    let (after, outcome) := r.take start.offset scan.found
    some ⟨start, scan, outcome, after, resume (start.skip (scan.more + 1)) outcome⟩

theorem length_resume_le (stop : Place) (outcome : Outcome) :
    (resume stop outcome).rest.length ≤ stop.rest.length := by
  cases outcome <;> simp [resume, Place.skip]

/-- A round leaves fewer bytes than it found. -/
theorem turn?_shortens {r : Reader} {place : Place} {turn : Turn}
    (h : r.turn? place = some turn) : turn.next.rest.length < place.rest.length := by
  simp only [turn?] at h
  split at h
  · simp at h
  · next b rest hstart =>
    obtain rfl := Option.some.inj h
    have hlen := congrArg List.length hstart
    simp only [Place.skip, List.length_drop, List.length_cons] at hlen
    refine Nat.lt_of_le_of_lt (length_resume_le _ _) ?_
    simp only [Place.skip, List.length_drop]
    omega

/-- The rounds of reading from a place to the end, after those in `done`. -/
def turnsFrom (done : Array Turn) (r : Reader) (place : Place) : Array Turn :=
  match _h : r.turn? place with
  | none => done
  | some turn => turnsFrom (done.push turn) turn.reader turn.next
termination_by place.rest.length
decreasing_by exact turn?_shortens ‹_›

/-- The rounds in which a reader reads the bytes. -/
def turns (r : Reader) (bytes : List UInt8) : List Turn := (r.turnsFrom #[] ⟨0, bytes⟩).toList

end Reader

/-! ### Reading a whole stream -/

namespace Content

/-- The events of a content stream. -/
def events (bytes : List UInt8) : List Event := (Reader.turns {} bytes).filterMap Turn.event?

/-- What was reported while the events were read. -/
def notices (bytes : List UInt8) : List Notice := (Reader.turns {} bytes).filterMap Turn.notice?

end Content

end PageText
