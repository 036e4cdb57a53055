/-
PageText/Proofs/Delivery.lean

Events one at a time, and how many there can be.  A parser is a reader and the
place where it stands; asked for the next event it makes rounds until one of them
delivers an event or only a gap is left (`Parser.next`).  Its answers are the
events of the stream in order, and nothing from then on (`Parser.answer_eq`).

A round takes up one byte at least, and brings at most one event or operand into
the world: a token is an operand, opens an array that will be one, or delivers
what the reader holds (`Reader.weight_take_le`).  So events and the nodes of their
operands are together no more than the bytes.

Main result: `Content.spans_and_answers`, with the tiling of the stream.
-/
import PageText.Proofs.Tiling

namespace PageText

/-! ### Events one at a time -/

/-- A reader and the place where it stands. -/
structure Parser where
  reader : Reader := {}
  place : Place

namespace Parser

/-- A parser at the head of the bytes. -/
def ofBytes (bytes : List UInt8) : Parser := { place := ⟨0, bytes⟩ }

/-- The next event, if there is one, and the parser after it. -/
def next (parser : Parser) : Option Event × Parser :=
  match _h : parser.reader.turn? parser.place with
  | none => (none, { parser with place := parser.place.skip (Gap.size parser.place.rest) })
  | some turn =>
    match turn.event? with
    | some event => (some event, ⟨turn.reader, turn.next⟩)
    | none => next ⟨turn.reader, turn.next⟩
termination_by parser.place.rest.length
decreasing_by exact Reader.turn?_shortens ‹_›

/-- The answer to the call after `n` others. -/
def answer (parser : Parser) : (n : Nat) → Option Event
  | 0 => parser.next.1
  | n + 1 => parser.next.2.answer n

/-- The events that are still to come. -/
def events (parser : Parser) : List Event := parser.reader.eventsFrom parser.place

theorem next_of_none {r : Reader} {place : Place} (h : r.turn? place = none) :
    next ⟨r, place⟩ = (none, ⟨r, place.skip (Gap.size place.rest)⟩) := by
  rw [next]
  split
  · rfl
  · next turn hturn =>
    rw [h] at hturn
    cases hturn

theorem next_of_turn {r : Reader} {place : Place} {turn : Turn} (h : r.turn? place = some turn) :
    next ⟨r, place⟩
      = match turn.event? with
        | some event => (some event, ⟨turn.reader, turn.next⟩)
        | none => next ⟨turn.reader, turn.next⟩ := by
  rw [next]
  split
  · next hnone =>
    rw [h] at hnone
    cases hnone
  · next other hother =>
    obtain rfl : turn = other := Option.some.inj (h.symm.trans hother)
    rfl

/-- **A call answers with the first event** that is still to come, and leaves the
others. -/
theorem next_eq (r : Reader) (place : Place) :
    (next ⟨r, place⟩).1 = (r.eventsFrom place).head?
      ∧ (next ⟨r, place⟩).2.events = (r.eventsFrom place).tail := by
  induction r, place using Reader.rounds_induction with
  | done r place h =>
    rw [next_of_none h, Reader.eventsFrom_of_none h]
    -- the gap is read over, and nothing is left behind it
    have hrest : (place.skip (Gap.size place.rest)).rest = [] := by
      rw [Reader.turn?_eq_none_iff.mp h]
      exact List.drop_length
    have hlast : r.turn? (place.skip (Gap.size place.rest)) = none := by
      rw [Reader.turn?_eq_none_iff, hrest]
      rfl
    exact ⟨rfl, Reader.eventsFrom_of_none hlast⟩
  | step r place turn h ih =>
    rw [next_of_turn h, Reader.eventsFrom_of_turn h]
    rcases turn.event? with - | event
    · exact ih
    · exact ⟨rfl, rfl⟩

/-- **The answers are the events in order**, and nothing after the last one. -/
theorem answer_eq (n : Nat) : ∀ parser : Parser, parser.answer n = parser.events[n]? := by
  induction n with
  | zero =>
    intro parser
    rw [answer, (next_eq parser.reader parser.place).1, List.head?_eq_getElem?]
    rfl
  | succ n ih =>
    intro parser
    rw [answer, ih, (next_eq parser.reader parser.place).2, List.getElem?_tail]
    rfl

end Parser

/-! ### Nodes -/

namespace Operand

mutual

/-- The nodes of an operand: itself, and for an array those of its items. -/
def nodes : Operand → Nat
  | array items => nodesAll items + 1
  | _ => 1

/-- The nodes of operands. -/
def nodesAll : List Operand → Nat
  | [] => 0
  | operand :: rest => operand.nodes + nodesAll rest

end

theorem nodesAll_append (first second : List Operand) :
    nodesAll (first ++ second) = nodesAll first + nodesAll second := by
  induction first with
  | nil => exact (Nat.zero_add _).symm
  | cons operand rest ih => rw [List.cons_append, nodesAll, nodesAll, ih, Nat.add_assoc]

theorem nodesAll_reverse (operands : List Operand) :
    nodesAll operands.reverse = nodesAll operands := by
  induction operands with
  | nil => rfl
  | cons operand rest ih =>
    rw [List.reverse_cons, nodesAll_append, ih, nodesAll, nodesAll, nodesAll, Nat.add_zero,
      Nat.add_comm]

end Operand

/-- An event counts once, and so does every node of its operands. -/
def Event.weight (event : Event) : Nat := Operand.nodesAll event.operands + 1

namespace Reader

/-- What the reader has gathered: the nodes of the operands, and the open arrays
with the nodes of their items. -/
def weight (r : Reader) : Nat :=
  Operand.nodesAll r.operands + (r.arrays.map fun items => Operand.nodesAll items + 1).sum

/-- What is delivered. -/
def Outcome.weight (outcome : Outcome) : Nat := (outcome.event?.map Event.weight).getD 0

theorem weight_push (r : Reader) (operand : Operand) :
    (r.push operand).weight = r.weight + operand.nodes := by
  rw [push]
  split
  · next h =>
    simp only [weight, h, Operand.nodesAll, List.map_nil, List.sum_nil]
    omega
  · next items outer h =>
    simp only [weight, h, Operand.nodesAll, List.map_cons, List.sum_cons]
    omega

/-- Without its operands a reader has only its arrays. -/
theorem weight_of_no_operands {r r' : Reader} (hoperands : r'.operands = [])
    (harrays : r'.arrays = r.arrays) : r.weight = Operand.nodesAll r.operands + r'.weight := by
  rw [weight, weight, hoperands, harrays, Operand.nodesAll, Nat.zero_add]

theorem weight_takeKeyword_le (r : Reader) (keyword : List UInt8) :
    (r.takeKeyword keyword).2.weight + (r.takeKeyword keyword).1.weight ≤ r.weight + 1 := by
  have hcleared (inImageDict : Bool) :
      r.weight = Operand.nodesAll r.operands
        + weight { r with operands := [], inImageDict := inImageDict } :=
    weight_of_no_operands rfl rfl
  have hkept : 0 + r.weight ≤ r.weight + 1 := by omega
  rw [takeKeyword]
  split
  · show 0 + weight { r with operands := [], inImageDict := true } ≤ r.weight + 1
    rw [hcleared true]
    omega
  split
  · show 0 + weight { r with operands := [], inImageDict := false } ≤ r.weight + 1
    rw [hcleared false]
    omega
  split
  · exact hkept
  split
  · exact hkept
  · -- the operands are delivered in one event
    show Operand.nodesAll r.operands.reverse + 1
      + weight { r with operands := [], inImageDict := r.inImageDict } ≤ r.weight + 1
    rw [Operand.nodesAll_reverse, hcleared r.inImageDict]
    omega

/-- **A token adds one node at most** to what is gathered and delivered. -/
theorem weight_take_le (r : Reader) (offset : Nat) (found : Except Token.Failure Token) :
    (r.take offset found).2.weight + (r.take offset found).1.weight ≤ r.weight + 1 := by
  have hpush (operand : Operand) (hone : operand.nodes = 1) :
      0 + (r.push operand).weight ≤ r.weight + 1 := by
    rw [weight_push, hone, Nat.zero_add]
  have hkept : 0 + r.weight ≤ r.weight + 1 := by omega
  rcases found with failure | token
  · exact hkept
  rw [take]
  split
  · -- within a dictionary nothing is gathered
    cases token <;> exact hkept
  cases token with
  | number value => exact hpush _ rfl
  | bool value => exact hpush _ rfl
  | name text => exact hpush _ rfl
  | string bytes => exact hpush _ rfl
  | keyword bytes => exact r.weight_takeKeyword_le bytes
  | openArray =>
    show 0 + weight { r with arrays := [] :: r.arrays } ≤ r.weight + 1
    simp only [weight, List.map_cons, List.sum_cons, Operand.nodesAll]
    omega
  | closeArray =>
    rw [takeOutside]
    split
    · exact hkept
    · next items outer h =>
      -- the array counts as one node more than its items, closed or open
      show 0 + (push { r with arrays := outer } (.array items.reverse)).weight ≤ r.weight + 1
      rw [weight_push, Operand.nodes, Operand.nodesAll_reverse]
      simp only [weight, h, List.map_cons, List.sum_cons]
      omega
  | openDict => exact hkept
  | closeDict => exact hkept

theorem Outcome.sum_weight (outcome : Outcome) :
    (outcome.event?.toList.map Event.weight).sum = outcome.weight := by
  rw [weight]
  cases outcome.event? with
  | none => rfl
  | some event => exact Nat.add_zero _

/-- Events and their nodes are no more than what the reader has gathered and the
bytes that it has not read. -/
theorem weight_eventsFrom_le (r : Reader) (place : Place) :
    ((r.eventsFrom place).map Event.weight).sum ≤ r.weight + place.rest.length := by
  induction r, place using rounds_induction with
  | done r place h =>
    rw [eventsFrom_of_none h]
    exact Nat.zero_le _
  | step r place turn h ih =>
    obtain ⟨gap, first, body, data, hreads⟩ := exists_reads h
    have htake : turn.outcome.weight + turn.reader.weight ≤ r.weight + 1 := by
      have hle := weight_take_le r turn.start.offset turn.scan.found
      rwa [← hreads.taken] at hle
    have hshort := turn?_shortens h
    rw [eventsFrom_of_turn h, List.map_append, List.sum_append, Turn.event?_eq,
      Outcome.sum_weight]
    omega

end Reader

theorem Event.sum_weight (events : List Event) :
    (events.map weight).sum
      = events.length + (events.map fun event => Operand.nodesAll event.operands).sum := by
  induction events with
  | nil => rfl
  | cons event rest ih =>
    rw [List.map_cons, List.map_cons, List.sum_cons, List.sum_cons, List.length_cons, ih, weight]
    omega

/-- **What is read of a content stream**: its spans follow one another from the first
byte to the last one, each byte lies in one of them, and each of them holds what
it is read as; one event after the other is delivered, and then nothing more;
and events and nodes of operands together are no more than bytes. -/
theorem Content.spans_and_answers (bytes : List UInt8) :
    Tiles 0 (spans bytes) bytes.length
      ∧ (∀ offset < bytes.length, (spans bytes).countP (·.covers offset) = 1)
      ∧ (∀ span ∈ spans bytes, span.Fits bytes)
      ∧ (∀ n, (Parser.ofBytes bytes).answer n = (events bytes)[n]?)
      ∧ (events bytes).length
          + ((events bytes).map fun event => Operand.nodesAll event.operands).sum
        ≤ bytes.length := by
  have htiles : Tiles 0 (spans bytes) bytes.length :=
    Reader.tiles_rounds {} ⟨0, bytes⟩ (Place.within_head bytes)
  have hweight : ((events bytes).map Event.weight).sum ≤ bytes.length := by
    have hle := Reader.weight_eventsFrom_le {} ⟨0, bytes⟩
    rwa [show Reader.weight {} = 0 from rfl, Nat.zero_add] at hle
  refine ⟨htiles, ?_, ?_, ?_, ?_⟩
  · exact fun offset hlt => htiles.countP_covers (Nat.zero_le _) hlt
  · exact Reader.fits_rounds {} ⟨0, bytes⟩ (Place.within_head bytes)
  · exact fun n => Parser.answer_eq n (Parser.ofBytes bytes)
  · rwa [← Event.sum_weight]

end PageText
