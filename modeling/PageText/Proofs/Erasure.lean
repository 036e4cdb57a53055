/-
PageText/Proofs/Erasure.lean

What is left of a content stream when spaces are written over the tokens that are
rejected.  The spaces belong to the gap before the next token, and every other
token ends before a space where it ended before a rejected one.  So the rounds
over the erased bytes are those over the bytes, less the rounds that reject a
token:

    (r.rounds ⟨place.offset, r.erasedFrom place⟩).map Turn.findings
      = ((r.rounds place).filter fun turn => !turn.rejected).map Turn.findings

Main result: `Content.events_erased`.
-/
import PageText.Proofs.Rejection

namespace PageText

/-! ### Spaces -/

/-- The byte that is written over others. -/
def Byte.space : UInt8 := 0x20

/-- The bytes, of which the first one stands at `start`, with a space in the place
of each one whose offset `p` holds of. -/
def overwrite (p : Nat → Bool) (start : Nat) (bytes : List UInt8) : List UInt8 :=
  bytes.mapIdx fun n b => if p (start + n) then Byte.space else b

section Overwrite

variable {p q : Nat → Bool} {start : Nat} {bytes : List UInt8}

@[simp] theorem length_overwrite : (overwrite p start bytes).length = bytes.length :=
  List.length_mapIdx

theorem overwrite_append (first second : List UInt8) :
    overwrite p start (first ++ second)
      = overwrite p start first ++ overwrite p (start + first.length) second := by
  rw [overwrite, List.mapIdx_append]
  refine congrArg (overwrite p start first ++ ·) ?_
  refine congrArg (List.mapIdx · second) ?_
  funext n b
  rw [Nat.add_assoc, Nat.add_comm n]

theorem overwrite_congr (h : ∀ n, start ≤ n → n < start + bytes.length → p n = q n) :
    overwrite p start bytes = overwrite q start bytes := by
  refine List.ext_getElem (length_overwrite.trans length_overwrite.symm) ?_
  intro n hn _
  rw [length_overwrite] at hn
  simp only [overwrite, List.getElem_mapIdx, h (start + n) (Nat.le_add_right _ _) (by omega)]

theorem overwrite_of_false (h : ∀ n, start ≤ n → n < start + bytes.length → p n = false) :
    overwrite p start bytes = bytes := by
  rw [overwrite_congr h]
  exact List.mapIdx_eq_iff.mpr fun n => by simp

theorem overwrite_of_true (h : ∀ n, start ≤ n → n < start + bytes.length → p n = true) :
    overwrite p start bytes = List.replicate bytes.length Byte.space := by
  rw [overwrite_congr h]
  exact List.mapIdx_eq_replicate_iff.mpr fun n hn => rfl

/-- Bytes may follow a token that were written over. -/
theorem startsLike_overwrite (p : Nat → Bool) (start : Nat) (bytes : List UInt8) :
    Byte.StartsLike (overwrite p start bytes) bytes := by
  intro b hb
  cases bytes with
  | nil => cases hb
  | cons c rest =>
    rw [overwrite, List.mapIdx_cons, List.head?_cons, Option.mem_some_iff] at hb
    split at hb
    · obtain rfl := hb
      exact .inl rfl
    · obtain rfl := hb
      exact .inr rfl

end Overwrite

theorem Gap.closed_spaces (n : Nat) : Closed (List.replicate n Byte.space) := by
  induction n with
  | zero => exact .nil
  | succ n ih => exact .blank rfl ih

/-! ### Erased bytes -/

/-- The byte at the offset belongs to a token that is rejected in the round. -/
def Turn.rejects (turn : Turn) (offset : Nat) : Bool :=
  turn.rejected && decide (turn.start.offset ≤ offset ∧ offset < turn.next.offset)

/-- What a round found and brought about, and where: all but the bytes that it left. -/
def Turn.findings (turn : Turn) : Nat × Token.Scan × Reader.Outcome × Reader :=
  (turn.start.offset, turn.scan, turn.outcome, turn.reader)

theorem Turn.rejected_congr {turn turn' : Turn} (h : turn.findings = turn'.findings) :
    turn.rejected = turn'.rejected := by
  have hscan : turn.scan = turn'.scan := congrArg (·.2.1) h
  rw [rejected, rejected, hscan]

/-- The events of rounds are among their findings. -/
theorem filterMap_event? (turns : List Turn) :
    turns.filterMap Turn.event?
      = (turns.map Turn.findings).filterMap fun findings => findings.2.2.1.event? := by
  rw [List.filterMap_map]
  exact congrArg (List.filterMap · turns) (funext Turn.event?_eq)

theorem Turn.found_ne_ended {turn : Turn} (h : turn.rejected = false) :
    turn.scan.found ≠ .error .ended := by
  intro hended
  rw [rejected, hended] at h
  cases h

namespace Reader

/-- The byte at the offset belongs to a token that is rejected in reading on from
the place. -/
def rejectsFrom (r : Reader) (place : Place) (offset : Nat) : Bool :=
  (r.rounds place).any (·.rejects offset)

/-- The bytes of the place with spaces over the tokens that are rejected in
reading on from there. -/
def erasedFrom (r : Reader) (place : Place) : List UInt8 :=
  overwrite (r.rejectsFrom place) place.offset place.rest

end Reader

/-- The bytes with spaces over the rejected tokens. -/
def Content.erased (bytes : List UInt8) : List UInt8 :=
  overwrite (fun n => (Reader.turns {} bytes).any (·.rejects n)) 0 bytes

namespace Reader

variable {r : Reader} {place : Place} {turn : Turn}

/-- Rounds are made no earlier than reading starts. -/
theorem le_start_of_mem_rounds (r : Reader) (place : Place) :
    ∀ turn ∈ r.rounds place, place.offset ≤ turn.start.offset := by
  induction r, place using rounds_induction with
  | done r place h =>
    rw [rounds_of_none h]
    exact fun turn hturn => absurd hturn List.not_mem_nil
  | step r place turn h ih =>
    obtain ⟨gap, first, body, data, hreads⟩ := exists_reads h
    have hstart : place.offset ≤ turn.start.offset := by
      rw [hreads.start_offset]
      exact Nat.le_add_right _ _
    rw [rounds_of_turn h]
    refine List.forall_mem_cons.mpr ⟨hstart, ?_⟩
    intro later hlater
    have hnext := ih later hlater
    rw [hreads.offset] at hnext
    omega

/-- Nothing is rejected before the place where reading starts. -/
theorem rejectsFrom_of_lt {offset : Nat} (h : offset < place.offset) :
    r.rejectsFrom place offset = false := by
  refine List.any_eq_false.mpr ?_
  intro turn hturn
  have hle := le_start_of_mem_rounds r place turn hturn
  simp only [Turn.rejects, Bool.and_eq_true, decide_eq_true_eq]
  omega

theorem rejectsFrom_of_turn (h : r.turn? place = some turn) (offset : Nat) :
    r.rejectsFrom place offset
      = (turn.rejects offset || turn.reader.rejectsFrom turn.next offset) := by
  rw [rejectsFrom, rounds_of_turn h, List.any_cons]
  rfl

theorem erasedFrom_of_none (h : r.turn? place = none) : r.erasedFrom place = place.rest := by
  refine overwrite_of_false ?_
  intro n _ _
  rw [rejectsFrom, rounds_of_none h]
  rfl

/-- Up to the end of a round it alone decides what is rejected. -/
theorem rejectsFrom_of_lt_next (h : r.turn? place = some turn) {offset : Nat}
    (hlt : offset < turn.next.offset) : r.rejectsFrom place offset = turn.rejects offset := by
  rw [rejectsFrom_of_turn h, rejectsFrom_of_lt hlt, Bool.or_false]

/-- After a round the later ones decide. -/
theorem rejectsFrom_of_next_le (h : r.turn? place = some turn) {offset : Nat}
    (hle : turn.next.offset ≤ offset) :
    r.rejectsFrom place offset = turn.reader.rejectsFrom turn.next offset := by
  have hrejects : turn.rejects offset = false := by
    rw [Turn.rejects, decide_eq_false (by omega), Bool.and_false]
  rw [rejectsFrom_of_turn h, hrejects, Bool.false_or]

/-- **One round of erasing**: the gap and the data stay, and so does the token unless
it is rejected. -/
theorem erasedFrom_of_turn {gap : List UInt8} {first : UInt8} {body data : List UInt8}
    (h : r.turn? place = some turn) (hreads : turn.Reads r place gap first body data) :
    r.erasedFrom place
      = gap ++ ((if turn.rejected then List.replicate (body.length + 1) Byte.space
          else first :: body) ++ (data ++ turn.reader.erasedFrom turn.next)) := by
  have hstart := hreads.start_offset
  have hnext := hreads.offset
  have hgap : overwrite (r.rejectsFrom place) place.offset gap = gap := by
    refine overwrite_of_false ?_
    intro n _ hn
    rw [rejectsFrom_of_lt_next h (by omega), Turn.rejects, decide_eq_false (by omega),
      Bool.and_false]
  have htoken : overwrite (r.rejectsFrom place) turn.start.offset (first :: body)
      = if turn.rejected then List.replicate (body.length + 1) Byte.space else first :: body := by
    have hinside : ∀ n, turn.start.offset ≤ n → n < turn.start.offset + (first :: body).length →
        r.rejectsFrom place n = turn.rejected := by
      intro n hle hlt
      rw [List.length_cons] at hlt
      rw [rejectsFrom_of_lt_next h (by omega), Turn.rejects, decide_eq_true (by omega),
        Bool.and_true]
    rcases hrejected : turn.rejected with - | -
    · exact overwrite_of_false fun n hle hlt => (hinside n hle hlt).trans hrejected
    · exact overwrite_of_true fun n hle hlt => (hinside n hle hlt).trans hrejected
  have hdata : overwrite (r.rejectsFrom place) (turn.start.offset + (body.length + 1)) data
      = data := by
    rcases hrejected : turn.rejected with - | -
    · refine overwrite_of_false ?_
      intro n _ hn
      rw [rejectsFrom_of_lt_next h (by omega), Turn.rejects, hrejected, Bool.false_and]
    · -- no data follows a rejected token
      rw [(hreads.of_rejected hrejected).2.2]
      rfl
  have hrest : overwrite (r.rejectsFrom place) turn.next.offset turn.next.rest
      = turn.reader.erasedFrom turn.next :=
    overwrite_congr fun n hn _ => rejectsFrom_of_next_le h hn
  rw [erasedFrom, hreads.bytes, ← List.cons_append, overwrite_append, overwrite_append,
    overwrite_append, hgap, ← hstart, htoken, List.length_cons, hdata, ← hnext, hrest]

theorem startsLike_erasedFrom (r : Reader) (place : Place) :
    Byte.StartsLike (r.erasedFrom place) place.rest := startsLike_overwrite _ _ _

theorem erasedFrom_eq_nil (h : place.rest = []) : r.erasedFrom place = [] := by
  rw [erasedFrom, h]
  rfl

/-- Where a token is rejected, the spaces go on the gap before it, and reading goes on
after them. -/
theorem turn?_spaces {gap : List UInt8} {first : UInt8} {body data : List UInt8}
    (hreads : turn.Reads r place gap first body data) (hrejected : turn.rejected = true)
    (rest : List UInt8) :
    r.turn? ⟨place.offset, gap ++ (List.replicate (body.length + 1) Byte.space ++ rest)⟩
      = r.turn? ⟨turn.next.offset, rest⟩ := by
  have hgap : Gap.Closed (gap ++ List.replicate (body.length + 1) Byte.space) :=
    hreads.closed.append (Gap.closed_spaces _)
  have hoffset : place.offset + (gap ++ List.replicate (body.length + 1) Byte.space).length
      = turn.next.offset := by
    rw [hreads.offset, hreads.start_offset, (hreads.of_rejected hrejected).2.2,
      List.length_append, List.length_replicate, List.length_nil]
    omega
  rw [← List.append_assoc, turn?_gap r hgap, hoffset]

/-- **Erasing drops the rounds that reject a token**, and changes nothing in the
others. -/
theorem findings_erasedFrom (r : Reader) (place : Place) :
    (r.rounds ⟨place.offset, r.erasedFrom place⟩).map Turn.findings
      = ((r.rounds place).filter fun turn => !turn.rejected).map Turn.findings := by
  induction r, place using rounds_induction with
  | done r place h => rw [erasedFrom_of_none h, rounds_of_none h, List.filter_nil]
  | step r place turn h ih =>
    obtain ⟨gap, first, body, data, hreads⟩ := exists_reads h
    rw [erasedFrom_of_turn h hreads, rounds_of_turn h]
    rcases hrejected : turn.rejected with - | -
    · -- the token is found again, since the bytes after it start alike
      have hturn := turn?_replace hreads (Turn.found_ne_ended hrejected)
        (turn.reader.startsLike_erasedFrom turn.next) erasedFrom_eq_nil
      rw [if_neg (by decide), List.filter_cons_of_pos (by rw [hrejected]; rfl), List.cons_append,
        rounds_of_turn hturn, List.map_cons, List.map_cons, ← ih]
      rfl
    · obtain ⟨hreader, -, hdata⟩ := hreads.of_rejected hrejected
      rw [hreader] at ih ⊢
      rw [if_pos rfl, List.filter_cons_of_neg (by rw [hrejected]; decide), hdata, List.nil_append,
        rounds_congr (turn?_spaces hreads hrejected _), ih]

end Reader

/-- **Spaces over the rejected tokens** change no event, and leave no token that is
rejected.  The rejected ones are lone `>`s, signs and points without digits,
strings in angle brackets through a bad byte and strings without an end, each of
them from its first byte to where reading goes on. -/
theorem Content.events_erased (bytes : List UInt8) :
    events (erased bytes) = events bytes
      ∧ (∀ turn ∈ Reader.turns {} (erased bytes), turn.rejected = false)
      ∧ ∀ turn ∈ Reader.turns {} bytes,
        turn.rejected = true ↔ Token.Rejected (turn.taken bytes) (bytes.drop turn.next.offset) := by
  have hfindings : (Reader.turns {} (erased bytes)).map Turn.findings
      = ((Reader.turns {} bytes).filter fun turn => !turn.rejected).map Turn.findings :=
    Reader.findings_erasedFrom {} ⟨0, bytes⟩
  have hrounds := Reader.exists_of_mem_rounds Reader.within_next {} _ (Place.within_head bytes)
  refine ⟨?_, ?_, ?_⟩
  · rw [events, filterMap_event?, hfindings, ← filterMap_event?, List.filterMap_filter, events]
    refine List.filterMap_congr ?_
    intro turn hturn
    rcases hrejected : turn.rejected with - | -
    · rfl
    · obtain ⟨r, place, -, h⟩ := hrounds turn hturn
      obtain ⟨gap, first, body, data, hreads⟩ := Reader.exists_reads h
      exact (hreads.event?_of_rejected hrejected).symm
  · intro turn hturn
    have hmem := List.mem_map_of_mem (f := Turn.findings) hturn
    rw [hfindings] at hmem
    obtain ⟨turn', hturn', hsame⟩ := List.mem_map.mp hmem
    have haccepted := (List.mem_filter.mp hturn').2
    rwa [Turn.rejected_congr hsame, Bool.not_eq_true'] at haccepted
  · intro turn hturn
    obtain ⟨r, place, hplace, h⟩ := hrounds turn hturn
    exact Reader.rejected_iff h hplace

end PageText
