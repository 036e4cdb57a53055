/-
PageText/Proofs/Continuation.lean

Reading in two parts.  A stream may be cut at a line end: what is read of the
first part is read again in the same way with the second one after it, and then
the reader goes on with what it has gathered (`Reader.left`).  Only a round that
ran out of bytes may come out differently, that of a string without an end or of
image data without an end mark (`Turn.ranOut`).

One round at a time this is `turn?_followedBy`; where the first part ends in a
gap, the gap goes on into the second one (`turn?_of_gap`).  The second part is
read at some offset of the whole stream, which shows in notices only
(`eventsFrom_offset`).

Main result: `Content.events_append`.
-/
import Mathlib
import PageText.Proofs.Lookahead

namespace PageText

/-! ### Reading with a reader -/

/-- The bytes ended in the round: before its token did, or before the data of an
image that it announces. -/
def Turn.ranOut (turn : Turn) : Bool :=
  match turn.scan.found, turn.outcome with
  | .error .ended, _ => true
  | _, .imageData => (ImageData.size? (turn.start.skip (turn.scan.more + 1)).rest).isNone
  | _, _ => false

namespace Reader

/-- The events that are read from a place on. -/
def eventsFrom (r : Reader) (place : Place) : List Event := (r.rounds place).filterMap Turn.event?

/-- The reader after everything from a place on is read. -/
def leftFrom (r : Reader) (place : Place) : Reader :=
  (r.rounds place).foldl (fun _ turn => turn.reader) r

/-- The events of the bytes for a reader that may have gathered something. -/
def events (r : Reader) (bytes : List UInt8) : List Event := r.eventsFrom ⟨0, bytes⟩

/-- The reader after the bytes, with what it has gathered and not delivered. -/
def left (r : Reader) (bytes : List UInt8) : Reader := r.leftFrom ⟨0, bytes⟩

variable {r : Reader} {place : Place} {turn : Turn}

theorem eventsFrom_of_none (h : r.turn? place = none) : r.eventsFrom place = [] := by
  rw [eventsFrom, rounds_of_none h, List.filterMap_nil]

theorem eventsFrom_of_turn (h : r.turn? place = some turn) :
    r.eventsFrom place = turn.event?.toList ++ turn.reader.eventsFrom turn.next := by
  rw [eventsFrom, rounds_of_turn h, eventsFrom]
  rcases hevent : turn.event? with - | event
  · exact List.filterMap_cons_none hevent
  · exact List.filterMap_cons_some hevent

theorem leftFrom_of_none (h : r.turn? place = none) : r.leftFrom place = r := by
  rw [leftFrom, rounds_of_none h, List.foldl_nil]

theorem leftFrom_of_turn (h : r.turn? place = some turn) :
    r.leftFrom place = turn.reader.leftFrom turn.next := by
  rw [leftFrom, rounds_of_turn h, List.foldl_cons, leftFrom]

/-! ### One round -/

/-- A round is made at the first byte after a gap. -/
theorem exists_cons_of_turn? (h : r.turn? place = some turn) :
    ∃ offset first more, place.skip (Gap.size place.rest) = ⟨offset, first :: more⟩ := by
  rcases hstart : place.skip (Gap.size place.rest) with ⟨offset, - | ⟨first, more⟩⟩
  · -- at the end no round is made
    simp only [turn?, hstart] at h
    cases h
  · exact ⟨offset, first, more, rfl⟩

/-- No round is made where only a gap is left. -/
theorem turn?_eq_none_iff :
    r.turn? place = none ↔ Gap.size place.rest = place.rest.length := by
  have hle := Gap.size_le_length place.rest
  constructor
  · intro h
    rcases hstart : place.skip (Gap.size place.rest) with ⟨offset, - | ⟨first, more⟩⟩
    · have hrest := congrArg Place.rest hstart
      exact Nat.le_antisymm hle (List.drop_eq_nil_iff.mp hrest)
    · cases h.symm.trans (turn?_of_cons hstart)
  · intro h
    have hrest : (place.skip (Gap.size place.rest)).rest = [] := by
      rw [Place.skip, h, List.drop_length]
    rw [turn?]
    simp only [hrest]

/-! ### Offsets -/

theorem resume_silenced (stop : Place) (outcome : Outcome) :
    resume stop outcome.silenced = resume stop outcome := by
  cases outcome <;> rfl

/-- How far reading goes on does not depend on notices and offsets. -/
theorem rest_resume {stop stop' : Place} {outcome outcome' : Outcome}
    (hrest : stop.rest = stop'.rest) (h : outcome.silenced = outcome'.silenced) :
    (resume stop outcome).rest = (resume stop' outcome').rest := by
  rw [← resume_silenced stop, ← resume_silenced stop', h]
  cases outcome'.silenced <;> simp only [resume, Place.skip, hrest]

/-- The same round at another offset. -/
theorem turn?_offset (h : r.turn? place = some turn) (n : Nat) :
    ∃ turn', r.turn? ⟨n, place.rest⟩ = some turn' ∧ turn'.reader = turn.reader
      ∧ turn'.event? = turn.event? ∧ turn'.next.rest = turn.next.rest := by
  obtain ⟨offset, first, more, hstart⟩ := exists_cons_of_turn? h
  obtain rfl := Option.some.inj ((turn?_of_cons hstart).symm.trans h)
  have hstart' : Place.skip ⟨n, place.rest⟩ (Gap.size place.rest)
      = ⟨n + Gap.size place.rest, first :: more⟩ :=
    congrArg (Place.mk _) (congrArg Place.rest hstart)
  obtain ⟨hreader, hsilenced⟩ :=
    r.take_offset (n + Gap.size place.rest) offset (Token.scan first more).found
  refine ⟨_, turn?_of_cons hstart', hreader, ?_, ?_⟩
  · have hevent := congrArg Outcome.event? hsilenced
    rw [Outcome.event?_silenced, Outcome.event?_silenced] at hevent
    rwa [Turn.event?_eq, Turn.event?_eq]
  · exact rest_resume rfl hsilenced

/-- **Events do not depend on where the bytes stand.** -/
theorem eventsFrom_offset (r : Reader) (place : Place) :
    ∀ n, r.eventsFrom ⟨n, place.rest⟩ = r.eventsFrom place := by
  induction r, place using rounds_induction with
  | done r place h =>
    intro n
    have hgap := turn?_eq_none_iff.mp h
    have h' : r.turn? ⟨n, place.rest⟩ = none := turn?_eq_none_iff.mpr hgap
    rw [eventsFrom_of_none h, eventsFrom_of_none h']
  | step r place turn h ih =>
    intro n
    obtain ⟨turn', h', hreader, hevent, hrest⟩ := turn?_offset h n
    rw [eventsFrom_of_turn h, eventsFrom_of_turn h', hreader, hevent, ← ih turn'.next.offset,
      ← hrest]

end Reader

/-! ### More bytes -/

/-- The place with more bytes after its own. -/
def Place.followedBy (place : Place) (more : List UInt8) : Place :=
  { place with rest := place.rest ++ more }

/-- The round with more bytes after those that it had. -/
def Turn.followedBy (turn : Turn) (more : List UInt8) : Turn :=
  { turn with start := turn.start.followedBy more, next := turn.next.followedBy more }

theorem Place.skip_followedBy {place : Place} {n : Nat} (h : n ≤ place.rest.length)
    (more : List UInt8) : (place.followedBy more).skip n = (place.skip n).followedBy more := by
  simp only [skip, followedBy, List.drop_append_of_le_length h]

theorem Turn.of_ranOut {turn : Turn} (h : turn.ranOut = false) :
    turn.scan.found ≠ .error .ended
      ∧ (turn.outcome = .imageData →
        ∃ n, ImageData.size? (turn.start.skip (turn.scan.more + 1)).rest = some n) := by
  rw [ranOut] at h
  split at h
  · cases h
  · next houtcome hfound =>
    rw [Option.isNone_eq_false_iff, Option.isSome_iff_exists] at h
    exact ⟨hfound, fun _ => h⟩
  · next hfound houtcome => exact ⟨hfound, fun himage => absurd himage houtcome⟩

namespace Reader

variable {r : Reader} {place : Place} {turn : Turn}

theorem resume_followedBy {stop : Place} {outcome : Outcome}
    (himage : outcome = .imageData → ∃ n, ImageData.size? stop.rest = some n)
    (more : List UInt8) :
    resume (stop.followedBy (Byte.lineFeed :: more)) outcome
      = (resume stop outcome).followedBy (Byte.lineFeed :: more) := by
  cases outcome with
  | imageData =>
    obtain ⟨n, hn⟩ := himage rfl
    obtain ⟨hsame, hle⟩ := ImageData.size?_append Byte.isBlank_lineFeed hn more
    have hsize : ImageData.size (stop.followedBy (Byte.lineFeed :: more)).rest
        = ImageData.size stop.rest := by
      rw [ImageData.size, ImageData.size, Place.followedBy, hsame, hn]
      rfl
    rw [resume, resume, hsize, Place.skip_followedBy]
    rwa [ImageData.size, hn]
  | _ => rfl

/-- **A round that did not run out of bytes** is the same with more bytes after
it. -/
theorem turn?_followedBy (h : r.turn? place = some turn) (hran : turn.ranOut = false)
    (more : List UInt8) :
    r.turn? (place.followedBy (Byte.lineFeed :: more))
      = some (turn.followedBy (Byte.lineFeed :: more)) := by
  obtain ⟨offset, first, rest, hstart⟩ := exists_cons_of_turn? h
  obtain rfl := Option.some.inj ((turn?_of_cons hstart).symm.trans h)
  obtain ⟨hended, himage⟩ := Turn.of_ranOut hran
  -- the round found a token, so its gap does not reach the end
  have hne : Gap.size place.rest ≠ place.rest.length := by
    intro heq
    cases h.symm.trans (turn?_eq_none_iff.mpr heq)
  have hgap : Gap.size (place.followedBy (Byte.lineFeed :: more)).rest = Gap.size place.rest :=
    Gap.size_append_of_ne hne more
  have hstart' : (place.followedBy (Byte.lineFeed :: more)).skip
      (Gap.size (place.followedBy (Byte.lineFeed :: more)).rest)
      = ⟨offset, first :: (rest ++ Byte.lineFeed :: more)⟩ := by
    rw [hgap, Place.skip_followedBy (Gap.size_le_length _), hstart]
    rfl
  have hscan : Token.scan first (rest ++ Byte.lineFeed :: more) = Token.scan first rest :=
    Token.scan_append Byte.isBlank_lineFeed hended more
  have hnext := resume_followedBy himage more
  rw [turn?_of_cons hstart', hscan, List.drop_append_of_le_length (Token.scan_more_le first rest)]
  exact congrArg (fun next => some (Turn.mk _ _ _ _ next)) hnext

/-- A gap at the end goes on after the bytes, so what is read there is read of
the bytes that follow. -/
theorem turn?_of_gap (h : r.turn? place = none) (more : List UInt8) :
    r.turn? (place.followedBy (Byte.lineFeed :: more))
      = r.turn? ⟨place.offset + (place.rest.length + 1), more⟩ := by
  have hgap : Gap.size (place.followedBy (Byte.lineFeed :: more)).rest
      = place.rest.length + 1 + Gap.size more :=
    Gap.size_append_of_eq (turn?_eq_none_iff.mp h) more
  have hstart : (place.followedBy (Byte.lineFeed :: more)).skip
      (Gap.size (place.followedBy (Byte.lineFeed :: more)).rest)
      = Place.skip ⟨place.offset + (place.rest.length + 1), more⟩ (Gap.size more) := by
    rw [hgap, Place.skip, Place.skip, Place.followedBy, ← Nat.add_assoc,
      Nat.add_assoc place.rest.length, List.drop_length_add_append, Nat.add_comm 1,
      List.drop_succ_cons]
  rw [turn?, turn?]
  simp only [hstart]

theorem rounds_congr {place' : Place} (h : r.turn? place = r.turn? place') :
    r.rounds place = r.rounds place' := by
  rcases hturn : r.turn? place with - | turn
  · rw [rounds_of_none hturn, rounds_of_none (h.symm.trans hturn)]
  · rw [rounds_of_turn hturn, rounds_of_turn (h.symm.trans hturn)]

/-- **Reading goes on with what the reader has gathered**, from any place on. -/
theorem eventsFrom_followedBy (r : Reader) (place : Place) (more : List UInt8) :
    (∀ turn ∈ r.rounds place, turn.ranOut = false) →
      r.eventsFrom (place.followedBy (Byte.lineFeed :: more))
        = r.eventsFrom place ++ (r.leftFrom place).events more := by
  induction r, place using rounds_induction with
  | done r place h =>
    intro _
    -- only a gap is left, and it goes on into the bytes that follow
    rw [eventsFrom, rounds_congr (turn?_of_gap h more), eventsFrom_of_none h, leftFrom_of_none h,
      List.nil_append]
    exact eventsFrom_offset r ⟨0, more⟩ _
  | step r place turn h ih =>
    intro hran
    rw [rounds_of_turn h, List.forall_mem_cons] at hran
    rw [eventsFrom_of_turn (turn?_followedBy h hran.1 more), eventsFrom_of_turn h,
      leftFrom_of_turn h, List.append_assoc]
    exact congrArg (turn.event?.toList ++ ·) (ih hran.2)

end Reader

/-- **Reading in two parts.**  If no round of the first part ran out of bytes, the
events of both parts with a line feed between them are the events of the first one
and then those of the second one for the reader that the first one left; if that
has gathered nothing, they are the events of both parts. -/
theorem Content.events_append (first second : List UInt8)
    (hran : ∀ turn ∈ Reader.turns {} first, turn.ranOut = false) :
    let left := Reader.left {} first
    events (first ++ Byte.lineFeed :: second) = events first ++ left.events second
      ∧ (left = {} →
        events (first ++ Byte.lineFeed :: second) = events first ++ events second) := by
  intro left
  have happend : events (first ++ Byte.lineFeed :: second) = events first ++ left.events second :=
    Reader.eventsFrom_followedBy {} ⟨0, first⟩ second hran
  refine ⟨happend, ?_⟩
  intro hleft
  rw [happend, hleft]
  rfl

/-- The first part, `BI ID x EI[(a)%c`, has image data, an array that is not closed
and a comment; the second one, `/N#]TJ`, closes the array. -/
theorem Content.events_append_within_array :
    let first : List UInt8 :=
      [0x42, 0x49, 0x20, 0x49, 0x44, 0x20, 0x78, 0x20, 0x45, 0x49, 0x5B, 0x28, 0x61, 0x29, 0x25,
        0x63]
    let second : List UInt8 := [0x2F, 0x4E, 0x23, 0x5D, 0x54, 0x4A]
    (∀ turn ∈ Reader.turns {} first, turn.ranOut = false)
      ∧ events first = []
      ∧ events (first ++ Byte.lineFeed :: second)
        = [⟨"TJ", [.array [.text "a", .name "N#"]]⟩] := by
  intro first second
  have hran : ∀ turn ∈ Reader.turns {} first, turn.ranOut = false := by
    have hall : (Reader.turns {} first).all (fun turn => !turn.ranOut) = true := by cbv
    intro turn hturn
    rw [← Bool.not_eq_true']
    exact List.all_eq_true.mp hall turn hturn
  have hleft : Reader.left {} first = { arrays := [[.text "a"]] } := by cbv
  have hfirst : events first = [] := by cbv
  refine ⟨hran, hfirst, ?_⟩
  rw [(events_append first second hran).1, hfirst, hleft]
  cbv

end PageText
