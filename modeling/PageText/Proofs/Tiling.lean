/-
PageText/Proofs/Tiling.lean

The spans that a content stream is read in.  Each round reads a gap and then a
token, or what it rejects in place of one, and it reads over the data of an
image after the keyword that announces it; behind the last round there is only
a gap.  What is written down for a stream is the list of these spans
(`Content.spans`).

One round tiles the bytes from where it is made to where the next one is
(`Turn.Reads.tiles`), so all of them together tile the stream, and every byte
lies in one span (`Tiles.countP_covers`).

Main results: `Reader.tiles_rounds` and `Reader.fits_rounds`.
-/
import PageText.Proofs.Extents

namespace PageText

/-! ### Spans -/

/-- What a span of bytes is read as. -/
inductive Part where
  | gap
  | token
  | rejected
  | imageData
deriving DecidableEq

/-- What is found is a token, or something rejected. -/
def Part.ofFound : Except Token.Failure Token → Part
  | .ok _ => token
  | .error _ => rejected

/-- The bytes from the offset `start` up to the one before `stop`. -/
structure Span where
  part : Part
  start : Nat
  stop : Nat
deriving DecidableEq

namespace Span

/-- The byte at the offset lies in the span. -/
def covers (span : Span) (offset : Nat) : Bool :=
  decide (span.start ≤ offset ∧ offset < span.stop)

/-- The span is one of the bytes, and it is what is read of them there. -/
inductive Fits : List UInt8 → Span → Prop where
  /-- Blanks and comments. -/
  | gap {before gap after : List UInt8} : Gap.Closed gap →
    Fits (before ++ (gap ++ after)) ⟨.gap, before.length, before.length + gap.length⟩
  /-- Blanks and comments at the end, where the last comment may lack its line end. -/
  | lastGap {before gap : List UInt8} : Gap.Trailing gap →
    Fits (before ++ gap) ⟨.gap, before.length, before.length + gap.length⟩
  /-- What a scan takes from a first byte on. -/
  | scan {before body after : List UInt8} {first : UInt8} {found : Except Token.Failure Token} :
    Byte.isBlank first = false → first ≠ Byte.percent →
    Token.scan first (body ++ after) = ⟨found, body.length⟩ →
    Fits (before ++ first :: (body ++ after))
      ⟨.ofFound found, before.length, before.length + (body.length + 1)⟩
  /-- The data of an image. -/
  | imageData {before data after : List UInt8} : ImageData.size (data ++ after) = data.length →
    Fits (before ++ (data ++ after)) ⟨.imageData, before.length, before.length + data.length⟩

end Span

/-! ### Tilings -/

/-- Each span starts where the one before it stops, the first one at `start`, and
the last one stops at `stop`. -/
def Tiles : (start : Nat) → List Span → (stop : Nat) → Prop
  | start, [], stop => start = stop
  | start, span :: rest, stop =>
    span.start = start ∧ start ≤ span.stop ∧ Tiles span.stop rest stop

namespace Tiles

variable {start stop : Nat} {spans : List Span}

theorem append {mid : Nat} {others : List Span} (h : Tiles start spans mid)
    (h' : Tiles mid others stop) : Tiles start (spans ++ others) stop := by
  induction spans generalizing start with
  | nil =>
    obtain rfl : start = mid := h
    exact h'
  | cons span rest ih => exact ⟨h.1, h.2.1, ih h.2.2⟩

/-- No span covers what comes before them all. -/
theorem countP_covers_of_lt (h : Tiles start spans stop) {offset : Nat} (hlt : offset < start) :
    spans.countP (·.covers offset) = 0 := by
  induction spans generalizing start with
  | nil => rfl
  | cons span rest ih =>
    obtain ⟨hstart, hle, hrest⟩ := h
    have hnot : ¬span.covers offset = true := by
      rw [Span.covers, decide_eq_true_eq]
      omega
    rw [List.countP_cons_of_neg (p := (Span.covers · offset)) hnot]
    exact ih hrest (by omega)

/-- **Every byte lies in one span** of a tiling. -/
theorem countP_covers (h : Tiles start spans stop) {offset : Nat} (hle : start ≤ offset)
    (hlt : offset < stop) : spans.countP (·.covers offset) = 1 := by
  induction spans generalizing start with
  | nil =>
    obtain rfl : start = stop := h
    exact absurd hlt (Nat.not_lt.mpr hle)
  | cons span rest ih =>
    obtain ⟨hstart, -, hrest⟩ := h
    by_cases hinside : offset < span.stop
    · -- it lies in this span, and the others start after it
      have hcovers : span.covers offset = true := by
        rw [Span.covers, decide_eq_true_eq]
        omega
      rw [List.countP_cons_of_pos (p := (Span.covers · offset)) hcovers,
        hrest.countP_covers_of_lt hinside]
    · have hnot : ¬span.covers offset = true := by
        rw [Span.covers, decide_eq_true_eq]
        omega
      rw [List.countP_cons_of_neg (p := (Span.covers · offset)) hnot]
      exact ih hrest (Nat.le_of_not_lt hinside)

end Tiles

/-! ### The spans of rounds -/

/-- The spans that are read in a round that is made at `start`. -/
def Turn.spans (start : Nat) (turn : Turn) : List Span :=
  let stop := turn.start.offset + (turn.scan.more + 1)
  ⟨.gap, start, turn.start.offset⟩ :: ⟨.ofFound turn.scan.found, turn.start.offset, stop⟩ ::
    match turn.outcome with
    | .imageData => [⟨.imageData, stop, turn.next.offset⟩]
    | _ => []

/-- The spans that are read in rounds from `start` on, and the gap behind them up to
`stop`. -/
def spansOf (start stop : Nat) : List Turn → List Span
  | [] => [⟨.gap, start, stop⟩]
  | turn :: rest => turn.spans start ++ spansOf turn.next.offset stop rest

/-- The spans that a content stream is read in. -/
def Content.spans (bytes : List UInt8) : List Span :=
  spansOf 0 bytes.length (Reader.turns {} bytes)

namespace Turn.Reads

variable {r : Reader} {place : Place} {turn : Turn} {gap : List UInt8} {first : UInt8}
  {body data bytes : List UInt8}

/-- **The spans of a round** go from where it is made to where the next one is. -/
theorem tiles (h : turn.Reads r place gap first body data) :
    Tiles place.offset (turn.spans place.offset) turn.next.offset := by
  have hoffset := h.offset
  rw [← h.more] at hoffset
  have hstart : place.offset ≤ turn.start.offset := by
    rw [h.start_offset]
    exact Nat.le_add_right _ _
  refine ⟨rfl, hstart, rfl, Nat.le_add_right _ _, ?_⟩
  show Tiles (turn.start.offset + (turn.scan.more + 1)) _ _
  split
  · exact ⟨rfl, by rw [hoffset]; exact Nat.le_add_right _ _, rfl⟩
  · next hother =>
    rw [h.quiet hother, List.length_nil] at hoffset
    exact hoffset.symm

/-- What is read in the spans of a round. -/
theorem fits (h : turn.Reads r place gap first body data) (hplace : place.Within bytes) :
    ∀ span ∈ turn.spans place.offset, span.Fits bytes := by
  have hstart := h.start_within hplace
  have hgap : Span.Fits bytes ⟨.gap, place.offset, turn.start.offset⟩ := by
    obtain ⟨before, hbytes, hbefore⟩ := hplace
    rw [hbytes, h.bytes, h.start_offset, hbefore]
    exact .gap h.closed
  have hscan : Span.Fits bytes
      ⟨.ofFound turn.scan.found, turn.start.offset, turn.start.offset + (turn.scan.more + 1)⟩ := by
    obtain ⟨before, hbytes, hbefore⟩ := hstart
    have hrest : turn.start.rest = first :: (body ++ (data ++ turn.next.rest)) := by rw [h.start]
    rw [hbytes, hrest, hbefore, h.more]
    refine .scan h.blank h.percent ?_
    rw [← h.scan, ← h.more]
  refine List.forall_mem_cons.mpr ⟨hgap, List.forall_mem_cons.mpr ⟨hscan, ?_⟩⟩
  split
  · next himage =>
    have hrest : turn.start.rest = first :: body ++ (data ++ turn.next.rest) := by rw [h.start]; rfl
    obtain ⟨before, hbytes, hbefore⟩ := hstart.after hrest
    have hsize : ImageData.size (data ++ turn.next.rest) = data.length := by
      have hnext := congrArg Place.offset h.next
      rw [himage, h.offset] at hnext
      exact (Nat.add_left_cancel hnext).symm
    have hstop : turn.start.offset + (body.length + 1) = before.length := hbefore
    refine List.forall_mem_singleton.mpr ?_
    rw [h.more, h.offset, hbytes, hstop]
    exact .imageData hsize
  · exact fun span hspan => absurd hspan List.not_mem_nil

end Turn.Reads

namespace Reader

/-- **The spans of all rounds** go on to the end of the bytes. -/
theorem tiles_rounds {bytes : List UInt8} (r : Reader) (place : Place) :
    place.Within bytes →
      Tiles place.offset (spansOf place.offset bytes.length (r.rounds place)) bytes.length := by
  induction r, place using rounds_induction with
  | done r place h =>
    intro hplace
    rw [rounds_of_none h, spansOf, ← hplace.length]
    exact ⟨rfl, Nat.le_add_right _ _, rfl⟩
  | step r place turn h ih =>
    intro hplace
    obtain ⟨gap, first, body, data, hreads⟩ := exists_reads h
    rw [rounds_of_turn h]
    exact hreads.tiles.append (ih (hreads.next_within hplace))

/-- What is read in the spans of all rounds. -/
theorem fits_rounds {bytes : List UInt8} (r : Reader) (place : Place) :
    place.Within bytes →
      ∀ span ∈ spansOf place.offset bytes.length (r.rounds place), span.Fits bytes := by
  induction r, place using rounds_induction with
  | done r place h =>
    intro hplace
    rw [rounds_of_none h, spansOf]
    refine List.forall_mem_singleton.mpr ?_
    rw [← hplace.length]
    obtain ⟨before, hbytes, hbefore⟩ := hplace
    rw [hbytes, hbefore]
    exact .lastGap (trailing_of_turn? h)
  | step r place turn h ih =>
    intro hplace
    obtain ⟨gap, first, body, data, hreads⟩ := exists_reads h
    rw [rounds_of_turn h, spansOf]
    exact List.forall_mem_append.mpr ⟨hreads.fits hplace, ih (hreads.next_within hplace)⟩

end Reader

end PageText
