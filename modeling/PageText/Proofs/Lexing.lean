/-
PageText/Proofs/Lexing.lean

Scans one after the other, without a reader.  `Token.scans` makes a number of them over
the gaps in between, and never reads over the data of an image; as many as there are
bytes are enough for all of them (`trailing_scans`).

A reader that takes what they find may deliver nothing and meet no image data
(`Reader.Passes`).  Then its rounds are those scans, and it goes on where they stopped:

    r.rounds ⟨offset, bytes⟩ = turns ++ r'.rounds ⟨stop, (scans n bytes).2⟩

Main result: `Reader.rounds_scans`.
-/
import PageText.Proofs.Extents

namespace PageText

namespace Token

/-! ### Scans -/

/-- What the first `n` scans of the bytes find, and the bytes that they leave.  There are
fewer of them where only a gap is left before that. -/
def scans : (n : Nat) → List UInt8 → List (Except Failure Token) × List UInt8
  | 0, bytes => ([], bytes)
  | n + 1, bytes =>
    match bytes.drop (Gap.size bytes) with
    | [] => ([], bytes)
    | first :: more =>
      let (found, rest) := scans n (more.drop (scan first more).more)
      ((scan first more).found :: found, rest)

/-- Everything that scans find in the bytes.  Each of them takes one byte at least. -/
def found (bytes : List UInt8) : List (Except Failure Token) := (scans bytes.length bytes).1

variable {gap bytes : List UInt8}

theorem scans_of_trailing (h : Gap.Trailing bytes) (n : Nat) : scans n bytes = ([], bytes) := by
  cases n with
  | zero => rfl
  | succ n =>
    rw [scans, Gap.size_of_trailing h, List.drop_length]

/-- A scan is made after the gap, at the first byte of a token. -/
theorem scans_cons {first : UInt8} (hgap : Gap.Closed gap) (hblank : Byte.isBlank first = false)
    (hpercent : first ≠ Byte.percent) (n : Nat) (more : List UInt8) :
    scans (n + 1) (gap ++ first :: more)
      = ((scan first more).found :: (scans n (more.drop (scan first more).more)).1,
        (scans n (more.drop (scan first more).more)).2) := by
  have hstart : (gap ++ first :: more).drop (Gap.size (gap ++ first :: more)) = first :: more := by
    rw [Gap.size_append hgap, Gap.size_cons hblank hpercent, Nat.add_zero, List.drop_left]
  rw [scans, hstart]

theorem length_scans_le (n : Nat) : ∀ bytes, (scans n bytes).1.length ≤ n := by
  induction n with
  | zero => exact fun bytes => Nat.le_refl 0
  | succ n ih =>
    intro bytes
    cases Gap.splits bytes with
    | ended hgap =>
      rw [scans_of_trailing hgap]
      exact Nat.zero_le _
    | before hgap hblank hpercent =>
      rw [scans_cons hgap hblank hpercent]
      exact Nat.succ_le_succ (ih _)

/-- Scans go on with the bytes that those before them left. -/
theorem scans_add (m n : Nat) : ∀ bytes, scans (m + n) bytes
    = ((scans m bytes).1 ++ (scans n (scans m bytes).2).1, (scans n (scans m bytes).2).2) := by
  induction m with
  | zero =>
    intro bytes
    rw [Nat.zero_add]
    rfl
  | succ m ih =>
    intro bytes
    rw [Nat.add_right_comm]
    cases Gap.splits bytes with
    | ended hgap =>
      rw [scans_of_trailing hgap, scans_of_trailing hgap, scans_of_trailing hgap]
      rfl
    | before hgap hblank hpercent =>
      rw [scans_cons hgap hblank hpercent, scans_cons hgap hblank hpercent, ih]
      rfl

/-- **As many scans as there are bytes** leave only a gap. -/
theorem trailing_scans (n : Nat) : ∀ bytes, bytes.length ≤ n → Gap.Trailing (scans n bytes).2 := by
  induction n with
  | zero =>
    intro bytes hlength
    obtain rfl := List.length_eq_zero_iff.mp (Nat.le_zero.mp hlength)
    exact .closed .nil
  | succ n ih =>
    intro bytes hlength
    cases Gap.splits bytes with
    | ended hgap =>
      rw [scans_of_trailing hgap]
      exact hgap
    | @before gap first more hgap hblank hpercent =>
      rw [scans_cons hgap hblank hpercent]
      refine ih _ ?_
      rw [List.length_append, List.length_cons] at hlength
      rw [List.length_drop]
      omega

end Token

/-! ### Readers that deliver nothing -/

namespace Reader

/-- A reader takes what is found without delivering an event or meeting the data of an
image, and is `r'` then. -/
inductive Passes : (r : Reader) → List (Except Token.Failure Token) → (r' : Reader) → Prop where
  | nil {r : Reader} : Passes r [] r
  | cons {r next r' : Reader} {outcome : Outcome} {found : Except Token.Failure Token}
      {rest : List (Except Token.Failure Token)} : r.take 0 found = (next, outcome) →
      outcome.silenced = .nothing → Passes next rest r' → Passes r (found :: rest) r'

theorem Passes.append {r r' r'' : Reader} {found found' : List (Except Token.Failure Token)}
    (h : r.Passes found r') (h' : r'.Passes found' r'') : r.Passes (found ++ found') r'' := by
  induction h with
  | nil => exact h'
  | cons htake hsilent _ ih => exact .cons htake hsilent (ih h')

theorem ne_imageData_of_silenced {outcome : Outcome} (h : outcome.silenced = .nothing) :
    outcome ≠ .imageData := by
  rintro rfl
  cases h

theorem event?_of_silenced {turn : Turn} (h : turn.outcome.silenced = .nothing) :
    turn.event? = none := by
  rw [Turn.event?_eq, ← Outcome.event?_silenced, h]
  rfl

/-- A scan that is taken silently is one round, whatever the offset. -/
theorem exists_silent_turn {r next : Reader} {outcome : Outcome} {gap : List UInt8} {first : UInt8}
    {more : List UInt8} (hgap : Gap.Closed gap) (hblank : Byte.isBlank first = false)
    (hpercent : first ≠ Byte.percent)
    (htake : r.take 0 (Token.scan first more).found = (next, outcome))
    (hsilent : outcome.silenced = .nothing) (offset : Nat) :
    ∃ turn, r.turn? ⟨offset, gap ++ first :: more⟩ = some turn
      ∧ turn.scan.found = (Token.scan first more).found ∧ turn.reader = next
      ∧ turn.outcome.silenced = .nothing
      ∧ turn.next = ⟨offset + gap.length + ((Token.scan first more).more + 1),
        more.drop (Token.scan first more).more⟩ := by
  obtain ⟨hreader, hsilenced⟩ :=
    r.take_offset (offset + gap.length) 0 (Token.scan first more).found
  rw [htake] at hreader hsilenced
  have hquiet := hsilenced.trans hsilent
  refine ⟨_, (turn?_gap r hgap offset _).trans (turn?_cons r hblank hpercent _ more), rfl, hreader,
    hquiet, ?_⟩
  exact resume_of_ne (ne_imageData_of_silenced hquiet) _

/-- The reader after rounds. -/
def after (r : Reader) (turns : List Turn) : Reader := turns.foldl (fun _ turn => turn.reader) r

/-- **What a reader passes over** are its next rounds, and then it goes on where the scans
stopped. -/
theorem rounds_scans (n : Nat) : ∀ {r r' : Reader} {bytes : List UInt8} (offset : Nat),
    r.Passes (Token.scans n bytes).1 r' →
      ∃ turns stop, r.rounds ⟨offset, bytes⟩ = turns ++ r'.rounds ⟨stop, (Token.scans n bytes).2⟩
        ∧ stop + (Token.scans n bytes).2.length = offset + bytes.length
        ∧ turns.map (·.scan.found) = (Token.scans n bytes).1 ∧ r.after turns = r'
        ∧ ∀ turn ∈ turns, turn.outcome.silenced = .nothing := by
  induction n with
  | zero =>
    intro r r' bytes offset h
    cases h
    exact ⟨[], offset, rfl, rfl, rfl, rfl, fun turn hturn => absurd hturn List.not_mem_nil⟩
  | succ n ih =>
    intro r r' bytes offset h
    cases Gap.splits bytes with
    | ended hgap =>
      rw [Token.scans_of_trailing hgap] at h ⊢
      cases h
      exact ⟨[], offset, rfl, rfl, rfl, rfl, fun turn hturn => absurd hturn List.not_mem_nil⟩
    | @before gap first more hgap hblank hpercent =>
      rw [Token.scans_cons hgap hblank hpercent] at h ⊢
      cases h with
      | cons htake hsilent hrest =>
        obtain ⟨turn, hturn, hfound, rfl, hquiet, hnext⟩ :=
          exists_silent_turn hgap hblank hpercent htake hsilent offset
        obtain ⟨turns, stop, hrounds, hstop, hfounds, hafter, hturns⟩ :=
          ih (offset + gap.length + ((Token.scan first more).more + 1)) hrest
        refine ⟨turn :: turns, stop, ?_, ?_, ?_, hafter,
          List.forall_mem_cons.mpr ⟨hquiet, hturns⟩⟩
        · rw [rounds_of_turn hturn, hnext, hrounds, List.cons_append]
        · have hmore := Token.scan_more_le first more
          rw [hstop, List.length_drop, List.length_append, List.length_cons]
          omega
        · rw [List.map_cons, hfound, hfounds]

end Reader

end PageText
