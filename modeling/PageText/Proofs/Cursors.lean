/-
PageText/Proofs/Cursors.lean

Scans as steps.  Two scans go through the bytes and keep something in mind: that for the
end of a literal string the parentheses that are open, and that for the end of image data
whether the byte before was a blank.  A cursor is what such a scan has at hand.  It goes on
by steps (`next?`), which leave the end where it is, until there is no further one; and what
every step preserves holds of all cursors that steps lead to (`Leads.preserves`).

Until a literal string ends, one parenthesis is open at least, and no more of them than
bytes have been read.  Image data does not start at the head of the bytes, so there is a
byte before each place that the scan comes by.

Main results: `Quotation.Cursor.depth_bounds` and `ImageData.Cursor.lookbehind`.
-/
import Mathlib.Logic.Relation
import PageText.Proofs.Scanning

namespace PageText

/-! ### Steps -/

/-- Some steps lead from one state to the other. -/
def Leads {α : Type} (next? : α → Option α) : α → α → Prop :=
  Relation.ReflTransGen fun a b => next? a = some b

/-- What every step preserves holds wherever steps lead. -/
theorem Leads.preserves {α : Type} {next? : α → Option α} {a b : α} (h : Leads next? a b)
    {P : α → Prop} (hstep : ∀ a b, P a → next? a = some b → P b) (ha : P a) : P b := by
  induction h with
  | refl => exact ha
  | tail _ hnext ih => exact hstep _ _ ih hnext

/-! ### Literal strings -/

namespace Quotation

/-- What the scan for the end of a literal string has at hand. -/
structure Cursor where
  depth : Nat
  taken : Nat
  rest : List UInt8

namespace Cursor

/-- The scan after the opening parenthesis. -/
def ofBytes (bytes : List UInt8) : Cursor := ⟨1, 0, bytes⟩

/-- Where the string ends. -/
def end? (c : Cursor) : Option Nat := literalEnd? c.depth c.taken c.rest

/-- The scan one byte further on, or two if the first is a backslash; nothing when the
string or the bytes end. -/
def next? : Cursor → Option Cursor
  | ⟨_, _, []⟩ => none
  | ⟨depth, taken, b :: rest⟩ =>
    if b == Byte.backslash then
      match rest with
      | [] => none
      | _ :: rest => some ⟨depth, taken + 2, rest⟩
    else if b == Byte.openParen then some ⟨depth + 1, taken + 1, rest⟩
    else if b == Byte.closeParen then
      if depth ≤ 1 then none else some ⟨depth - 1, taken + 1, rest⟩
    else some ⟨depth, taken + 1, rest⟩

theorem next?_cons {b : UInt8} (h : ¬(b == Byte.backslash) = true) (depth taken : Nat)
    (rest : List UInt8) :
    next? ⟨depth, taken, b :: rest⟩
      = if b == Byte.openParen then some ⟨depth + 1, taken + 1, rest⟩
        else if b == Byte.closeParen then
          if depth ≤ 1 then none else some ⟨depth - 1, taken + 1, rest⟩
        else some ⟨depth, taken + 1, rest⟩ := by
  rw [next?.eq_def]
  exact if_neg h

variable {c next : Cursor}

/-- A step leaves the end where it is.  It takes up bytes, and opens or closes at most one
parenthesis, but does not close the last. -/
theorem step (h : c.next? = some next) :
    c.end? = next.end? ∧ c.taken < next.taken
      ∧ next.taken + next.rest.length = c.taken + c.rest.length
      ∧ (next.depth = c.depth ∨ next.depth = c.depth + 1
        ∨ 1 < c.depth ∧ next.depth + 1 = c.depth) := by
  obtain ⟨depth, taken, - | ⟨b, rest⟩⟩ := c
  · cases h
  by_cases hescape : (b == Byte.backslash) = true
  · rcases rest with - | ⟨e, rest⟩
    · rw [next?, if_pos hescape] at h
      cases h
    · rw [next?, if_pos hescape] at h
      obtain rfl := Option.some.inj h
      rw [end?, literalEnd?, if_pos hescape]
      refine ⟨rfl, Nat.lt_add_of_pos_right (by decide), ?_, .inl rfl⟩
      simp only [List.length_cons]
      omega
  rw [next?_cons hescape] at h
  rw [end?, literalEnd?_cons hescape]
  have hlength : taken + 1 + rest.length = taken + (b :: rest).length := by
    rw [List.length_cons, Nat.add_assoc, Nat.add_comm 1]
  split_ifs at h ⊢ with hopen hclose hlast
  · obtain rfl := Option.some.inj h
    exact ⟨rfl, Nat.lt_succ_self taken, hlength, .inr (.inl rfl)⟩
  · obtain rfl := Option.some.inj h
    have hinner : 1 < depth := Nat.lt_of_not_le hlast
    exact ⟨rfl, Nat.lt_succ_self taken, hlength,
      .inr (.inr ⟨hinner, Nat.sub_add_cancel (Nat.le_of_lt hinner)⟩)⟩
  · obtain rfl := Option.some.inj h
    exact ⟨rfl, Nat.lt_succ_self taken, hlength, .inl rfl⟩

/-- Where there is no further step, the string ends at a closing parenthesis or not at
all. -/
theorem end?_of_last (h : c.next? = none) :
    c.end? = if c.rest.head? = some Byte.closeParen then some (c.taken + 1) else none := by
  obtain ⟨depth, taken, - | ⟨b, rest⟩⟩ := c
  · rfl
  by_cases hescape : (b == Byte.backslash) = true
  · rcases rest with - | ⟨e, rest⟩
    · obtain rfl := beq_iff_eq.mp hescape
      rfl
    · rw [next?, if_pos hescape] at h
      cases h
  rw [next?_cons hescape] at h
  rw [end?, literalEnd?_cons hescape]
  split_ifs at h with hopen hclose hlast
  rw [if_neg hopen, if_pos hclose, if_pos hlast, List.head?_cons, beq_iff_eq.mp hclose]
  rfl

/-- **The open parentheses** are one at least, and no more than the bytes that are read,
with the one at the head. -/
theorem depth_bounds {bytes : List UInt8} (h : Leads next? (.ofBytes bytes) c) :
    1 ≤ c.depth ∧ c.depth ≤ c.taken + 1 ∧ c.taken + c.rest.length = bytes.length
      ∧ literalEnd? 1 0 bytes = c.end? := by
  refine h.preserves (P := fun c => 1 ≤ c.depth ∧ c.depth ≤ c.taken + 1
    ∧ c.taken + c.rest.length = bytes.length ∧ literalEnd? 1 0 bytes = c.end?) ?_ ?_
  · rintro c next ⟨hone, hdepth, hlength, hend⟩ hnext
    obtain ⟨hsame, htaken, hrest, hchange⟩ := step hnext
    exact ⟨by omega, by omega, by omega, hend.trans hsame⟩
  · exact ⟨Nat.le_refl 1, Nat.le_refl 1, Nat.zero_add _, rfl⟩

end Cursor

end Quotation

/-! ### Image data -/

namespace ImageData

/-- What the scan for the end of image data has at hand. -/
structure Cursor where
  afterBlank : Bool
  taken : Nat
  rest : List UInt8

namespace Cursor

/-- The scan after the keyword of the data and one blank. -/
def ofBytes : List UInt8 → Cursor
  | [] => ⟨false, 0, []⟩
  | b :: rest => if Byte.isBlank b then ⟨true, 1, rest⟩ else ⟨false, 0, b :: rest⟩

/-- How many bytes are read when the data ends. -/
def end? (c : Cursor) : Option Nat := sizeFrom? c.afterBlank c.taken c.rest

/-- The scan one byte further on; nothing at the end mark or when the bytes end. -/
def next? : Cursor → Option Cursor
  | ⟨_, _, []⟩ => none
  | ⟨afterBlank, taken, b :: rest⟩ =>
    if afterBlank && startsWithEnd (b :: rest) then none
    else some ⟨Byte.isBlank b, taken + 1, rest⟩

variable {c next : Cursor}

theorem size?_eq (bytes : List UInt8) : size? bytes = (ofBytes bytes).end? := by
  rcases bytes with - | ⟨b, rest⟩
  · rfl
  · rw [size?, ofBytes]
    split <;> rfl

/-- A step takes up one byte, and leaves the end where it is. -/
theorem step (h : c.next? = some next) :
    c.end? = next.end? ∧ ∃ b, c.rest = b :: next.rest ∧ next.taken = c.taken + 1
      ∧ next.afterBlank = Byte.isBlank b := by
  obtain ⟨afterBlank, taken, - | ⟨b, rest⟩⟩ := c
  · cases h
  rw [next?] at h
  split at h
  · cases h
  · next hend =>
    obtain rfl := Option.some.inj h
    refine ⟨?_, b, rfl, rfl, rfl⟩
    rw [end?, sizeFrom?, if_neg hend]
    rfl

/-- Where there is no further step, the data ends with a mark or with the bytes. -/
theorem end?_of_last (h : c.next? = none) :
    c.end? = if c.rest.isEmpty then none else some (c.taken + 2) := by
  obtain ⟨afterBlank, taken, - | ⟨b, rest⟩⟩ := c
  · rfl
  rw [next?] at h
  split at h
  · next hend =>
    rw [end?, sizeFrom?, if_pos hend]
    rfl
  · cases h

/-- The scan stands at a place of the bytes, which is not their head, and knows whether the
byte before is a blank. -/
def Stands (bytes : List UInt8) (start : Nat) (c : Cursor) : Prop :=
  ∃ before last, bytes = before ++ last :: c.rest ∧ start + c.taken = before.length + 1
    ∧ Byte.isBlank last = c.afterBlank

/-- Data is read from after a byte that is no blank. -/
theorem stands_ofBytes {read : List UInt8} {last : UInt8} (hlast : Byte.isBlank last = false)
    (data : List UInt8) :
    Stands (read ++ last :: data) (read.length + 1) (ofBytes data) := by
  rcases data with - | ⟨b, data⟩
  · exact ⟨read, last, rfl, rfl, hlast⟩
  rw [ofBytes]
  split
  · next hblank =>
    refine ⟨read ++ [last], b, ?_, ?_, hblank⟩
    · rw [List.append_assoc, List.singleton_append]
    · rw [List.length_append, List.length_singleton]
  · exact ⟨read, last, rfl, rfl, hlast⟩

theorem Stands.step {bytes : List UInt8} {start : Nat} (h : Stands bytes start c)
    (hnext : c.next? = some next) : Stands bytes start next := by
  obtain ⟨before, last, rfl, htaken, -⟩ := h
  obtain ⟨-, b, hrest, hone, hblank⟩ := Cursor.step hnext
  refine ⟨before ++ [last], b, ?_, ?_, hblank.symm⟩
  · rw [hrest, List.append_assoc, List.singleton_append]
  · rw [hone, ← Nat.add_assoc, htaken, List.length_append, List.length_singleton]

/-- **There is a byte before** all places that the scan for the end of image data comes
by. -/
theorem lookbehind (read : List UInt8) {last : UInt8} (hlast : Byte.isBlank last = false)
    {data : List UInt8} (h : Leads next? (ofBytes data) c) :
    Stands (read ++ last :: data) (read.length + 1) c ∧ size? data = c.end? := by
  refine h.preserves (P := fun c => Stands (read ++ last :: data) (read.length + 1) c
    ∧ size? data = c.end?) ?_ ?_
  · rintro c next ⟨hstands, hend⟩ hnext
    exact ⟨hstands.step hnext, hend.trans (Cursor.step hnext).1⟩
  · exact ⟨stands_ofBytes hlast data, size?_eq data⟩

end Cursor

end ImageData

end PageText
