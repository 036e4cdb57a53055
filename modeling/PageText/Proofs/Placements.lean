/-
PageText/Proofs/Placements.lean

Where the characters of a string are placed.  Showing a string reads its characters
from left to right and gives one placement for each: the one after `k` others is made
in the state that their advances have moved along the line,

    placements[k] = place chars[k] (s.along [advance 0, ..., advance (k - 1)])

(`getElem?_placements`), so each of them is told by the characters before it and the
state that the string is shown from.  A string in two parts is placed like its parts,
the second one from where the first one ends (`placements_append`).

A lookup that fails counts as zero by itself: the metrics that answer zero there give
the same placements, but for the notices (`place_total`).

Main result: `showText_placements`.
-/
import PageText.Proofs.Typesetting

namespace PageText

variable {α : Type} [Scalar α]

open Scalar (zero)

/-! ### Moves along the line -/

/-- The state after advances along the line, one after another: each puts a shift
before the matrix, and nothing else changes. -/
def TextState.along (s : TextState α) (advances : List α) : TextState α :=
  { s with
    matrix := advances.foldl (fun matrix advance => (Transform.shift advance zero).andThen matrix)
      s.matrix }

@[simp] theorem TextState.along_nil (s : TextState α) : s.along [] = s := rfl

@[simp] theorem TextState.along_cons (s : TextState α) (advance : α) (rest : List α) :
    s.along (advance :: rest) = (s.move advance zero).along rest := rfl

/-! ### Placements in a row -/

/-- The emission of placed characters: a run for each of them, and the notices of the
lookups that failed. -/
def Emission.ofPlacements (placed : List (Placement α)) : Emission α where
  runs := (placed.map Placement.run).toArray
  notices := (placed.flatMap fun placement => placement.notices.toList).toArray

omit [Scalar α] in
theorem Emission.ofPlacements_cons (placement : Placement α) (rest : List (Placement α)) :
    ofPlacements (placement :: rest)
      = append ⟨#[placement.run], placement.notices⟩ (ofPlacements rest) := by
  simp [ofPlacements, append]

omit [Scalar α] in
theorem Emission.ofPlacements_append (first second : List (Placement α)) :
    ofPlacements (first ++ second) = (ofPlacements first).append (ofPlacements second) := by
  simp [ofPlacements, append]

namespace Typesetter

/-- The placements of characters that are shown from a state. -/
def placements (t : Typesetter α) (s : TextState α) : List Char → List (Placement α)
  | [] => []
  | ch :: rest => t.place ch s :: t.placements (t.advanced ch s) rest

/-- What characters emit is what their placements hold. -/
theorem shown_eq (t : Typesetter α) (chars : List Char) :
    ∀ s : TextState α, t.shown s chars = .ofPlacements (t.placements s chars) := by
  induction chars with
  | nil =>
    intro s
    rfl
  | cons ch rest ih =>
    intro s
    rw [shown, placements, Emission.ofPlacements_cons, ih]
    rfl

/-- **Each character is placed** in the state that the ones before it have moved
along the line, and there is a placement for each. -/
theorem getElem?_placements (t : Typesetter α) (chars : List Char) :
    ∀ (s : TextState α) (k : Nat),
      (t.placements s chars)[k]? = chars[k]?.map fun ch =>
        t.place ch (s.along (((t.placements s chars).take k).map Placement.advance)) := by
  induction chars with
  | nil =>
    intro s k
    rfl
  | cons ch rest ih =>
    intro s k
    cases k with
    | zero => rfl
    | succ k =>
      -- the first character has moved the state that the others are placed from
      rw [placements, List.getElem?_cons_succ, List.getElem?_cons_succ, ih, List.take_succ_cons,
        List.map_cons, TextState.along_cons]
      rfl

/-- A string in two parts is placed like its parts, the second from where the first
has moved the state. -/
theorem placements_append (t : Typesetter α) (first second : List Char) :
    ∀ s : TextState α, t.placements s (first ++ second)
      = t.placements s first
        ++ t.placements (s.along ((t.placements s first).map Placement.advance)) second := by
  induction first with
  | nil =>
    intro s
    rfl
  | cons ch rest ih =>
    intro s
    rw [List.cons_append, placements, ih, placements, List.map_cons, TextState.along_cons]
    rfl

end Typesetter

/-! ### Metrics that cannot be had -/

/-- The metrics that give the same answers, and answer zero where a lookup fails. -/
def Metrics.total (m : Metrics α) : Metrics α where
  width ch s := .ok ((m.width ch s).toOption.getD Scalar.zero)
  height ch s := .ok ((m.height ch s).toOption.getD Scalar.zero)
  displacement ch s := .ok ((m.displacement ch s).toOption.getD ⟨Scalar.zero, Scalar.zero⟩)

/-- The typesetter with metrics that always answer. -/
def Typesetter.total (t : Typesetter α) : Typesetter α := { t with metrics := t.metrics.total }

omit [Scalar α] in
theorem orElseNotice_fst {β : Type} (lookup : Except Error β) (standIn : β) :
    (orElseNotice lookup standIn).1 = lookup.toOption.getD standIn := by
  cases lookup <;> rfl

/-- **A lookup that fails counts as zero by itself**: metrics that answer zero there
place the character alike, with nothing to report. -/
theorem Typesetter.place_total (t : Typesetter α) (ch : Char) (s : TextState α) :
    t.total.place ch s = { t.place ch s with notices := #[] } := by
  simp only [place, total, Metrics.total, orElseNotice_fst]
  rfl

theorem Typesetter.placements_total (t : Typesetter α) (chars : List Char) :
    ∀ s : TextState α, t.total.placements s chars
      = (t.placements s chars).map fun placement => { placement with notices := #[] } := by
  induction chars with
  | nil =>
    intro s
    rfl
  | cons ch rest ih =>
    intro s
    have hadvanced : t.total.advanced ch s = t.advanced ch s := by
      rw [advanced, advanced, place_total]
    rw [placements, placements, List.map_cons, place_total, hadvanced, ih]

omit [Scalar α] in
/-- Without the notices the placements hold the same runs. -/
theorem Emission.ofPlacements_silenced (placed : List (Placement α)) :
    ofPlacements (placed.map fun placement => { placement with notices := #[] })
      = { ofPlacements placed with notices := #[] } := by
  simp [ofPlacements, List.flatMap_map]

/-! ### Strings -/

theorem Typesetter.showText_eq (t : Typesetter α) (text : String) (s : TextState α)
    (below : Stack α) :
    t.showText text (s :: below)
      = .ok (.ofPlacements (t.placements s text.toList)) (s :: below) := by
  rw [showText_cons, shown_eq]

/-- **Showing a string** on a stack with a top state succeeds and leaves the stack as
it was.  What it emits depends on the top state alone: the run that each character has
where the ones before it have moved that state.  More characters go on from where the
string has moved the state, and metrics that answer zero where a lookup fails change no
run.  Without a state nothing is shown. -/
theorem Typesetter.showText_placements (t : Typesetter α) (s : TextState α) (text : String) :
    ∃ placed : List (Placement α),
      (∀ below, t.showText text (s :: below) = .ok (.ofPlacements placed) (s :: below))
        ∧ (∀ k : Nat, placed[k]? = text.toList[k]?.map fun ch =>
          t.place ch (s.along ((placed.take k).map Placement.advance)))
        ∧ (∀ (more : String) (below : Stack α), ∃ others : Emission α,
          let moved := s.along (placed.map Placement.advance)
          t.showText more (moved :: below) = .ok others (moved :: below)
            ∧ t.showText (text ++ more) (s :: below)
              = .ok ((Emission.ofPlacements placed).append others) (s :: below))
        ∧ (∀ below, t.total.showText text (s :: below)
          = .ok { Emission.ofPlacements placed with notices := #[] } (s :: below))
        ∧ t.showText text [] = .error Stack.underflow [] := by
  refine ⟨t.placements s text.toList, t.showText_eq text s, t.getElem?_placements _ s, ?_, ?_,
    rfl⟩
  · intro more below
    refine ⟨_, t.showText_eq more _ below, ?_⟩
    rw [showText_eq, String.toList_append, placements_append, Emission.ofPlacements_append]
  · intro below
    rw [showText_eq, placements_total, Emission.ofPlacements_silenced]

end PageText
