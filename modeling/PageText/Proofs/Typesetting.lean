/-
PageText/Proofs/Typesetting.lean

What showing a string comes to.  A string is shown by actions on the stack
that copy its top, move the copy along, and take it off again; what they emit
is a function of the top state and the characters alone (`Typesetter.shown`).

Main results: on a stack with a top state showing succeeds, emits
`Typesetter.shown` and hands back the stack it was given (`showText_cons`); and
what it emits is one run for each character (`shown_contents`).
-/
import PageText.Run

namespace PageText

/-! ### Actions in a row -/

section Actions

variable {ε σ β γ : Type} {x : EStateM ε σ β} {f : β → EStateM ε σ γ} {s s' : σ}

theorem bind_of_ok {a : β} (h : x s = .ok a s') : (x >>= f) s = f a s' := by
  show EStateM.bind x f s = _
  rw [EStateM.bind, h]

theorem bind_of_error {e : ε} (h : x s = .error e s') : (x >>= f) s = .error e s' := by
  show EStateM.bind x f s = _
  rw [EStateM.bind, h]

end Actions

variable {α : Type}

/-! ### Emissions in a row -/

namespace Emission

@[simp] theorem empty_append (e : Emission α) : Emission.empty.append e = e := by
  simp [append, empty]

@[simp] theorem append_empty (e : Emission α) : e.append .empty = e := by
  simp [append, empty]

theorem append_assoc (e₁ e₂ e₃ : Emission α) :
    (e₁.append e₂).append e₃ = e₁.append (e₂.append e₃) := by
  simp [append, Array.append_assoc]

@[simp] theorem append_runs (e₁ e₂ : Emission α) : (e₁.append e₂).runs = e₁.runs ++ e₂.runs := rfl

@[simp] theorem filterRuns_runs (e : Emission α) (keep : Run α → Bool) :
    (e.filterRuns keep).runs = e.runs.filter keep := rfl

end Emission

variable [Scalar α]

open Scalar (zero)

/-! ### Characters in a row -/

namespace Typesetter

/-- The emission of a placed character. -/
def emitted (t : Typesetter α) (ch : Char) (s : TextState α) : Emission α :=
  ⟨#[(t.place ch s).run], (t.place ch s).notices⟩

/-- The state moved along by a character. -/
def advanced (t : Typesetter α) (ch : Char) (s : TextState α) : TextState α :=
  s.move (t.place ch s).advance zero

/-- The state moved along by characters. -/
def after (t : Typesetter α) (s : TextState α) : List Char → TextState α
  | [] => s
  | ch :: rest => t.after (t.advanced ch s) rest

/-- What characters emit when they are shown from a state. -/
def shown (t : Typesetter α) (s : TextState α) : List Char → Emission α
  | [] => .empty
  | ch :: rest => (t.emitted ch s).append (t.shown (t.advanced ch s) rest)

/-- Placing characters works on the top state alone: it moves it along and
adds what the characters emit. -/
theorem placeAll_cons (t : Typesetter α) (below : Stack α) (chars : List Char) :
    ∀ (before : Emission α) (s : TextState α),
      t.placeAll before chars (s :: below)
        = .ok (before.append (t.shown s chars)) (t.after s chars :: below) := by
  induction chars with
  | nil =>
    intro before s
    rw [shown, Emission.append_empty]
    rfl
  | cons ch rest ih =>
    intro before s
    have hstep : t.placeAll before (ch :: rest) (s :: below)
        = t.placeAll (before.append (t.emitted ch s)) rest (t.advanced ch s :: below) := by
      rw [placeAll, emitted, Emission.append, Array.append_singleton]
      rfl
    rw [hstep, ih, shown, after, Emission.append_assoc]

/-- **Showing a string** leaves the stack as it was, and what it emits depends
on the top state alone. -/
theorem showText_cons (t : Typesetter α) (text : String) (s : TextState α) (below : Stack α) :
    t.showText text (s :: below) = .ok (t.shown s text.toList) (s :: below) := by
  have hplace : t.placeAll .empty text.toList (s :: s :: below)
      = .ok (t.shown s text.toList) (t.after s text.toList :: s :: below) := by
    rw [placeAll_cons, Emission.empty_append]
  have hcopy : Stack.pushCopy (s :: below) = .ok () (s :: s :: below) := rfl
  rw [showText, bind_of_ok hcopy, bind_of_ok hplace]
  rfl

/-! ### What is shown -/

/-- One run for each character, holding that character. -/
theorem shown_contents (t : Typesetter α) (chars : List Char) :
    ∀ s : TextState α,
      (t.shown s chars).runs.toList.map Run.content = chars.map String.singleton := by
  induction chars with
  | nil =>
    intro s
    rfl
  | cons ch rest ih =>
    intro s
    rw [shown, Emission.append_runs, Array.toList_append, List.map_append, ih, List.map_cons]
    rfl

end Typesetter

end PageText
