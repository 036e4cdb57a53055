/-
PageText/Proofs/SpacedStrings.lean

Arrays of text string by string.  An array is shown in a copy of the top state, where
its numbers replace the adjustment and each string is shown in a copy of its own.  So a
string finds the state that the array is shown from, but for the adjustment, which is
the last number before it:

    array emits  =  strings emit, one after another, each from { s with adjustment := v }

where `v` is `adjustmentAfter s.adjustment` of the items before the string.

Main result: `showSpaced_strings`.
-/
import Mathlib.Data.List.Forall2
import PageText.Proofs.Operands
import PageText.Proofs.Operators

namespace PageText

/-! ### Strings and the numbers before them -/

/-- The number of an item, if it is one. -/
def TextItem.adjustment? : TextItem → Option Float
  | adjustment value => some value
  | text _ => none

/-- The adjustment after items: the last number among them, or `own` if there is none. -/
def adjustmentAfter (own : Float) (items : List TextItem) : Float :=
  (items.filterMap TextItem.adjustment?).getLast?.getD own

/-- The strings of an array in order, each with the adjustment after the items before
it. -/
def adjustedStrings (own : Float) (items : List TextItem) : List (Float × String) :=
  items.zipIdx.filterMap fun (item, k) =>
    item.text?.map fun text => (adjustmentAfter own (items.take k), text)

/-- A number takes the place of the one before it. -/
theorem adjustmentAfter_adjustment (own value : Float) (rest : List TextItem) :
    adjustmentAfter own (.adjustment value :: rest) = adjustmentAfter value rest := by
  have hcons : (TextItem.adjustment value :: rest).filterMap TextItem.adjustment?
      = value :: rest.filterMap TextItem.adjustment? := rfl
  rw [adjustmentAfter, adjustmentAfter, hcons, List.getLast?_cons, Option.getD_some]

/-- The first item comes first if it is a string, and those after it find the
adjustment that it leaves. -/
theorem adjustedStrings_cons {own left : Float} {item : TextItem}
    (h : ∀ before, adjustmentAfter own (item :: before) = adjustmentAfter left before)
    (rest : List TextItem) :
    adjustedStrings own (item :: rest)
      = (item.text?.map fun text => (own, text)).toList ++ adjustedStrings left rest := by
  -- the items after the first one have one more before them
  have hrest : (rest.zipIdx 1).filterMap (fun (other, k) =>
        other.text?.map fun text => (adjustmentAfter own ((item :: rest).take k), text))
      = adjustedStrings left rest := by
    rw [List.zipIdx_succ, List.filterMap_map, adjustedStrings]
    simp only [Function.comp_def, List.take_succ_cons, h]
  rw [adjustedStrings, List.zipIdx_cons, List.filterMap_cons, Nat.zero_add, hrest]
  cases item <;> rfl

theorem adjustedStrings_adjustment (own value : Float) (rest : List TextItem) :
    adjustedStrings own (.adjustment value :: rest) = adjustedStrings value rest :=
  adjustedStrings_cons (fun before => adjustmentAfter_adjustment own value before) rest

theorem adjustedStrings_text (own : Float) (text : String) (rest : List TextItem) :
    adjustedStrings own (.text text :: rest) = (own, text) :: adjustedStrings own rest :=
  adjustedStrings_cons (fun _ => rfl) rest

/-! ### What the strings emit -/

/-- Emissions one after another. -/
def Emission.join {α : Type} (parts : List (Emission α)) : Emission α :=
  parts.foldr append .empty

/-- The emissions of the strings of an array, each shown from the state with its
adjustment. -/
def Setting.shownStrings (setting : Setting) (s : TextState Float) (items : List TextItem) :
    List (Emission Float) :=
  (adjustedStrings s.adjustment items).map fun (adjustment, text) =>
    setting.typesetter.shown { s with adjustment := adjustment } text.toList

/-- **The items of an array** emit what its strings emit. -/
theorem Setting.shownItems_eq_join (setting : Setting) (items : List TextItem) :
    ∀ s : TextState Float,
      setting.shownItems s items = .join (setting.shownStrings s items) := by
  induction items with
  | nil =>
    intro s
    rfl
  | cons item rest ih =>
    intro s
    cases item with
    | adjustment value =>
      -- the states differ in the adjustment alone, which every string replaces
      rw [shownItems, ih, shownStrings, shownStrings, adjustedStrings_adjustment]
    | text text =>
      rw [shownItems, ih, shownStrings, shownStrings, adjustedStrings_text, List.map_cons]
      rfl

namespace Interpreter

variable {setting : Setting} {i : Interpreter} {s : TextState Float} {below : Stack Float}

/-- The interpreter with another adjustment in its top state. -/
def adjustTop (adjustment : Float) (i : Interpreter) : Interpreter :=
  { i with stack := i.stack.modifyHead ({ · with adjustment := adjustment }) }

/-- A string of an array, shown from the state of the interpreter with its
adjustment. -/
theorem showText_adjustTop (hstack : i.stack = s :: below) (adjustment : Float) (text : String) :
    showText setting text (i.adjustTop adjustment)
      = .ok (setting.typesetter.shown { s with adjustment := adjustment } text.toList)
        (i.adjustTop adjustment) := by
  have hadjusted : i.adjustTop adjustment
      = { i with stack := { s with adjustment := adjustment } :: below } := by
    rw [adjustTop, hstack]
    rfl
  rw [hadjusted, showText_cons]

/-- **An array is shown string by string.**  It emits what its strings emit, one after
another, each shown from the stack as it stands before the array but for the adjustment
of the top state: the last number before the string, or the one that was there if there
is none.  The interpreter is left as it was. -/
theorem showSpaced_strings (setting : Setting) (items : List TextItem)
    (hstack : i.stack = s :: below) :
    ∃ parts : List (Emission Float),
      List.Forall₂
          (fun (adjustment, text) part =>
            showText setting text (i.adjustTop adjustment) = .ok part (i.adjustTop adjustment))
          (adjustedStrings s.adjustment items) parts
        ∧ showSpaced setting items i = .ok (.join parts) i := by
  refine ⟨setting.shownStrings s items, ?_, ?_⟩
  · rw [Setting.shownStrings, List.forall₂_map_right_iff, List.forall₂_same]
    intro string _
    exact showText_adjustTop hstack string.1 string.2
  · have hi : i = { i with stack := s :: below } := by rw [← hstack]
    rw [hi, showSpaced_cons, Setting.shownItems_eq_join]

/-- A string before any number keeps the adjustment of the state; of two numbers in a
row the second one counts, and it counts for both strings after it. -/
theorem showSpaced_strings_of_replaced_numbers :
    let s : TextState Float := { TextState.initial with fontSize := 12, adjustment := 7 }
    let i : Interpreter := { stack := [s, TextState.initial] }
    let items : List TextItem :=
      [.text "ab", .adjustment 100, .text "c", .adjustment 50, .adjustment (-20), .text "d",
        .text "e"]
    ∃ ab c d e : Emission Float,
      showText {} "ab" (i.adjustTop 7) = .ok ab (i.adjustTop 7)
        ∧ showText {} "c" (i.adjustTop 100) = .ok c (i.adjustTop 100)
        ∧ showText {} "d" (i.adjustTop (-20)) = .ok d (i.adjustTop (-20))
        ∧ showText {} "e" (i.adjustTop (-20)) = .ok e (i.adjustTop (-20))
        ∧ showSpaced {} items i = .ok (.join [ab, c, d, e]) i := by
  intro s i items
  have hstrings : adjustedStrings s.adjustment items
      = [(7, "ab"), (100, "c"), (-20, "d"), (-20, "e")] := rfl
  obtain ⟨parts, hparts, hshown⟩ := showSpaced_strings {} items (i := i) (s := s) rfl
  rw [hstrings] at hparts
  obtain _ | ⟨hab, _ | ⟨hc, _ | ⟨hd, _ | ⟨he, ⟨⟩⟩⟩⟩⟩ := hparts
  exact ⟨_, _, _, _, hab, hc, hd, he, hshown⟩

end Interpreter

end PageText
