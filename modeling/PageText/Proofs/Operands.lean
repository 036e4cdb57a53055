/-
PageText/Proofs/Operands.lean

What a checked event says about its operands.  The check of an operator reads
its operands one by one; when a reading succeeds, the operand stands at its
place (`numberAt_eq_ok` and the lemmas beside it), and the operator that is made
has the kind it was checked for (`kind_of_ofOperands`).

Main result: the strings of a showing operator are the strings among the
operands of its event, those within an array included, in the order in which
they are written (`texts_of_ofEvent?`).
-/
import Mathlib.Data.List.Basic
import PageText.Operator.Check

namespace PageText

/-- When two steps in a row succeed, both do. -/
theorem bind_eq_ok {ε β γ : Type} {x : Except ε β} {f : β → Except ε γ} {c : γ}
    (h : (x >>= f) = .ok c) : ∃ b, x = .ok b ∧ f b = .ok c := by
  rcases x with error | b
  · cases h
  · exact ⟨b, rfl, h⟩

/-! ### Single operands -/

namespace Operands

variable {operands : List Operand} {n i : Nat}

theorem expectCount_eq_ok {u : Unit} (h : expectCount operands n = .ok u) :
    operands.length = n := by
  unfold expectCount at h
  split at h
  · assumption
  · cases h

theorem operandAt_eq_ok {operand : Operand} (h : operandAt operands i = .ok operand) :
    operands[i]? = some operand := by
  unfold operandAt at h
  split at h
  · next hi =>
    cases h
    exact hi
  · cases h

theorem numberAt_eq_ok {x : Float} (h : numberAt operands i = .ok x) :
    operands[i]? = some (.number x) ∧ x.isFinite = true := by
  obtain ⟨operand, hi, h⟩ := bind_eq_ok h
  cases operand with
  | number y =>
    simp only at h
    split at h
    · next hfinite =>
      cases h
      exact ⟨operandAt_eq_ok hi, hfinite⟩
    · cases h
  | _ => cases h

theorem textAt_eq_ok {text : String} (h : textAt operands i = .ok text) :
    operands[i]? = some (.text text) := by
  obtain ⟨operand, hi, h⟩ := bind_eq_ok h
  cases operand with
  | text other =>
    cases h
    exact operandAt_eq_ok hi
  | _ => cases h

theorem textItemsAt_eq_ok {items : List TextItem} (h : textItemsAt operands i = .ok items) :
    ∃ array, operands[i]? = some (.array array) ∧ array.mapM textItem = .ok items := by
  obtain ⟨operand, hi, h⟩ := bind_eq_ok h
  cases operand with
  | array array => exact ⟨array, operandAt_eq_ok hi, h⟩
  | _ => cases h

/-- One operand, given by its place. -/
theorem eq_singleton {operand : Operand} (hcount : operands.length = 1)
    (h : operands[0]? = some operand) : operands = [operand] := by
  obtain ⟨first, rfl⟩ := List.length_eq_one_iff.mp hcount
  exact congrArg (fun o => [o]) (Option.some.inj h)

theorem eq_triple {first second third : Operand} (hcount : operands.length = 3)
    (h₀ : operands[0]? = some first) (h₁ : operands[1]? = some second)
    (h₂ : operands[2]? = some third) : operands = [first, second, third] := by
  obtain ⟨a, b, c, rfl⟩ := List.length_eq_three.mp hcount
  obtain rfl : a = first := Option.some.inj h₀
  obtain rfl : b = second := Option.some.inj h₁
  obtain rfl : c = third := Option.some.inj h₂
  rfl

theorem nothing_eq_ok {made op : Operator} (h : nothing operands made = .ok op) : op = made := by
  obtain ⟨_, _, h⟩ := bind_eq_ok h
  cases h
  rfl

theorem oneNumber_eq_ok {make : Float → Operator} {op : Operator}
    (h : oneNumber operands make = .ok op) : ∃ x, op = make x := by
  obtain ⟨_, _, h⟩ := bind_eq_ok h
  obtain ⟨x, _, h⟩ := bind_eq_ok h
  cases h
  exact ⟨x, rfl⟩

theorem twoNumbers_eq_ok {make : Float → Float → Operator} {op : Operator}
    (h : twoNumbers operands make = .ok op) : ∃ x y, op = make x y := by
  obtain ⟨_, _, h⟩ := bind_eq_ok h
  obtain ⟨x, _, h⟩ := bind_eq_ok h
  obtain ⟨y, _, h⟩ := bind_eq_ok h
  cases h
  exact ⟨x, y, rfl⟩

theorem oneText_eq_ok {make : String → Operator} {op : Operator}
    (h : oneText operands make = .ok op) : ∃ text, operands = [.text text] ∧ op = make text := by
  obtain ⟨_, hcount, h⟩ := bind_eq_ok h
  obtain ⟨text, htext, h⟩ := bind_eq_ok h
  cases h
  exact ⟨text, eq_singleton (expectCount_eq_ok hcount) (textAt_eq_ok htext), rfl⟩

end Operands

/-! ### Kinds -/

/-- The operator of a checked event has the kind that it was checked for. -/
theorem kind_of_ofOperands {kind : Kind} {operands : List Operand} {op : Operator}
    (h : Operator.ofOperands kind operands = .ok op) : op.kind = kind := by
  cases kind with
  | beginPage =>
    simp only [Operator.ofOperands] at h
    split at h
    · cases h
    · split at h
      · cases h
        rfl
      · obtain ⟨page, _, h⟩ := bind_eq_ok h
        cases h
        rfl
  | endPage | beginText | endText | nextLine =>
    obtain rfl := Operands.nothing_eq_ok h
    rfl
  | setLeading | setRise | setCharSpacing | setWordSpacing | setHorizontalScale =>
    obtain ⟨x, rfl⟩ := Operands.oneNumber_eq_ok h
    rfl
  | moveLine | moveLineSetLeading =>
    obtain ⟨x, y, rfl⟩ := Operands.twoNumbers_eq_ok h
    rfl
  | setFont =>
    obtain ⟨_, _, h⟩ := bind_eq_ok h
    obtain ⟨_, _, h⟩ := bind_eq_ok h
    obtain ⟨_, _, h⟩ := bind_eq_ok h
    cases h
    rfl
  | setMatrix =>
    obtain ⟨_, _, h⟩ := bind_eq_ok h
    obtain ⟨a, _, h⟩ := bind_eq_ok h
    obtain ⟨b, _, h⟩ := bind_eq_ok h
    obtain ⟨c, _, h⟩ := bind_eq_ok h
    obtain ⟨d, _, h⟩ := bind_eq_ok h
    obtain ⟨e, _, h⟩ := bind_eq_ok h
    obtain ⟨f, _, h⟩ := bind_eq_ok h
    cases h
    rfl
  | setSpacingNextLineShow =>
    obtain ⟨_, _, h⟩ := bind_eq_ok h
    obtain ⟨wordSpacing, _, h⟩ := bind_eq_ok h
    obtain ⟨charSpacing, _, h⟩ := bind_eq_ok h
    obtain ⟨s, _, h⟩ := bind_eq_ok h
    cases h
    rfl
  | nextLineShow | showText =>
    obtain ⟨s, _, rfl⟩ := Operands.oneText_eq_ok h
    rfl
  | showSpaced =>
    obtain ⟨_, _, h⟩ := bind_eq_ok h
    obtain ⟨items, _, h⟩ := bind_eq_ok h
    cases h
    rfl

/-- The operator that an event stands for was checked against the operands of
the event, for the kind that the event names. -/
theorem ofOperands_of_ofEvent? {event : Event} {op : Operator}
    (h : Operator.ofEvent? event = .ok (some op)) :
    Kind.ofName? event.kind = some op.kind
      ∧ Operator.ofOperands op.kind event.operands = .ok op := by
  unfold Operator.ofEvent? at h
  split at h
  · cases h
  · next kind hname =>
    split at h
    · next made hmade =>
      cases h
      rw [kind_of_ofOperands hmade]
      exact ⟨hname, hmade⟩
    · cases h

/-! ### Strings of showing operators -/

/-- The kinds of operators that show text. -/
def Kind.shows : Kind → Bool
  | setSpacingNextLineShow | nextLineShow | showText | showSpaced => true
  | _ => false

/-- The text of an item, if it is one. -/
def TextItem.text? : TextItem → Option String
  | adjustment _ => none
  | text s => some s

/-- The strings that an operator shows, in order. -/
def Operator.texts : Operator → List String
  | setSpacingNextLineShow _ _ s | nextLineShow s | showText s => [s]
  | showSpaced items => items.filterMap TextItem.text?
  | _ => []

/-- The text of an operand, if it is one. -/
def Operand.text? : Operand → Option String
  | text s => some s
  | _ => none

/-- The strings that an operand is or holds as items, in order. -/
def Operand.texts : Operand → List String
  | text s => [s]
  | array items => items.filterMap Operand.text?
  | _ => []

/-- The strings among the operands of an event that shows text and is well
formed; other events show none. -/
def Event.shownTexts (event : Event) : List String :=
  match Operator.ofEvent? event with
  | .ok (some op) => if op.kind.shows then event.operands.flatMap Operand.texts else []
  | _ => []

/-- The items of a checked array are its operands one by one. -/
theorem filterMap_text?_of_mapM (array : List Operand) :
    ∀ items : List TextItem, array.mapM Operands.textItem = .ok items →
      items.filterMap TextItem.text? = array.filterMap Operand.text? := by
  induction array with
  | nil =>
    intro items h
    cases h
    rfl
  | cons operand rest ih =>
    intro items h
    rw [List.mapM_cons] at h
    obtain ⟨item, hitem, h⟩ := bind_eq_ok h
    obtain ⟨others, hothers, h⟩ := bind_eq_ok h
    cases h
    have hhead : item.text? = operand.text? := by
      cases operand with
      | number x =>
        simp only [Operands.textItem] at hitem
        split at hitem
        · cases hitem
          rfl
        · cases hitem
      | text s =>
        cases hitem
        rfl
      | _ => cases hitem
    rw [List.filterMap_cons, List.filterMap_cons, hhead, ih others hothers]

theorem texts_of_ofOperands {kind : Kind} {operands : List Operand} {op : Operator}
    (hshows : kind.shows = true) (h : Operator.ofOperands kind operands = .ok op) :
    op.texts = operands.flatMap Operand.texts := by
  cases kind with
  | showText =>
    obtain ⟨s, rfl, rfl⟩ := Operands.oneText_eq_ok h
    rfl
  | nextLineShow =>
    obtain ⟨s, rfl, rfl⟩ := Operands.oneText_eq_ok h
    rfl
  | setSpacingNextLineShow =>
    obtain ⟨_, hcount, h⟩ := bind_eq_ok h
    obtain ⟨wordSpacing, hword, h⟩ := bind_eq_ok h
    obtain ⟨charSpacing, hchar, h⟩ := bind_eq_ok h
    obtain ⟨s, hs, h⟩ := bind_eq_ok h
    cases h
    rw [Operands.eq_triple (Operands.expectCount_eq_ok hcount) (Operands.numberAt_eq_ok hword).1
      (Operands.numberAt_eq_ok hchar).1 (Operands.textAt_eq_ok hs)]
    rfl
  | showSpaced =>
    obtain ⟨_, hcount, h⟩ := bind_eq_ok h
    obtain ⟨items, hitems, h⟩ := bind_eq_ok h
    cases h
    obtain ⟨array, harray, hmap⟩ := Operands.textItemsAt_eq_ok hitems
    rw [Operands.eq_singleton (Operands.expectCount_eq_ok hcount) harray]
    simp only [List.flatMap_cons, List.flatMap_nil, List.append_nil, Operand.texts, Operator.texts,
      filterMap_text?_of_mapM array items hmap]
  | _ => cases hshows

/-- **The strings of an operator** are those among the operands of its event. -/
theorem texts_of_ofEvent? {event : Event} {op : Operator}
    (h : Operator.ofEvent? event = .ok (some op)) : op.texts = event.shownTexts := by
  have hmade := (ofOperands_of_ofEvent? h).2
  rw [Event.shownTexts, h]
  by_cases hshows : op.kind.shows = true
  · exact (texts_of_ofOperands hshows hmade).trans (if_pos hshows).symm
  · -- an operator that does not show text has no strings
    refine Eq.trans ?_ (if_neg hshows).symm
    cases op <;> first | rfl | exact absurd rfl hshows

end PageText
