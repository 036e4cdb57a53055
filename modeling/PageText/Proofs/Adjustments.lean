/-
PageText/Proofs/Adjustments.lean

The adjustments of an array of text end with it.  They are set in the copy of the
state that the array is shown in (`Interpreter.showSpaced_cons`), so no state of
the stack ever carries one, and an array leaves the stack as it found it, whether
it fits or not and whether there is a state for it or not
(`Event.stackAfter?_of_isSpaced`).

Two lists of events that differ in arrays of text alone therefore lead to the
same place (`SamePlace`), where every event returns the same.

Main result: `adjustment_afterEach`.
-/
import PageText.Proofs.History

namespace PageText

/-! ### The states of a stack -/

/-- No state carries an adjustment. -/
def Unadjusted (stack : Stack Float) : Prop := ∀ s ∈ stack, s.adjustment = Scalar.zero

namespace Unadjusted

variable {s : TextState Float} {below stack : Stack Float}

theorem nil : Unadjusted [] := List.forall_mem_nil _

theorem page : Unadjusted Stack.page := List.forall_mem_singleton.mpr rfl

theorem cons_iff :
    Unadjusted (s :: below) ↔ s.adjustment = Scalar.zero ∧ Unadjusted below := List.forall_mem_cons

end Unadjusted

/-- No operator sets the adjustment of the state that it works on. -/
theorem Operator.adjustment_change (op : Operator) (s : TextState Float) :
    (op.change s).adjustment = s.adjustment := by
  cases op <;> rfl

theorem Event.adjustment_change (event : Event) (s : TextState Float) :
    (event.change s).adjustment = s.adjustment := by
  rw [change]
  split
  · exact Operator.adjustment_change _ s
  · rfl

/-- An event that does not begin a page copies, drops or changes states, and sets
no adjustment. -/
theorem Unadjusted.stackAfter? {event : Event} {stack stack' : Stack Float}
    (h : Unadjusted stack) (hpage : event.beginsPage = false)
    (hstack : event.stackAfter? stack = some stack') : Unadjusted stack' := by
  rcases stack with - | ⟨s, below⟩
  · rw [Event.eq_nil_of_stackAfter? hpage hstack]
    exact h
  · obtain ⟨hs, hbelow⟩ := cons_iff.mp h
    rw [Event.stackAfter?_cons hpage] at hstack
    split at hstack
    · obtain rfl := Option.some.inj hstack
      exact nil
    split at hstack
    · obtain rfl := Option.some.inj hstack
      exact cons_iff.mpr ⟨hs, h⟩
    split at hstack
    · split at hstack
      · cases hstack
      · obtain rfl := Option.some.inj hstack
        exact hbelow
    · obtain rfl := Option.some.inj hstack
      exact cons_iff.mpr ⟨(event.adjustment_change s).trans hs, hbelow⟩

/-! ### Arrays of text -/

namespace Event

/-- The event is of the kind that shows an array of text, whether its operands
fit or not. -/
def isSpaced (event : Event) : Bool := Kind.ofName? event.kind == some .showSpaced

variable {event : Event}

/-- Such an event stands for an operator that shows an array, or for none. -/
theorem ofEvent?_of_isSpaced (h : event.isSpaced = true) {op : Operator}
    (hop : Operator.ofEvent? event = .ok (some op)) : ∃ items, op = .showSpaced items := by
  have hkind := (ofOperands_of_ofEvent? hop).1
  rw [beq_iff_eq.mp h, Option.some.injEq] at hkind
  cases op with
  | showSpaced items => exact ⟨items, rfl⟩
  | _ => cases hkind

theorem beginsPage_of_isSpaced (h : event.isSpaced = true) : event.beginsPage = false := by
  rw [← Bool.not_eq_true]
  intro hpage
  obtain ⟨page, hop⟩ := exists_page hpage
  obtain ⟨items, heq⟩ := ofEvent?_of_isSpaced h hop
  cases heq

/-- **An array of text leaves the stack as it was**, if it does not lack a
state. -/
theorem stackAfter?_of_isSpaced (h : event.isSpaced = true) {stack stack' : Stack Float}
    (hstack : event.stackAfter? stack = some stack') : stack' = stack := by
  rw [stackAfter?] at hstack
  split at hstack
  · next op hop =>
    obtain ⟨items, rfl⟩ := ofEvent?_of_isSpaced h hop
    rcases stack with - | ⟨s, below⟩
    · cases hstack
    · exact (Option.some.inj hstack).symm
  · exact (Option.some.inj hstack).symm

/-- The events are the same, or both are of the kind that shows an array of
text. -/
def SameButSpaced (event other : Event) : Prop :=
  event = other ∨ event.isSpaced = true ∧ other.isSpaced = true

end Event

namespace Interpreter

variable {setting : Setting} {event : Event} {i j : Interpreter}

/-! ### No adjustment on the stack -/

theorem unadjusted_answer (setting : Setting) (event : Event) (h : Unadjusted i.stack) :
    Unadjusted (answer setting event i).2.stack := by
  rcases hpage : event.beginsPage with - | -
  · rw [answer_of_not_beginsPage hpage]
    rcases hstack : event.stackAfter? i.stack with - | stack
    · exact h
    · exact h.stackAfter? hpage hstack
  · obtain ⟨page, hop⟩ := Event.exists_page hpage
    rw [answer_of_beginPage hop]
    exact .page

theorem unadjusted_afterEach (setting : Setting) (events : List Event) :
    ∀ {i : Interpreter}, Unadjusted i.stack → Unadjusted (afterEach setting events i).stack := by
  induction events with
  | nil =>
    intro i h
    exact h
  | cons event rest ih =>
    intro i h
    exact ih (unadjusted_answer setting event h)

/-! ### Arrays apart -/

/-- The interpreters stand at the same place: what an event returns depends on
nothing else. -/
structure SamePlace (i j : Interpreter) : Prop where
  stack : i.stack = j.stack
  page : i.page = j.page
  nextIndex : i.nextIndex = j.nextIndex

/-- An event returns the same and leads to the same place. -/
theorem SamePlace.answer (h : SamePlace i j) (setting : Setting) (event : Event) :
    (answer setting event i).1 = (answer setting event j).1
      ∧ SamePlace (answer setting event i).2 (answer setting event j).2 := by
  rcases hpage : event.beginsPage with - | -
  · rw [answer_of_not_beginsPage hpage, answer_of_not_beginsPage hpage, ← h.stack, ← h.page,
      ← h.nextIndex]
    rcases event.stackAfter? i.stack with - | stack
    · exact ⟨rfl, rfl, rfl, rfl⟩
    · exact ⟨rfl, rfl, rfl, rfl⟩
  · obtain ⟨page, hop⟩ := Event.exists_page hpage
    rw [answer_of_beginPage hop, answer_of_beginPage hop]
    exact ⟨rfl, rfl, rfl, rfl⟩

/-- An array of text is counted, and leads nowhere else. -/
theorem samePlace_of_isSpaced (setting : Setting) (h : event.isSpaced = true)
    (i : Interpreter) :
    SamePlace (answer setting event i).2 { i with nextIndex := i.nextIndex + 1 } := by
  rw [answer_of_not_beginsPage (Event.beginsPage_of_isSpaced h)]
  rcases hstack : event.stackAfter? i.stack with - | stack
  · exact ⟨rfl, rfl, rfl⟩
  · exact ⟨Event.stackAfter?_of_isSpaced h hstack, rfl, rfl⟩

theorem SamePlace.step (h : SamePlace i j) (setting : Setting) {event other : Event}
    (hevents : event.SameButSpaced other) :
    SamePlace (Interpreter.answer setting event i).2 (Interpreter.answer setting other j).2 := by
  rcases hevents with rfl | ⟨hevent, hother⟩
  · exact (h.answer setting event).2
  · obtain ⟨hstack, hpage, hindex⟩ := samePlace_of_isSpaced setting hevent i
    obtain ⟨hstack', hpage', hindex'⟩ := samePlace_of_isSpaced setting hother j
    refine ⟨?_, ?_, ?_⟩
    · rw [hstack, hstack']
      exact h.stack
    · rw [hpage, hpage']
      exact h.page
    · rw [hindex, hindex']
      exact congrArg (· + 1) h.nextIndex

theorem SamePlace.afterEach (setting : Setting) {events others : List Event}
    (hevents : List.Forall₂ Event.SameButSpaced events others) :
    ∀ {i j : Interpreter}, SamePlace i j →
      SamePlace (afterEach setting events i) (afterEach setting others j) := by
  induction hevents with
  | nil =>
    intro i j h
    exact h
  | cons hevent _ ih =>
    intro i j h
    exact ih (h.step setting hevent)

/-- **The adjustments of arrays end with them.**  After any events no state of
the stack carries one; and if the arrays of text among the events are exchanged
for any others, the next event returns the same, be it runs or an error. -/
theorem adjustment_afterEach (setting : Setting) (events : List Event) :
    let i := afterEach setting events {}
    (∀ s ∈ i.stack, s.adjustment = Scalar.zero)
      ∧ ∀ others, List.Forall₂ Event.SameButSpaced events others → ∀ event,
        (process setting event i).1.result
          = (process setting event (afterEach setting others {})).1.result := by
  intro i
  refine ⟨unadjusted_afterEach setting events .nil, ?_⟩
  intro others hothers event
  have hplace : SamePlace i (afterEach setting others {}) :=
    SamePlace.afterEach setting hothers ⟨rfl, rfl, rfl⟩
  exact (hplace.answer setting event).1

/-- A string after an array with an adjustment, in a page that follows an event that
failed: the array may as well have another adjustment, or not fit. -/
theorem adjustment_afterEach_of_other_arrays :
    let events (items : List Operand) : List Event :=
      [⟨"ET", []⟩, ⟨"begin_page", []⟩, ⟨"Tf", [.name "F", .number 12]⟩, ⟨"TJ", [.array items]⟩]
    let adjusted := events [.text "a", .number (-250), .text "b"]
    let others := events [.number 1000, .bool true]
    let string : Event := ⟨"'", [.text "c"]⟩
    List.Forall₂ Event.SameButSpaced adjusted others
      ∧ (process {} string (afterEach {} adjusted {})).1.result
        = (process {} string (afterEach {} others {})).1.result := by
  intro events adjusted others string
  have hothers : List.Forall₂ Event.SameButSpaced adjusted others :=
    .cons (.inl rfl) (.cons (.inl rfl) (.cons (.inl rfl)
      (.cons (.inr ⟨by decide, by decide⟩) .nil)))
  exact ⟨hothers, (adjustment_afterEach {} adjusted).2 others hothers string⟩

end Interpreter

end PageText
