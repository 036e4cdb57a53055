/-
PageText/Proofs/Scopes.lean

Events that open and close scopes.  A text object begins and ends, and a page
ends, with an event that is spelled in one of the two ways of its kind and has
no operands; with operands it does not fit and counts for nothing
(`ofEvent?_eq_iff_isBare`).

What an event that does not begin a page does is said in one equation
(`answer_of_not_beginsPage`), and to the stack in another one
(`stackAfter?_cons`): it puts a copy of the top on the stack, takes the top
off, empties the stack, or changes the top alone.
-/
import PageText.Proofs.Operands
import PageText.Proofs.Survivors

namespace PageText

/-! ### Spellings -/

theorem Kind.ofName?_description (kind : Kind) : ofName? kind.description = some kind := by
  cases kind <;> decide

theorem Kind.ofName?_mnemonic {kind : Kind} {name : String} (h : kind.mnemonic? = some name) :
    ofName? name = some kind := by
  cases kind <;> cases h <;> decide

/-- No two kinds have a spelling in common. -/
theorem Kind.ofName?_eq_some_iff {name : String} {kind : Kind} :
    ofName? name = some kind ↔ kind.isSpelled name = true := by
  constructor
  · intro h
    exact List.find?_some (p := fun kind : Kind => kind.isSpelled name) h
  · intro h
    rw [isSpelled, Bool.or_eq_true, beq_iff_eq, beq_iff_eq] at h
    rcases h with rfl | h
    · exact kind.ofName?_description
    · exact ofName?_mnemonic h

namespace Event

/-- The event spells the kind, in either way, and has no operands. -/
def isBare (kind : Kind) (event : Event) : Bool :=
  kind.isSpelled event.kind && event.operands.isEmpty

/-- Whether the event begins a text object. -/
def beginsText (event : Event) : Bool := event.isBare .beginText

/-- Whether the event ends a text object. -/
def endsText (event : Event) : Bool := event.isBare .endText

/-- Whether the event ends a page. -/
def endsPage (event : Event) : Bool := event.isBare .endPage

variable {event : Event}

/-- A kind that takes no operands is checked for that alone. -/
theorem ofEvent?_eq_iff_isBare {kind : Kind} {op : Operator}
    (hkind : ∀ operands, Operator.ofOperands kind operands = Operands.nothing operands op) :
    Operator.ofEvent? event = .ok (some op) ↔ event.isBare kind = true := by
  have hopKind : op.kind = kind := kind_of_ofOperands (hkind [])
  rw [isBare, Bool.and_eq_true, List.isEmpty_iff, ← Kind.ofName?_eq_some_iff]
  constructor
  · intro h
    obtain ⟨hname, hmade⟩ := ofOperands_of_ofEvent? h
    rw [hopKind] at hname hmade
    rw [hkind] at hmade
    obtain ⟨_, hcount, -⟩ := bind_eq_ok hmade
    exact ⟨hname, List.length_eq_zero_iff.mp (Operands.expectCount_eq_ok hcount)⟩
  · rintro ⟨hname, hoperands⟩
    have hmade : Operator.ofOperands kind event.operands = .ok op := by
      rw [hkind, hoperands]
      rfl
    simp only [Operator.ofEvent?, hname, hmade]

theorem beginsText_iff :
    event.beginsText = true ↔ Operator.ofEvent? event = .ok (some .beginText) :=
  (ofEvent?_eq_iff_isBare fun _ => rfl).symm

theorem endsText_iff : event.endsText = true ↔ Operator.ofEvent? event = .ok (some .endText) :=
  (ofEvent?_eq_iff_isBare fun _ => rfl).symm

theorem endsPage_iff : event.endsPage = true ↔ Operator.ofEvent? event = .ok (some .endPage) :=
  (ofEvent?_eq_iff_isBare fun _ => rfl).symm

/-! ### What an event does -/

/-- The stack after an event that does not begin a page; nothing when the event
stands for an operator that lacks a state. -/
def stackAfter? (event : Event) (stack : Stack Float) : Option (Stack Float) :=
  match Operator.ofEvent? event with
  | .ok (some op) => op.stackAfter? stack
  | _ => some stack

/-- The top state after an event that works on the top state. -/
def change (event : Event) (s : TextState Float) : TextState Float :=
  match Operator.ofEvent? event with
  | .ok (some op) => op.change s
  | _ => s

/-- The runs that an event returns. -/
def kept (setting : Setting) (event : Event) (stack : Stack Float) : Array (Run Float) :=
  match Operator.ofEvent? event with
  | .ok (some op) => setting.kept op stack
  | _ => #[]

/-- Outside of pages operators lack a state. -/
theorem stackAfter?_nil (hpage : event.beginsPage = false) :
    event.stackAfter? [] = if event.survives then none else some [] := by
  rw [beginsPage] at hpage
  rcases hop : Operator.ofEvent? event with rejection | - | op
  · simp only [stackAfter?, survives, hop, Bool.false_eq_true, if_false]
  · simp only [stackAfter?, survives, hop, Bool.false_eq_true, if_false]
  · simp only [stackAfter?, survives, hop, if_true]
    rw [hop] at hpage
    cases op with
    | beginPage page => cases hpage
    | _ => rfl

/-- **What an event does to the stack** of a page. -/
theorem stackAfter?_cons (hpage : event.beginsPage = false) (s : TextState Float)
    (below : Stack Float) :
    event.stackAfter? (s :: below)
      = if event.endsPage then some []
        else if event.beginsText then some (s :: s :: below)
        else if event.endsText then (if below.isEmpty then none else some below)
        else some (event.change s :: below) := by
  rw [beginsPage] at hpage
  simp only [endsPage_iff, beginsText_iff, endsText_iff, stackAfter?, change]
  rcases hop : Operator.ofEvent? event with rejection | - | op
  · simp only [reduceCtorEq, if_false]
  · simp only [Except.ok.injEq, reduceCtorEq, if_false]
  · rw [hop] at hpage
    cases op with
    | beginPage page => cases hpage
    | _ => simp [Operator.stackAfter?]

end Event

namespace Interpreter

variable {setting : Setting} {event : Event} {i : Interpreter}

/-- **What an event does that does not begin a page**: it is counted, and unless
it lacks a state it may change the stack, add runs and note down its error. -/
theorem answer_of_not_beginsPage (hpage : event.beginsPage = false) :
    answer setting event i
      = match event.stackAfter? i.stack with
        | none => (.error (.underflow i.page i.nextIndex), { i with nextIndex := i.nextIndex + 1 })
        | some stack => (.ok (event.kept setting i.stack),
            { i with
              stack := stack, nextIndex := i.nextIndex + 1,
              runs := i.runs ++ event.kept setting i.stack,
              diagnostics := i.diagnostics ++ event.rejection?.toList.toArray }) := by
  rcases hop : Operator.ofEvent? event with rejection | - | op
  · rw [answer_of_rejected hop]
    simp [Event.stackAfter?, Event.kept, Event.rejection?, hop]
  · rw [answer_of_unknown hop]
    simp [Event.stackAfter?, Event.kept, Event.rejection?, hop]
  · rw [answer_within_page hop hpage]
    rcases hstack : op.stackAfter? i.stack with - | stack <;>
      simp [Event.stackAfter?, Event.kept, Event.rejection?, hop, hstack]

end Interpreter

end PageText
