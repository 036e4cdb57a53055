/-
PageText/Proofs/Failures.lean

When operators fail, and what a failure leaves behind.  An operator lacks a
state outside of pages, unless it begins one, and the end of a text object also
lacks one where none is open (`stackAfter?_eq_none_iff`).  Nothing else makes
an operator fail: metrics that cannot be had, whatever their error, are
reported for debugging only and count as zero (`Emission.Quiet`).

Main result: `dispatch_fails_iff`.  A failure is a missing state, found exactly
where the stack says so and with nothing changed, and processing an event never
meets another one.
-/
import PageText.Proofs.Processing

namespace PageText

/-! ### Where a state is missing -/

theorem Operator.stackAfter?_eq_none_iff (op : Operator) (stack : Stack Float) :
    op.stackAfter? stack = none
      ↔ (stack = [] ∧ ∀ page, op ≠ .beginPage page) ∨ (op = .endText ∧ stack.length = 1) := by
  rcases stack with - | ⟨s, below⟩ <;> cases op <;> simp [stackAfter?]

/-! ### What is reported on the way -/

/-- Whatever is reported is for debugging. -/
def Emission.Quiet {α : Type} (e : Emission α) : Prop := ∀ n ∈ e.notices, n.level = .debug

theorem Emission.Quiet.append {α : Type} {e₁ e₂ : Emission α} (h₁ : e₁.Quiet) (h₂ : e₂.Quiet) :
    (e₁.append e₂).Quiet := by
  intro n hn
  rcases Array.mem_append.mp hn with hn | hn
  · exact h₁ n hn
  · exact h₂ n hn

theorem Emission.quiet_empty {α : Type} : (Emission.empty : Emission α).Quiet := by
  intro n hn
  cases Array.not_mem_empty n hn

/-- A lookup that fails is reported for debugging, whatever its error. -/
theorem level_of_mem_orElseNotice {β : Type} {lookup : Except Error β} {standIn : β} {n : Notice}
    (hn : n ∈ (orElseNotice lookup standIn).2) : n.level = .debug := by
  rcases lookup with error | answer
  · obtain rfl := Array.mem_singleton.mp hn
    cases error <;> rfl
  · cases Array.not_mem_empty n hn

section Showing

variable {α : Type} [Scalar α]

theorem Typesetter.quiet_emitted (t : Typesetter α) (ch : Char) (s : TextState α) :
    (t.emitted ch s).Quiet := by
  intro n hn
  rcases Array.mem_append.mp hn with hn | hn
  · rcases Array.mem_append.mp hn with hn | hn
    · exact level_of_mem_orElseNotice hn
    · exact level_of_mem_orElseNotice hn
  · exact level_of_mem_orElseNotice hn

theorem Typesetter.quiet_shown (t : Typesetter α) (chars : List Char) :
    ∀ s : TextState α, (t.shown s chars).Quiet := by
  induction chars with
  | nil =>
    intro s
    exact Emission.quiet_empty
  | cons ch rest ih =>
    intro s
    exact (t.quiet_emitted ch s).append (ih _)

end Showing

theorem Setting.quiet_shownItems (setting : Setting) (items : List TextItem) :
    ∀ s : TextState Float, (setting.shownItems s items).Quiet := by
  induction items with
  | nil =>
    intro s
    exact Emission.quiet_empty
  | cons item rest ih =>
    intro s
    cases item with
    | adjustment value => exact ih _
    | text text => exact (setting.typesetter.quiet_shown _ _).append (ih s)

theorem Setting.quiet_showing (setting : Setting) (op : Operator) (stack : Stack Float) :
    (setting.showing op stack).Quiet := by
  rcases stack with - | ⟨s, below⟩
  · exact Emission.quiet_empty
  · cases op with
    | showText text | nextLineShow text | setSpacingNextLineShow wordSpacing charSpacing text =>
      exact setting.typesetter.quiet_shown _ _
    | showSpaced items => exact setting.quiet_shownItems items s
    | _ => exact Emission.quiet_empty

/-- What an operator reports about is for debugging. -/
theorem Setting.quiet_emission (setting : Setting) (op : Operator) (i : Interpreter) :
    (setting.emission op i).Quiet := by
  have hnotice : ∀ (unclosed : Nat) (n : Notice), n.level = .debug →
      (if 0 < unclosed then .notice n else .empty : Emission Float).Quiet := by
    intro unclosed n hn
    split
    · intro m hm
      rwa [Array.mem_singleton.mp hm]
    · exact Emission.quiet_empty
  cases op with
  | beginPage page => exact hnotice _ _ rfl
  | endPage => exact hnotice _ _ rfl
  | _ => exact setting.quiet_showing _ i.stack

namespace Interpreter

/-! ### Failures -/

/-- An operator that is carried out either returns, with nothing but debugging
reported, or ends the page for want of a state. -/
theorem carryOut_notices (setting : Setting) (index : Nat) (op : Operator) (i : Interpreter) :
    (∀ n ∈ (carryOut setting index op i).1.notices, n.level = .debug)
      ∨ (carryOut setting index op i).1.notices
        = #[.pageAborted (.underflow i.page index) op.kind] := by
  rw [carryOut, dispatch_eq]
  rcases op.stackAfter? i.stack with - | stack
  · exact .inr rfl
  · exact .inl (setting.quiet_emission op i)

/-- **An operator fails only for want of a state**: outside of pages, unless it
begins one, and at the end of a text object where none is open.  It leaves the
interpreter as it was, and since there is no other failure, none is ever
reported for an event. -/
theorem dispatch_fails_iff (setting : Setting) (op : Operator) (i : Interpreter) :
    (∀ error i', dispatch setting op i = .error error i'
        ↔ ((i.stack = [] ∧ ∀ page, op ≠ .beginPage page) ∨ (op = .endText ∧ i.stack.length = 1))
          ∧ error = Stack.underflow ∧ i' = i)
      ∧ ∀ event page index error,
        Notice.operatorFailed page index error ∉ (process setting event i).1.notices := by
  refine ⟨?_, ?_⟩
  · intro error i'
    rw [dispatch_eq, ← op.stackAfter?_eq_none_iff]
    rcases hstack : op.stackAfter? i.stack with - | stack
    · simp [eq_comm]
    · simp
  · intro event page index error hreported
    rcases hop : Operator.ofEvent? event with rejection | - | op
    · simp [process, hop] at hreported
    · simp [process, hop] at hreported
    · rw [process_of_operator hop] at hreported
      rcases carryOut_notices setting _ op _ with hquiet | habort
      · cases hquiet _ hreported
      · rw [habort] at hreported
        cases Array.mem_singleton.mp hreported

end Interpreter

end PageText
