/-
PageText/Proofs/Pages.lean

Pages interpreted in a row and pages interpreted apart.

The events of a page start with its beginning, and a page number is a whole
number of 32 bits, so the check of that first event never fails
(`ofEvent?_pageStart`).  It leaves nothing behind of the pages before
(`answer_of_beginPage`), whatever their bytes were and wherever they stopped;
so what comes of a page is what comes of it with an interpreter of its own.

Main result: `interpretPages_eq_interpretApart`.
-/
import PageText.Page
import PageText.Proofs.Processing
import PageText.Proofs.WholeNumbers

namespace PageText

/-! ### The number of a page -/

/-- Every word is a page number once it is converted. -/
theorem isPageNumber_toFloat (n : UInt32) : Operands.isPageNumber n.toFloat = true := by
  have hlow : (0 : Float) ≤ n.toFloat :=
    Binary64.toFloat_le (a := 0) (UInt32.le_iff_toNat_le.mpr (Nat.zero_le _))
  have hhigh : n.toFloat ≤ 4294967295 :=
    Binary64.toFloat_le (b := 4294967295)
      (UInt32.le_iff_toNat_le.mpr (Nat.le_of_lt_succ n.toNat_lt))
  simp only [Operands.isPageNumber, Binary64.toUInt32_toFloat, hlow, hhigh,
    Binary64.toFloat_beq_self, decide_true, Bool.and_self]

/-- The event that begins a page. -/
def Content.pageStart (page : UInt32) : Event :=
  ⟨Kind.beginPage.description, [.number page.toFloat]⟩

/-- The beginning of a page is read with the number that was written. -/
theorem ofEvent?_pageStart (page : UInt32) :
    Operator.ofEvent? (Content.pageStart page) = .ok (some (.beginPage (some page))) := by
  have hnumber : Operands.numberAt [.number page.toFloat] 0 = .ok page.toFloat := by
    show (if page.toFloat.isFinite then Except.ok page.toFloat
      else .error (Mismatch.notFinite 0)) = _
    rw [Binary64.toFloat_isFinite]
    rfl
  have hpage : Operands.pageNumberAt [.number page.toFloat] 0 = .ok page := by
    rw [Operands.pageNumberAt, hnumber]
    show (if Operands.isPageNumber page.toFloat then Except.ok page.toFloat.toUInt32
      else .error (Mismatch.pageNumber 0 page.toFloat)) = _
    rw [isPageNumber_toFloat, Binary64.toUInt32_toFloat]
    rfl
  have hkind : Kind.ofName? Kind.beginPage.description = some .beginPage := by decide
  rw [Operator.ofEvent?, Content.pageStart, hkind]
  simp only [Operator.ofOperands, hpage]
  rfl

/-! ### One page -/

/-- What an interpreter of its own makes of a page: it executes the events of
the page, and its runs, its diagnostics and the error that it met are the
result. -/
def freshPage (setting : Setting) (page : UInt32) (bytes : List UInt8) : PageRuns :=
  let (report, i) := Interpreter.execute setting (Content.pageEvents page bytes) {}
  { page := page
    runs := i.runs
    skipped := i.diagnostics
    aborted := match report.result with
      | .ok _ => none
      | .error error => some error }

/-- The event before the content leaves only what belongs to the page. -/
theorem outcome_pageEvents_eq (setting : Setting) (page : UInt32) (bytes : List UInt8)
    (i : Interpreter) :
    Interpreter.outcome setting (Content.pageEvents page bytes) i
      = Interpreter.outcome setting (Content.events bytes ++ [⟨Kind.endPage.description, []⟩])
        ⟨Stack.page, some page, 1, #[], #[]⟩ := by
  rw [Content.pageEvents, List.cons_append]
  refine (Interpreter.outcome_cons_of_ok
    (Interpreter.answer_of_beginPage (ofEvent?_pageStart page)) _).trans ?_
  rcases Interpreter.outcome setting _ _ with ⟨error | runs, i'⟩
  · rfl
  · rw [Except.map, Array.empty_append]

/-- What comes of a page does not depend on the interpreter that it meets. -/
theorem outcome_pageEvents (setting : Setting) (page : UInt32) (bytes : List UInt8)
    (i j : Interpreter) :
    Interpreter.outcome setting (Content.pageEvents page bytes) i
      = Interpreter.outcome setting (Content.pageEvents page bytes) j := by
  rw [outcome_pageEvents_eq, outcome_pageEvents_eq]

theorem interpretPage_eq_freshPage (setting : Setting) (page : UInt32) (bytes : List UInt8)
    (i : Interpreter) : (interpretPage setting page bytes i).1 = freshPage setting page bytes := by
  -- both are this function of what comes of the events of the page
  let collect : Except Error (Array (Run Float)) × Interpreter → PageRuns := fun (result, j) =>
    { page := page
      runs := j.runs
      skipped := j.diagnostics
      aborted := match result with
        | .ok _ => none
        | .error error => some error }
  have h := outcome_pageEvents setting page bytes i {}
  exact congrArg collect h

/-! ### Pages in a row -/

/-- Each page of a row is numbered after those before it. -/
theorem interpretPagesFrom_eq (setting : Setting) (pages : List (List UInt8)) :
    ∀ (done : Array PageRuns) (first : Nat) (i : Interpreter),
      (interpretPagesFrom setting done first pages i).toList
        = done.toList
          ++ pages.mapIdx fun n bytes => freshPage setting (first + n).toUInt32 bytes := by
  induction pages with
  | nil =>
    intro done first i
    simp [interpretPagesFrom]
  | cons bytes rest ih =>
    intro done first i
    simp only [interpretPagesFrom, ih, Array.toList_push, interpretPage_eq_freshPage,
      List.append_assoc, List.mapIdx_cons, List.singleton_append, Nat.add_zero, Nat.add_assoc,
      Nat.add_comm 1]

/-- **Pages in a row are pages apart.**  Both ways of interpreting pages give
for every page what an interpreter of its own gives for its number and its
bytes alone. -/
theorem interpretPages_eq_interpretApart (setting : Setting) (pages : List (List UInt8))
    (hcount : pages.length < 2 ^ 32) :
    interpretPages setting pages = interpretApart setting pages
      ∧ interpretPages setting pages
        = pages.mapIdx fun n bytes => freshPage setting n.toUInt32 bytes := by
  have hrow : interpretPages setting pages
      = pages.mapIdx fun n bytes => freshPage setting n.toUInt32 bytes := by
    rw [interpretPages, interpretPagesFrom_eq]
    simp only [List.nil_append, Nat.zero_add]
  refine ⟨?_, hrow⟩
  rw [hrow, interpretApart]
  refine List.ext_getElem (by simp) ?_
  intro n hn _
  have hlt : n < UInt32.size := by
    rw [List.length_mapIdx] at hn
    exact Nat.lt_trans hn hcount
  simp only [List.getElem_mapIdx, interpretPage_eq_freshPage, UInt32.ofNatClamp_eq_ofNat n hlt]

/-- The first of these pages, `BT (a) Tj ET ET`, ends early and leaves a run
behind; the second, `(b) Tj`, is not touched by it. -/
theorem interpretPages_after_aborted_page :
    let pages : List (List UInt8) :=
      [[0x42, 0x54, 0x28, 0x61, 0x29, 0x54, 0x6A, 0x20, 0x45, 0x54, 0x20, 0x45, 0x54],
        [0x28, 0x62, 0x29, 0x54, 0x6A]]
    pages.length < 2 ^ 32
      ∧ interpretPages {} pages = interpretApart {} pages
      ∧ interpretPages {} pages = pages.mapIdx fun n bytes => freshPage {} n.toUInt32 bytes :=
  ⟨by decide, interpretPages_eq_interpretApart {} _ (by decide)⟩

end PageText
