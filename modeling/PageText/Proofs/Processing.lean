/-
PageText/Proofs/Processing.lean

Events processed one after another.  `answer` is the processing of one event
and `outcome` that of a list, both without the notices, which nothing else
depends on.

An event is one of three: its operands do not fit (`answer_of_rejected`), its
kind is not known (`answer_of_unknown`), or it stands for an operator, which is
carried out (`answer_of_operator`).  Lists are processed from left to right
(`outcome_cons`, `outcome_append`), and only a missing state ends them early
(`answer_error`).
-/
import PageText.Proofs.Operators

namespace PageText

/-- The number under which an operator counts: the beginning of a page counts
from zero again. -/
def Operator.indexAt : Operator → Nat → Nat
  | beginPage _, _ => 0
  | _, n => n

section Except

variable {ε β γ : Type} {f : β → γ} {x : Except ε β}

theorem map_eq_ok {c : γ} (h : x.map f = .ok c) : ∃ b, x = .ok b ∧ f b = c := by
  rcases x with e | b
  · cases h
  · exact ⟨b, rfl, Except.ok.inj h⟩

theorem map_eq_error {e : ε} (h : x.map f = .error e) : x = .error e := by
  rcases x with e' | b
  · exact congrArg Except.error (Except.error.inj h)
  · cases h

end Except

namespace Interpreter

variable (setting : Setting)

/-! ### One event -/

/-- What comes of processing an event: the runs that are returned or the error
that ends the page, and the interpreter afterwards. -/
def answer (event : Event) (i : Interpreter) : Except Error (Array (Run Float)) × Interpreter :=
  ((process setting event i).1.result, (process setting event i).2)

variable {setting} {event : Event} {i : Interpreter}

/-- An event whose operands do not fit is counted and noted down. -/
theorem answer_of_rejected {error : Error} (h : Operator.ofEvent? event = .error error) :
    answer setting event i
      = (.ok #[],
        { i with nextIndex := i.nextIndex + 1, diagnostics := i.diagnostics.push error }) := by
  simp only [answer, process, h]

/-- An event of no known kind is counted. -/
theorem answer_of_unknown (h : Operator.ofEvent? event = .ok none) :
    answer setting event i = (.ok #[], { i with nextIndex := i.nextIndex + 1 }) := by
  simp only [answer, process, h]

theorem carryOut_eq (index : Nat) (op : Operator) :
    ((carryOut setting index op i).1.result, (carryOut setting index op i).2)
      = match op.stackAfter? i.stack with
        | none => (.error (.underflow i.page index), i)
        | some stack => (.ok (setting.kept op i.stack), setting.after op stack i) := by
  rw [carryOut, dispatch_eq]
  rcases op.stackAfter? i.stack with - | stack
  · rfl
  · simp only [Emission.filterRuns_runs, Setting.emission_runs]
    rfl

theorem process_of_operator {op : Operator} (h : Operator.ofEvent? event = .ok (some op)) :
    process setting event i
      = carryOut setting (op.indexAt i.nextIndex) op
        { i with nextIndex := op.indexAt i.nextIndex + 1 } := by
  cases op <;> simp only [process, h] <;> rfl

/-- An event that stands for an operator is counted and carried out. -/
theorem answer_of_operator {op : Operator} (h : Operator.ofEvent? event = .ok (some op)) :
    answer setting event i
      = match op.stackAfter? i.stack with
        | none => (.error (.underflow i.page (op.indexAt i.nextIndex)),
            { i with nextIndex := op.indexAt i.nextIndex + 1 })
        | some stack => (.ok (setting.kept op i.stack),
            setting.after op stack { i with nextIndex := op.indexAt i.nextIndex + 1 }) := by
  rw [answer, process_of_operator h]
  exact carryOut_eq _ _

/-- **The beginning of a page** leaves nothing of what was there before. -/
theorem answer_of_beginPage {page : Option UInt32}
    (h : Operator.ofEvent? event = .ok (some (.beginPage page))) :
    answer setting event i = (.ok #[], ⟨Stack.page, page, 1, #[], #[]⟩) := by
  have hkept : setting.kept (.beginPage page) i.stack = #[] := by
    rcases i.stack with - | ⟨s, below⟩ <;> rfl
  rw [answer_of_operator h, Operator.stackAfter?_beginPage]
  simp only [Setting.after, Operator.reset, Operator.indexAt, hkept, Array.append_empty]

/-- Only a missing state ends a page, and it leaves the stack, the page, the
runs and the diagnostics as they were. -/
theorem answer_error {error : Error} {i' : Interpreter}
    (h : answer setting event i = (.error error, i')) :
    error = .underflow i.page i.nextIndex ∧ i' = { i with nextIndex := i.nextIndex + 1 } := by
  rcases hop : Operator.ofEvent? event with rejection | - | op
  · rw [answer_of_rejected hop] at h
    cases (Prod.mk.inj h).1
  · rw [answer_of_unknown hop] at h
    cases (Prod.mk.inj h).1
  · rw [answer_of_operator hop] at h
    rcases hstack : op.stackAfter? i.stack with - | stack
    · -- the beginning of a page always finds what it needs
      have hindex : op.indexAt i.nextIndex = i.nextIndex := by
        cases op with
        | beginPage page => cases (Operator.stackAfter?_beginPage page i.stack).symm.trans hstack
        | _ => rfl
      simp only [hstack, hindex, Prod.mk.injEq, Except.error.injEq] at h
      exact ⟨h.1.symm, h.2.symm⟩
    · rw [hstack] at h
      cases (Prod.mk.inj h).1

/-! ### Events in a row -/

variable (setting)

/-- What comes of executing events. -/
def outcome (events : List Event) (i : Interpreter) :
    Except Error (Array (Run Float)) × Interpreter :=
  ((execute setting events i).1.result, (execute setting events i).2)

/-- The runs and the notices that came before take no part in the execution. -/
theorem executeFrom_eq (runs : Array (Run Float)) (notices : Array Notice) (events : List Event) :
    ∀ (more : Array (Run Float)) (others : Array Notice) (i : Interpreter),
      executeFrom setting (runs ++ more) (notices ++ others) events i
        = (⟨(executeFrom setting more others events i).1.result.map (runs ++ ·),
            notices ++ (executeFrom setting more others events i).1.notices⟩,
          (executeFrom setting more others events i).2) := by
  induction events with
  | nil =>
    intro more others i
    rfl
  | cons event rest ih =>
    intro more others i
    simp only [executeFrom]
    rcases (process setting event i).1.result with error | emitted
    · simp only [Array.append_assoc, Except.map]
    · -- what this event adds is appended to what came before, on either side
      simp only [Array.append_assoc]
      exact ih _ _ _

variable {setting}

@[simp] theorem outcome_nil : outcome setting [] i = (.ok #[], i) := rfl

/-- **Executing a list** processes its first event, and if that does not end the
page goes on with the rest. -/
theorem outcome_cons (event : Event) (rest : List Event) (i : Interpreter) :
    outcome setting (event :: rest) i
      = match answer setting event i with
        | (.ok runs, i') =>
          ((outcome setting rest i').1.map (runs ++ ·), (outcome setting rest i').2)
        | (.error error, i') => (.error error, i') := by
  simp only [outcome, answer, execute, executeFrom, Array.empty_append]
  rcases (process setting event i).1.result with error | runs
  · rfl
  · have h := executeFrom_eq setting runs (process setting event i).1.notices rest #[] #[]
      (process setting event i).2
    simp only [Array.append_empty] at h
    simp only [h]

theorem outcome_cons_of_ok {event : Event} {runs : Array (Run Float)} {i i' : Interpreter}
    (h : answer setting event i = (.ok runs, i')) (rest : List Event) :
    outcome setting (event :: rest) i
      = ((outcome setting rest i').1.map (runs ++ ·), (outcome setting rest i').2) := by
  rw [outcome_cons, h]

theorem outcome_cons_of_error {event : Event} {error : Error} {i i' : Interpreter}
    (h : answer setting event i = (.error error, i')) (rest : List Event) :
    outcome setting (event :: rest) i = (.error error, i') := by
  rw [outcome_cons, h]

/-- A list is executed in two parts like as a whole. -/
theorem outcome_append (first second : List Event) :
    ∀ i : Interpreter, outcome setting (first ++ second) i
      = match outcome setting first i with
        | (.ok runs, i') =>
          ((outcome setting second i').1.map (runs ++ ·), (outcome setting second i').2)
        | (.error error, i') => (.error error, i') := by
  induction first with
  | nil =>
    intro i
    rcases h : outcome setting second i with ⟨error | runs, i'⟩ <;> simp [h, Except.map]
  | cons event rest ih =>
    intro i
    rw [List.cons_append, outcome_cons, outcome_cons]
    rcases answer setting event i with ⟨error | runs, i'⟩
    · rfl
    · simp only [ih]
      rcases outcome setting rest i' with ⟨error | more, i''⟩
      · rfl
      · -- runs are put together in the other order of brackets
        rcases h : (outcome setting second i'').1 with error | others <;>
          simp [h, Except.map, Array.append_assoc]

theorem outcome_append_of_ok {first : List Event} {runs : Array (Run Float)} {i i' : Interpreter}
    (h : outcome setting first i = (.ok runs, i')) (second : List Event) :
    outcome setting (first ++ second) i
      = ((outcome setting second i').1.map (runs ++ ·), (outcome setting second i').2) := by
  rw [outcome_append, h]

theorem outcome_append_of_error {first : List Event} {error : Error} {i i' : Interpreter}
    (h : outcome setting first i = (.error error, i')) (second : List Event) :
    outcome setting (first ++ second) i = (.error error, i') := by
  rw [outcome_append, h]

theorem outcome_singleton (event : Event) (i : Interpreter) :
    outcome setting [event] i = answer setting event i := by
  rcases h : answer setting event i with ⟨error | runs, i'⟩
  · exact outcome_cons_of_error h []
  · rw [outcome_cons_of_ok h, outcome_nil, Except.map, Array.append_empty]

/-! ### Where a list stops -/

variable (setting)

/-- Executing `events` from `i` ends the page at the event `failing`: those in
`done` before it are processed, and it meets `error`. -/
structure StopsAt (events : List Event) (i : Interpreter) (done : List Event) (failing : Event)
    (error : Error) : Prop where
  split : ∃ rest, events = done ++ failing :: rest
  processed : ∃ runs, (outcome setting done i).1 = .ok runs
  fails : (answer setting failing (outcome setting done i).2).1 = .error error

variable {setting}

/-- Nothing is executed after the event that ends the page. -/
theorem StopsAt.outcome_eq {events done : List Event} {failing : Event} {error : Error}
    (h : StopsAt setting events i done failing error) :
    outcome setting events i
      = (.error error, (answer setting failing (outcome setting done i).2).2) := by
  obtain ⟨rest, rfl⟩ := h.split
  obtain ⟨runs, hdone⟩ := h.processed
  rw [outcome_append_of_ok (Prod.ext hdone rfl), outcome_cons_of_error (Prod.ext h.fails rfl)]
  rfl

variable (setting)

/-- The runs that events return one after another, until one ends the page. -/
def returned : List Event → Interpreter → List (Array (Run Float))
  | [], _ => []
  | event :: rest, i =>
    match answer setting event i with
    | (.ok runs, i') => runs :: returned rest i'
    | (.error _, _) => []

variable {setting}

/-- A list that is executed to its end returns all of its runs. -/
theorem returned_of_ok (events : List Event) :
    ∀ {i : Interpreter} {runs : Array (Run Float)}, (outcome setting events i).1 = .ok runs →
      (returned setting events i).length = events.length
        ∧ runs.toList = (returned setting events i).flatMap Array.toList := by
  induction events with
  | nil =>
    intro i runs h
    obtain rfl : #[] = runs := Except.ok.inj h
    exact ⟨rfl, rfl⟩
  | cons event rest ih =>
    intro i runs h
    rcases hanswer : answer setting event i with ⟨error | first, i'⟩
    · rw [outcome_cons_of_error hanswer] at h
      cases h
    · rw [outcome_cons_of_ok hanswer] at h
      obtain ⟨others, hrest, rfl⟩ := map_eq_ok h
      obtain ⟨hlength, hruns⟩ := ih hrest
      simp only [returned, hanswer, List.length_cons, hlength, List.flatMap_cons,
        Array.toList_append, hruns, and_self]

/-- A list that is not executed to its end stops at one of its events, and the
interpreter is left as that event leaves it. -/
theorem stopsAt_of_error (events : List Event) :
    ∀ {i : Interpreter} {error : Error}, (outcome setting events i).1 = .error error →
      ∃ done failing, StopsAt setting events i done failing error
        ∧ (outcome setting events i).2 = (answer setting failing (outcome setting done i).2).2
        ∧ (returned setting events i).length = done.length := by
  induction events with
  | nil =>
    intro i error h
    cases h
  | cons event rest ih =>
    intro i error h
    rcases hanswer : answer setting event i with ⟨met | first, i'⟩
    · rw [outcome_cons_of_error hanswer] at h ⊢
      obtain rfl : met = error := Except.error.inj h
      refine ⟨[], event, ⟨⟨rest, rfl⟩, ⟨#[], rfl⟩, ?_⟩, ?_, ?_⟩
      · rw [outcome_nil, hanswer]
      · rw [outcome_nil, hanswer]
      · simp only [returned, hanswer, List.length_nil]
    · -- what the rest stops at is what the list stops at
      rw [outcome_cons_of_ok hanswer] at h ⊢
      obtain ⟨done, failing, ⟨⟨tail, hsplit⟩, ⟨others, hdone⟩, hfails⟩, hstate, hlength⟩ :=
        ih (map_eq_error h)
      have hcons : outcome setting (event :: done) i
          = (.ok (first ++ others), (outcome setting done i').2) := by
        rw [outcome_cons_of_ok hanswer, hdone]
        rfl
      refine ⟨event :: done, failing, ⟨⟨tail, ?_⟩, ⟨_, congrArg Prod.fst hcons⟩, ?_⟩, ?_, ?_⟩
      · rw [hsplit, List.cons_append]
      · rw [hcons]
        exact hfails
      · rw [hcons]
        exact hstate
      · simp only [returned, hanswer, List.length_cons, hlength]

end Interpreter

end PageText
