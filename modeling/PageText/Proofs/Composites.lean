/-
PageText/Proofs/Composites.lean

Operators that are made of others.  In a content stream `TD` is spelled out as
`Td TL`, `'` as `T* Tj` and `"` as `Tw Tc T* Tj`; `Event.parts` are the events of
such a spelling, and an event that is made of no others is its only part.

One event and its parts do the same, whatever the count of events stands at
(`madeOf_parts`): a part that shows nothing hands the changed top state on to the
next one (`outcome_cons_of_silent`), so the last one finds the state that
the event shows its text from.  Without a state the first part fails where the
event does.

Main result: `execute_expanded`, for lists of events and any interpreter.
-/
import PageText.Proofs.OperandShapes

namespace PageText

/-! ### Parts -/

/-- The events that an event is made of. -/
def Event.parts (event : Event) : List Event :=
  match Operator.ofEvent? event with
  | .ok (some (.moveLineSetLeading dx dy)) =>
    [⟨"Td", [.number dx, .number dy]⟩, ⟨"TL", [.number dy]⟩]
  | .ok (some (.nextLineShow text)) => [⟨"T*", []⟩, ⟨"Tj", [.text text]⟩]
  | .ok (some (.setSpacingNextLineShow wordSpacing charSpacing text)) =>
    [⟨"Tw", [.number wordSpacing]⟩, ⟨"Tc", [.number charSpacing]⟩, ⟨"T*", []⟩,
      ⟨"Tj", [.text text]⟩]
  | _ => [event]

/-- The events with their parts in place of those that are made of others. -/
def expanded (events : List Event) : List Event := events.flatMap Event.parts

theorem expanded_cons (event : Event) (rest : List Event) :
    expanded (event :: rest) = event.parts ++ expanded rest := List.flatMap_cons

theorem expanded_append (first second : List Event) :
    expanded (first ++ second) = expanded first ++ expanded second := List.flatMap_append

/-! ### Checked events -/

namespace Operator

variable {name : String} {operands : List Operand} {event : Event}

/-- An event that is spelled with a mnemonic is checked for its kind. -/
theorem ofEvent?_of_mnemonic (kind : Kind) (hname : kind.mnemonic? = some name) {op : Operator}
    (h : ofOperands kind operands = .ok op) : ofEvent? ⟨name, operands⟩ = .ok (some op) := by
  simp only [ofEvent?, Kind.ofName?_mnemonic hname, h]

theorem ofEvent?_oneNumber (kind : Kind) (hname : kind.mnemonic? = some name)
    {make : Float → Operator}
    (hkind : ∀ operands, ofOperands kind operands = Operands.oneNumber operands make) {x : Float}
    (hx : x.isFinite = true) : ofEvent? ⟨name, [.number x]⟩ = .ok (some (make x)) := by
  have hmade : Operands.oneNumber [.number x] make = .ok (make x) :=
    Operands.oneNumber_eq_ok_iff.mpr ⟨x, hx, rfl, rfl⟩
  exact ofEvent?_of_mnemonic kind hname ((hkind _).trans hmade)

theorem ofEvent?_twoNumbers (kind : Kind) (hname : kind.mnemonic? = some name)
    {make : Float → Float → Operator}
    (hkind : ∀ operands, ofOperands kind operands = Operands.twoNumbers operands make)
    {x y : Float} (hx : x.isFinite = true) (hy : y.isFinite = true) :
    ofEvent? ⟨name, [.number x, .number y]⟩ = .ok (some (make x y)) := by
  have hmade : Operands.twoNumbers [.number x, .number y] make = .ok (make x y) :=
    Operands.twoNumbers_eq_ok_iff.mpr ⟨x, y, hx, hy, rfl, rfl⟩
  exact ofEvent?_of_mnemonic kind hname ((hkind _).trans hmade)

theorem ofEvent?_nextLine : ofEvent? ⟨"T*", []⟩ = .ok (some .nextLine) :=
  ofEvent?_of_mnemonic .nextLine rfl rfl

theorem ofEvent?_showText (text : String) :
    ofEvent? ⟨"Tj", [.text text]⟩ = .ok (some (.showText text)) :=
  ofEvent?_of_mnemonic .showText rfl rfl

/-- The numbers of a checked event are finite. -/
theorem isFinite_of_moveLineSetLeading {dx dy : Float}
    (h : ofEvent? event = .ok (some (.moveLineSetLeading dx dy))) :
    dx.isFinite = true ∧ dy.isFinite = true := by
  have hfinite := (ofEvent?_eq_some_iff.mp h).operands.writable.finite
  exact ⟨hfinite dx List.mem_cons_self, hfinite dy (List.mem_cons_of_mem _ List.mem_cons_self)⟩

theorem isFinite_of_setSpacingNextLineShow {wordSpacing charSpacing : Float} {text : String}
    (h : ofEvent? event = .ok (some (.setSpacingNextLineShow wordSpacing charSpacing text))) :
    wordSpacing.isFinite = true ∧ charSpacing.isFinite = true := by
  have hfinite := (ofEvent?_eq_some_iff.mp h).operands.writable.finite
  exact ⟨hfinite wordSpacing List.mem_cons_self,
    hfinite charSpacing (List.mem_cons_of_mem _ List.mem_cons_self)⟩

/-! ### Operators on the top state -/

/-- An operator that needs a state and changes the top one alone. -/
structure OnTop (op : Operator) : Prop where
  fails : op.stackAfter? [] = none
  works : ∀ s below, op.stackAfter? (s :: below) = some (op.change s :: below)

/-- It also shows nothing. -/
structure Silent (op : Operator) : Prop extends OnTop op where
  shows : ∀ (setting : Setting) s below, setting.kept op (s :: below) = #[]

/-- An operator that sets a part of the top state or moves it. -/
def setsState : Operator → Bool
  | setLeading _ | setRise _ | setCharSpacing _ | setWordSpacing _ | setHorizontalScale _
  | moveLine .. | setFont .. | setMatrix _ | nextLine => true
  | _ => false

theorem Silent.of_setsState {op : Operator} (h : op.setsState = true) : Silent op := by
  cases op with
  | setLeading | setRise | setCharSpacing | setWordSpacing | setHorizontalScale | moveLine
  | setFont | setMatrix | nextLine => exact ⟨⟨rfl, fun _ _ => rfl⟩, fun _ _ _ => rfl⟩
  | _ => cases h

theorem OnTop.not_beginsPage {op : Operator} (h : OnTop op)
    (hop : ofEvent? event = .ok (some op)) : event.beginsPage = false := by
  rw [← Bool.not_eq_true]
  intro hpage
  obtain ⟨page, hbegin⟩ := Event.exists_page hpage
  cases hop.symm.trans hbegin
  cases h.fails

end Operator

namespace Interpreter

/-! ### Counts -/

/-- The interpreter with another count of events. -/
def recounted (n : Nat) (i : Interpreter) : Interpreter := { i with nextIndex := n }

variable {setting : Setting} {event : Event} {i : Interpreter}

/-- The count shows in errors only. -/
theorem answer_recounted (setting : Setting) (event : Event) (i : Interpreter) (n : Nat) :
    answer setting event (i.recounted n)
      = match answer setting event i with
        | (.ok runs, i') => (.ok runs, i'.recounted (if event.beginsPage then 1 else n + 1))
        | (.error _, _) => (.error (.underflow i.page n), i.recounted (n + 1)) := by
  rcases hpage : event.beginsPage with - | -
  · rw [answer_of_not_beginsPage hpage, answer_of_not_beginsPage hpage, recounted]
    rcases event.stackAfter? i.stack with - | stack
    · rfl
    · rfl
  · obtain ⟨page, hop⟩ := Event.exists_page hpage
    rw [answer_of_beginPage hop, answer_of_beginPage hop]
    rfl

/-! ### Operators on the top state, carried out -/

open Operator (OnTop Silent)

variable {op : Operator} {s : TextState Float} {below : Stack Float}

theorem answer_of_no_state (h : OnTop op) (hop : Operator.ofEvent? event = .ok (some op))
    (hi : i.stack = []) :
    answer setting event i
      = (.error (.underflow i.page i.nextIndex), i.recounted (i.nextIndex + 1)) := by
  have hstack : op.stackAfter? i.stack = none := by rw [hi, h.fails]
  rw [answer_within_page hop (h.not_beginsPage hop), hstack]
  rfl

theorem answer_of_onTop (h : OnTop op) (hop : Operator.ofEvent? event = .ok (some op))
    (hi : i.stack = s :: below) :
    answer setting event i
      = (.ok (setting.kept op (s :: below)),
        { i with
          stack := op.change s :: below, nextIndex := i.nextIndex + 1,
          runs := i.runs ++ setting.kept op (s :: below) }) := by
  have hstack : op.stackAfter? i.stack = some (op.change s :: below) := by rw [hi, h.works]
  rw [answer_within_page hop (h.not_beginsPage hop), hstack, hi]

/-- A silent event hands the changed top state on to the events after it. -/
theorem outcome_cons_of_silent (h : Silent op) (hop : Operator.ofEvent? event = .ok (some op))
    (hi : i.stack = s :: below) (rest : List Event) :
    outcome setting (event :: rest) i
      = outcome setting rest
        { i with stack := op.change s :: below, nextIndex := i.nextIndex + 1 } := by
  have hanswer : answer setting event i = (.ok (setting.kept op (s :: below)), _) :=
    answer_of_onTop h.toOnTop hop hi
  rw [h.shows, Array.append_empty] at hanswer
  rw [outcome_cons_of_ok hanswer]
  rcases outcome setting rest _ with ⟨error | runs, i'⟩
  · rfl
  · rw [Except.map, Array.empty_append]

/-! ### One event and its parts -/

variable (setting)

/-- Executed with any count, the events `parts` do what `event` does: they return
the same runs and leave the same interpreter but for its count, or the first of
them fails where the event does. -/
def MadeOf (event : Event) (parts : List Event) (i : Interpreter) : Prop :=
  ∀ n, match answer setting event i with
    | (.ok runs, i') => ∃ m, outcome setting parts (i.recounted n) = (.ok runs, i'.recounted m)
    | (.error _, _) => ∃ first rest, parts = first :: rest
      ∧ answer setting first (i.recounted n) = (.error (.underflow i.page n), i.recounted (n + 1))

/-- An event is made of itself. -/
theorem madeOf_self (event : Event) (i : Interpreter) : MadeOf setting event [event] i := by
  intro n
  have hrecounted := answer_recounted setting event i n
  rcases h : answer setting event i with ⟨error | runs, i'⟩
  · rw [h] at hrecounted
    exact ⟨event, [], rfl, hrecounted⟩
  · rw [h] at hrecounted
    exact ⟨_, (outcome_singleton event _).trans hrecounted⟩

variable {setting}

/-- An event is made of others if they come to the same top state and the same
runs, and the first of them needs a state as well. -/
theorem madeOf_of_onTop (h : OnTop op) (hop : Operator.ofEvent? event = .ok (some op))
    {first : Operator} {opening : Event} {rest : List Event} (hfirst : OnTop first)
    (hopening : Operator.ofEvent? opening = .ok (some first))
    (hparts : ∀ (j : Interpreter) s below, j.stack = s :: below →
      ∃ m, outcome setting (opening :: rest) j
        = (.ok (setting.kept op (s :: below)),
          { j with
            stack := op.change s :: below, nextIndex := m,
            runs := j.runs ++ setting.kept op (s :: below) })) (i : Interpreter) :
    MadeOf setting event (opening :: rest) i := by
  intro n
  rcases hi : i.stack with - | ⟨s, below⟩
  · rw [answer_of_no_state h hop hi]
    exact ⟨opening, rest, rfl, answer_of_no_state hfirst hopening hi⟩
  · rw [answer_of_onTop h hop hi]
    exact hparts (i.recounted n) s below hi

theorem madeOf_moveLineSetLeading {dx dy : Float}
    (hop : Operator.ofEvent? event = .ok (some (.moveLineSetLeading dx dy))) :
    MadeOf setting event [⟨"Td", [.number dx, .number dy]⟩, ⟨"TL", [.number dy]⟩] i := by
  obtain ⟨hx, hy⟩ := Operator.isFinite_of_moveLineSetLeading hop
  have hmove := Operator.ofEvent?_twoNumbers .moveLine rfl (fun _ => rfl) hx hy
  have hleading := Operator.ofEvent?_oneNumber .setLeading rfl (fun _ => rfl) hy
  refine madeOf_of_onTop ⟨rfl, fun _ _ => rfl⟩ hop (Silent.of_setsState rfl).toOnTop hmove ?_ i
  intro j s below hj
  refine ⟨j.nextIndex + 1 + 1, ?_⟩
  rw [outcome_cons_of_silent (.of_setsState rfl) hmove hj,
    outcome_cons_of_silent (.of_setsState rfl) hleading rfl, outcome_nil]
  rfl

theorem madeOf_nextLineShow {text : String}
    (hop : Operator.ofEvent? event = .ok (some (.nextLineShow text))) :
    MadeOf setting event [⟨"T*", []⟩, ⟨"Tj", [.text text]⟩] i := by
  have hline := Operator.ofEvent?_nextLine
  have hshow := Operator.ofEvent?_showText text
  refine madeOf_of_onTop ⟨rfl, fun _ _ => rfl⟩ hop (Silent.of_setsState rfl).toOnTop hline ?_ i
  intro j s below hj
  refine ⟨j.nextIndex + 1 + 1, ?_⟩
  rw [outcome_cons_of_silent (.of_setsState rfl) hline hj, outcome_singleton,
    answer_of_onTop ⟨rfl, fun _ _ => rfl⟩ hshow rfl]
  rfl

theorem madeOf_setSpacingNextLineShow {wordSpacing charSpacing : Float} {text : String}
    (hop : Operator.ofEvent? event
      = .ok (some (.setSpacingNextLineShow wordSpacing charSpacing text))) :
    MadeOf setting event
      [⟨"Tw", [.number wordSpacing]⟩, ⟨"Tc", [.number charSpacing]⟩, ⟨"T*", []⟩,
        ⟨"Tj", [.text text]⟩] i := by
  obtain ⟨hx, hy⟩ := Operator.isFinite_of_setSpacingNextLineShow hop
  have hword := Operator.ofEvent?_oneNumber .setWordSpacing rfl (fun _ => rfl) hx
  have hchar := Operator.ofEvent?_oneNumber .setCharSpacing rfl (fun _ => rfl) hy
  have hline := Operator.ofEvent?_nextLine
  have hshow := Operator.ofEvent?_showText text
  refine madeOf_of_onTop ⟨rfl, fun _ _ => rfl⟩ hop (Silent.of_setsState rfl).toOnTop hword ?_ i
  intro j s below hj
  refine ⟨j.nextIndex + 1 + 1 + 1 + 1, ?_⟩
  -- both spacings are set in the state that the next line is reached from
  rw [outcome_cons_of_silent (.of_setsState rfl) hword hj,
    outcome_cons_of_silent (.of_setsState rfl) hchar rfl,
    outcome_cons_of_silent (.of_setsState rfl) hline rfl, outcome_singleton,
    answer_of_onTop ⟨rfl, fun _ _ => rfl⟩ hshow rfl]
  rfl

/-- **An event does what its parts do.** -/
theorem madeOf_parts (setting : Setting) (event : Event) (i : Interpreter) :
    MadeOf setting event event.parts i := by
  rw [Event.parts]
  split
  · next dx dy hop => exact madeOf_moveLineSetLeading hop
  · next text hop => exact madeOf_nextLineShow hop
  · next wordSpacing charSpacing text hop => exact madeOf_setSpacingNextLineShow hop
  · exact madeOf_self setting event i

/-! ### Events in a row -/

/-- Where events are processed, their parts are processed too, and return the same
runs. -/
theorem outcome_expanded (events : List Event) :
    ∀ {i : Interpreter} {runs : Array (Run Float)}, (outcome setting events i).1 = .ok runs →
      ∀ n, ∃ m, outcome setting (expanded events) (i.recounted n)
        = (.ok runs, (outcome setting events i).2.recounted m) := by
  induction events with
  | nil =>
    intro i runs h n
    obtain rfl : #[] = runs := Except.ok.inj h
    exact ⟨n, rfl⟩
  | cons event rest ih =>
    intro i runs h n
    have hparts := madeOf_parts setting event i n
    rcases hanswer : answer setting event i with ⟨error | first, i'⟩
    · rw [outcome_cons_of_error hanswer] at h
      cases h
    · rw [outcome_cons_of_ok hanswer] at h ⊢
      obtain ⟨others, hrest, rfl⟩ := map_eq_ok h
      rw [hanswer] at hparts
      obtain ⟨m, hfirst⟩ := hparts
      obtain ⟨k, hothers⟩ := ih hrest m
      refine ⟨k, ?_⟩
      rw [expanded_cons, outcome_append_of_ok hfirst, hothers]
      rfl

/-- **Composite operators are their parts in a row.**  Both lists of events leave
the same interpreter but for its count, and both come to their ends and return
the same runs, or they stop on the same page, the one at an event and the other
one at the first of its parts. -/
theorem execute_expanded (setting : Setting) (events : List Event) (i : Interpreter) :
    let whole := execute setting events i
    let parts := execute setting (expanded events) i
    parts.2 = whole.2.recounted parts.2.nextIndex ∧ match whole.1.result with
      | .ok runs => parts.1.result = .ok runs
      | .error error => ∃ done failing first rest page index other,
        failing.parts = first :: rest
          ∧ error = .underflow page index
          ∧ parts.1.result = .error (.underflow page other)
          ∧ StopsAt setting events i done failing error
          ∧ StopsAt setting (expanded events) i (expanded done) first (.underflow page other) := by
  intro whole parts
  rcases hresult : whole.1.result with error | runs
  · obtain ⟨done, failing, hstops, hstate, -⟩ := stopsAt_of_error events hresult
    obtain ⟨runs, hdone⟩ := hstops.processed
    obtain ⟨m, hexpanded⟩ := outcome_expanded done hdone i.nextIndex
    have hparts := madeOf_parts setting failing (outcome setting done i).2 m
    have hanswer : answer setting failing (outcome setting done i).2 = (.error error, _) :=
      Prod.ext hstops.fails rfl
    obtain ⟨herror, hleft⟩ := answer_error hanswer
    rw [hanswer] at hparts
    obtain ⟨first, rest, hfirst, hfails⟩ := hparts
    obtain ⟨tail, hsplit⟩ := hstops.split
    have hdoneState : (outcome setting (expanded done) i).2
        = (outcome setting done i).2.recounted m := congrArg Prod.snd hexpanded
    have hstopsParts : StopsAt setting (expanded events) i (expanded done) first
        (.underflow (outcome setting done i).2.page m) := by
      refine ⟨⟨rest ++ expanded tail, ?_⟩, ⟨runs, congrArg Prod.fst hexpanded⟩, ?_⟩
      · rw [hsplit, expanded_append, expanded_cons, hfirst]
        rfl
      · rw [hdoneState, hfails]
    have hpartsEq := hstopsParts.outcome_eq
    refine ⟨?_, done, failing, first, rest, _, _, _, hfirst, herror, congrArg Prod.fst hpartsEq,
      hstops, hstopsParts⟩
    -- both are left as they were before the failing event, but for their counts
    have hwholeState : whole.2 = (outcome setting done i).2.recounted _ := hstate.trans hleft
    have hpartsState : parts.2 = (outcome setting done i).2.recounted (m + 1) := by
      refine (congrArg Prod.snd hpartsEq).trans ?_
      rw [hdoneState, hfails]
    rw [hwholeState, hpartsState]
    rfl
  · obtain ⟨m, hexpanded⟩ := outcome_expanded events hresult i.nextIndex
    have hpartsState : parts.2 = whole.2.recounted m := congrArg Prod.snd hexpanded
    refine ⟨?_, congrArg Prod.fst hexpanded⟩
    rw [hpartsState]
    rfl

end Interpreter

end PageText
