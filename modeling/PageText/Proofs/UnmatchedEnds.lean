/-
PageText/Proofs/UnmatchedEnds.lean

Where a page is aborted.  A page begins with a single state, so the events of
its content find what they need until one ends a text object while none is
open.  Either there is no such event, and the content is nested, or there is a
first one (`nested_or_firstUnmatched`); the events before it are executed to
their end, which tells where it stands (`above_of_nested`).

Main result: `execute_pageEvents`.  A page is aborted exactly when some events
at the start of its content end more text objects than they begin; the error
names the page and the position of the first end that is not matched, and a
page that is not aborted leaves an empty stack.
-/
import PageText.Proofs.Pages
import PageText.Proofs.TextObjects

namespace PageText

/-! ### The first end without a beginning -/

/-- The event ends a text object, and all those that were begun before it have
ended. -/
structure FirstUnmatched (before : List Event) (event : Event) : Prop where
  nested : Nested before
  settled : ended before = begun before
  ends : event.endsText = true

theorem FirstUnmatched.begun_lt_ended {before : List Event} {event : Event}
    (h : FirstUnmatched before event) : begun (before ++ [event]) < ended (before ++ [event]) := by
  obtain ⟨hone, hnone⟩ := Event.count_of_endsText h.ends
  rw [begun_append, ended_append, h.settled, hone, hnone]
  exact Nat.lt_succ_self _

theorem FirstUnmatched.length_le {before before' rest rest' : List Event} {event event' : Event}
    (h : FirstUnmatched before event) (h' : FirstUnmatched before' event')
    (hsplit : before ++ event :: rest = before' ++ event' :: rest') :
    before'.length ≤ before.length := by
  by_contra hlonger
  have hshort : before ++ [event] <+: before ++ event :: rest := ⟨rest, List.append_assoc _ _ _⟩
  have hlong : before' <+: before ++ event :: rest := hsplit ▸ List.prefix_append _ _
  have hprefix : before ++ [event] <+: before' := by
    refine List.prefix_of_prefix_length_le hshort hlong ?_
    rw [List.length_append, List.length_singleton]
    omega
  exact absurd (h'.nested _ hprefix) (Nat.not_le_of_lt h.begun_lt_ended)

/-- There is only one place where the balance tips first. -/
theorem FirstUnmatched.length_eq {before before' rest rest' : List Event} {event event' : Event}
    (h : FirstUnmatched before event) (h' : FirstUnmatched before' event')
    (hsplit : before ++ event :: rest = before' ++ event' :: rest') :
    before.length = before'.length :=
  Nat.le_antisymm (h'.length_le h hsplit.symm) (h.length_le h' hsplit)

theorem nested_nil : Nested [] := by
  intro first hfirst
  rw [List.prefix_nil.mp hfirst]
  exact Nat.le_refl _

theorem nested_or_firstUnmatched (events : List Event) :
    Nested events
      ∨ ∃ before event rest, events = before ++ event :: rest ∧ FirstUnmatched before event := by
  induction events using List.reverseRecOn with
  | nil => exact .inl nested_nil
  | append_singleton events event ih =>
    rcases ih with hnested | ⟨before, failing, rest, rfl, hfirst⟩
    · by_cases hcount : ended (events ++ [event]) ≤ begun (events ++ [event])
      · left
        intro first hfirst
        rcases List.prefix_concat_iff.mp hfirst with rfl | hfirst
        · exact hcount
        · exact hnested first hfirst
      · -- the last event tips the balance, so it is the first to end too much
        have hbefore : ended events ≤ begun events := hnested events (List.prefix_refl _)
        rw [ended_append, begun_append] at hcount
        rcases hend : event.endsText with - | -
        · rw [Event.ended_eq_zero hend] at hcount
          omega
        · obtain ⟨hone, hnone⟩ := Event.count_of_endsText hend
          refine .inr ⟨events, event, [], rfl, hnested, ?_, hend⟩
          omega
    · right
      refine ⟨before, failing, rest ++ [event], ?_, hfirst⟩
      rw [List.append_assoc, List.cons_append]

/-- Events of other kinds than these neither begin nor end a page. -/
theorem Event.staysOnPage_of_kind {event : Event}
    (hbegin : Kind.ofName? event.kind ≠ some .beginPage)
    (hend : Kind.ofName? event.kind ≠ some .endPage) : event.staysOnPage = true := by
  have hnoBegin : event.beginsPage = false := by
    rw [← Bool.not_eq_true]
    intro h
    obtain ⟨page, hop⟩ := exists_page h
    exact hbegin (ofOperands_of_ofEvent? hop).1
  have hnoEnd : event.endsPage = false := by
    rw [← Bool.not_eq_true]
    intro h
    exact hend (ofOperands_of_ofEvent? (endsPage_iff.mp h)).1
  rw [staysOnPage, hnoBegin, hnoEnd]
  rfl

namespace Interpreter

variable {i : Interpreter}

/-! ### Contents of a page -/

/-- The event that tips the balance lacks a state. -/
theorem outcome_of_firstUnmatched (setting : Setting) {s : TextState Float} (hi : i.stack = [s])
    {before : List Event} {event : Event} (hstays : ∀ event ∈ before, event.staysOnPage = true)
    (hfirst : FirstUnmatched before event) (rest : List Event) :
    (outcome setting (before ++ event :: rest) i).1
      = .error (.underflow i.page (i.nextIndex + before.length)) := by
  obtain ⟨runs, i', hbefore, habove⟩ := above_of_nested setting hi before hstays hfirst.nested
  obtain ⟨above, hstack, hcount⟩ := habove.stack
  -- what was begun has ended, so only the state of the page is left, which cannot be taken off
  rw [hfirst.settled] at hcount
  obtain ⟨t, rfl⟩ := List.length_eq_one_iff.mp (Nat.add_right_cancel hcount)
  have hfails : answer setting event i' = (.error (.underflow i'.page i'.nextIndex),
      { i' with nextIndex := i'.nextIndex + 1 }) := by
    rw [answer_of_operator (Event.endsText_iff.mp hfirst.ends), hstack]
    rfl
  rw [outcome_append_of_ok hbefore, outcome_cons_of_error hfails, habove.page, habove.nextIndex]
  rfl

/-- Nested events come to the end of their page, which empties the stack. -/
theorem outcome_of_nested (setting : Setting) {s : TextState Float} (hi : i.stack = [s])
    {events : List Event} {last : Event} (hstays : ∀ event ∈ events, event.staysOnPage = true)
    (hnested : Nested events) (hlast : last.endsPage = true) :
    ∃ runs i', outcome setting (events ++ [last]) i = (.ok runs, i') ∧ i'.stack = [] := by
  obtain ⟨runs, i', hrun, habove⟩ := above_of_nested setting hi events hstays hnested
  obtain ⟨above, hstack, hcount⟩ := habove.stack
  have hle : ended events ≤ begun events := hnested events (List.prefix_refl _)
  rcases above with - | ⟨t, above⟩
  · -- the state of the page is still there
    rw [List.length_nil] at hcount
    omega
  · rw [outcome_append_of_ok hrun, outcome_singleton,
      answer_of_operator (Event.endsPage_iff.mp hlast), hstack]
    exact ⟨_, _, rfl, rfl⟩

/-- **A page is aborted at the first end of a text object without a beginning**,
and nowhere else: whatever the content, the metrics and the options, wherever
the interpreter stood before.  Otherwise the page is read to its end and the
stack is empty. -/
theorem execute_pageEvents (setting : Setting) (page : UInt32) (bytes : List UInt8)
    (i : Interpreter)
    (hkinds : ∀ event ∈ Content.events bytes,
      Kind.ofName? event.kind ≠ some .beginPage ∧ Kind.ofName? event.kind ≠ some .endPage) :
    let parsed := Content.events bytes
    let whole := execute setting (Content.pageEvents page bytes) i
    ((∃ error, whole.1.result = .error error)
        ↔ ∃ first, first <+: parsed ∧ begun first < ended first)
      ∧ (∀ error, whole.1.result = .error error →
        ∃ before event rest, parsed = before ++ event :: rest ∧ FirstUnmatched before event
          ∧ error = .underflow (some page) (1 + before.length))
      ∧ ∀ runs, whole.1.result = .ok runs → whole.2.stack = [] := by
  intro parsed whole
  have hstays : ∀ event ∈ parsed, event.staysOnPage = true := fun event hevent =>
    Event.staysOnPage_of_kind (hkinds event hevent).1 (hkinds event hevent).2
  have hwhole := outcome_pageEvents_eq setting page bytes i
  rcases nested_or_firstUnmatched parsed with hnested | ⟨before, event, rest, hsplit, hfirst⟩
  · have hend : Event.endsPage ⟨Kind.endPage.description, []⟩ = true := by decide
    obtain ⟨runs, i', hrun, hempty⟩ := outcome_of_nested setting
      (i := ⟨Stack.page, some page, 1, #[], #[]⟩) rfl hstays hnested hend
    have hok : whole.1.result = .ok runs := congrArg Prod.fst (hwhole.trans hrun)
    refine ⟨⟨?_, ?_⟩, ?_, ?_⟩
    · rintro ⟨error, herror⟩
      cases hok.symm.trans herror
    · rintro ⟨first, hprefix, hlt⟩
      exact absurd (hnested first hprefix) (Nat.not_le_of_lt hlt)
    · intro error herror
      cases hok.symm.trans herror
    · intro _ _
      exact (congrArg (fun result => result.2.stack) (hwhole.trans hrun)).trans hempty
  · have hstaysBefore : ∀ event ∈ before, event.staysOnPage = true := fun earlier hearlier =>
      hstays earlier (hsplit ▸ List.mem_append_left _ hearlier)
    have herror : whole.1.result = .error (.underflow (some page) (1 + before.length)) := by
      refine (congrArg Prod.fst hwhole).trans ?_
      show (outcome setting (parsed ++ _) _).1 = _
      rw [hsplit, List.append_assoc, List.cons_append]
      exact outcome_of_firstUnmatched setting (s := .initial) rfl hstaysBefore hfirst _
    refine ⟨⟨?_, ?_⟩, ?_, ?_⟩
    · intro _
      refine ⟨before ++ [event], ⟨rest, ?_⟩, hfirst.begun_lt_ended⟩
      exact (List.append_assoc _ _ _).trans hsplit.symm
    · intro _
      exact ⟨_, herror⟩
    · intro other hother
      exact ⟨before, event, rest, hsplit, hfirst, Except.error.inj (hother.symm.trans herror)⟩
    · intro runs hok
      cases herror.symm.trans hok

/-- The content `BT (a) ' (b) ET ET ET` ends its text object once, and once too
often: the first `ET` has an operand and does not count. -/
theorem execute_pageEvents_of_unmatched_end :
    let bytes : List UInt8 :=
      [0x42, 0x54, 0x28, 0x61, 0x29, 0x27, 0x28, 0x62, 0x29, 0x45, 0x54, 0x20, 0x45, 0x54, 0x20,
        0x45, 0x54]
    let whole := execute {} (Content.pageEvents 7 bytes) {}
    (∀ event ∈ Content.events bytes,
        Kind.ofName? event.kind ≠ some .beginPage ∧ Kind.ofName? event.kind ≠ some .endPage)
      ∧ whole.1.result = .error (.underflow (some 7) 5) := by
  intro bytes whole
  have hparsed : Content.events bytes
      = [⟨"BT", []⟩, ⟨"'", [.text "a"]⟩, ⟨"ET", [.text "b"]⟩, ⟨"ET", []⟩, ⟨"ET", []⟩] := by
    cbv
  have hkinds : ∀ event ∈ Content.events bytes,
      Kind.ofName? event.kind ≠ some .beginPage ∧ Kind.ofName? event.kind ≠ some .endPage := by
    rw [hparsed]
    decide +kernel
  obtain ⟨hfails, hplace, -⟩ := execute_pageEvents {} 7 bytes {} hkinds
  obtain ⟨error, herror⟩ := hfails.mpr ⟨_, List.prefix_refl _, by rw [hparsed]; decide +kernel⟩
  obtain ⟨before, event, rest, hsplit, hfirst, rfl⟩ := hplace error herror
  have hfourth : FirstUnmatched
      [⟨"BT", []⟩, ⟨"'", [.text "a"]⟩, ⟨"ET", [.text "b"]⟩, ⟨"ET", []⟩] ⟨"ET", []⟩ :=
    ⟨by decide +kernel, by decide +kernel, by decide +kernel⟩
  rw [hfirst.length_eq hfourth (hsplit.symm.trans hparsed)] at herror
  exact ⟨hkinds, herror⟩

end Interpreter

end PageText
