/-
PageText/Proofs/MediaBox.lean

A media box only filters.  An interpreter with a media box goes through the
same stacks, pages, counts and diagnostics as one without, and of the runs it
keeps those whose origin lies in the box.  Said with `clipped`, which leaves
everything of an interpreter but the runs outside of the box, the two commute:

    process with the box (clip i)  =  clip (process without it i)

for one event (`answer_clipped`), and so for any number (`afterEach_clipped`).

What lies in a box is said by `Box.Encloses`: all coordinates are numbers, and
the point is between the smaller and the greater end of either side.  Which
corners are given, and in which order, makes no difference (`contains_flipAcross`,
`contains_flipUp`).

Main result: `process_clippedTo`.
-/
import PageText.Proofs.Conservation
import PageText.Proofs.FloatOrder
import PageText.Proofs.History

namespace PageText

/-! ### Inside a box -/

namespace Box

/-- `x` lies between `p` and `q`, and all three are numbers. -/
structure Spans (p q x : Float) : Prop where
  numbers : p.isNaN = false ∧ q.isNaN = false ∧ x.isNaN = false
  low : min p q ≤ x
  high : x ≤ max p q

/-- The point lies between the ends of both sides. -/
def Encloses (box : Box) (point : Point Float) : Prop :=
  Spans box.x0 box.x1 point.x ∧ Spans box.y0 box.y1 point.y

theorem ascending_eq (p q : Float) : ascending p q = (min p q, max p q) := by
  by_cases h : p ≤ q
  · simp only [ascending, min, max, if_pos h]
  · simp only [ascending, min, max, if_neg h]

theorem between_iff {p q x : Float} : between p q x = true ↔ Spans p q x := by
  simp only [between, ascending_eq, Bool.and_eq_true, decide_eq_true_iff]
  constructor
  · rintro ⟨hlow, hhigh⟩
    obtain ⟨hmin, hx, -⟩ := Binary64.le_iff.mp hlow
    obtain ⟨-, hmax, -⟩ := Binary64.le_iff.mp hhigh
    -- the ends of the side are its smaller and its greater end
    by_cases h : p ≤ q
    · simp only [min, max, if_pos h] at hmin hmax
      exact ⟨⟨hmin, hmax, hx⟩, hlow, hhigh⟩
    · simp only [min, max, if_neg h] at hmin hmax
      exact ⟨⟨hmax, hmin, hx⟩, hlow, hhigh⟩
  · intro h
    exact ⟨h.low, h.high⟩

theorem contains_iff {box : Box} {point : Point Float} :
    box.contains point = true ↔ box.Encloses point := by
  rw [contains, Bool.and_eq_true, between_iff, between_iff, Encloses]

instance (box : Box) (point : Point Float) : Decidable (box.Encloses point) :=
  decidable_of_iff (box.contains point = true) contains_iff

/-- The ends of a side may change places. -/
theorem Spans.symm {p q x : Float} (h : Spans p q x) : Spans q p x := by
  obtain ⟨⟨hp, hq, hx⟩, hlow, hhigh⟩ := h
  have hbetween : min q p ≤ x ∧ x ≤ max q p := by
    by_cases hpq : p ≤ q
    · simp only [min, max, if_pos hpq] at hlow hhigh
      by_cases hqp : q ≤ p
      · -- the two ends are the same number, but may be zeros of either sign
        simp only [min, max, if_pos hqp]
        exact ⟨Binary64.le_trans hqp hlow, Binary64.le_trans hhigh hqp⟩
      · simp only [min, max, if_neg hqp]
        exact ⟨hlow, hhigh⟩
    · have hqp : q ≤ p := (Binary64.le_total hp hq).resolve_left hpq
      simp only [min, max, if_neg hpq] at hlow hhigh
      simp only [min, max, if_pos hqp]
      exact ⟨hlow, hhigh⟩
  exact ⟨⟨hq, hp, hx⟩, hbetween.1, hbetween.2⟩

theorem between_comm (p q x : Float) : between p q x = between q p x := by
  rw [Bool.eq_iff_iff, between_iff, between_iff]
  exact ⟨Spans.symm, Spans.symm⟩

/-- The box with its left and right ends exchanged. -/
def flipAcross (box : Box) : Box := { box with x0 := box.x1, x1 := box.x0 }

/-- The box with its upper and lower ends exchanged. -/
def flipUp (box : Box) : Box := { box with y0 := box.y1, y1 := box.y0 }

theorem contains_flipAcross (box : Box) : box.flipAcross.contains = box.contains := by
  funext point
  rw [contains, contains, flipAcross, between_comm]

theorem contains_flipUp (box : Box) : box.flipUp.contains = box.contains := by
  funext point
  rw [contains, contains, flipUp, between_comm box.y1]

/-- The runs whose origin lies in the box. -/
def enclosed (box : Box) (runs : Array (Run Float)) : Array (Run Float) :=
  runs.filter fun run => box.Encloses run.origin

theorem enclosed_append (box : Box) (first second : Array (Run Float)) :
    box.enclosed (first ++ second) = box.enclosed first ++ box.enclosed second :=
  Array.filter_append Array.size_append

end Box

/-! ### Settings that differ in their box -/

namespace Setting

/-- The setting with this media box. -/
def clippedTo (setting : Setting) (box : Box) : Setting :=
  { setting with options := { setting.options with mediaBox := some box } }

variable {setting other : Setting}

theorem shownItems_congr (h : setting.typesetter = other.typesetter) (items : List TextItem) :
    ∀ s : TextState Float, setting.shownItems s items = other.shownItems s items := by
  induction items with
  | nil =>
    intro s
    rfl
  | cons item rest ih =>
    intro s
    cases item with
    | adjustment value => rw [shownItems, shownItems, ih]
    | text text => rw [shownItems, shownItems, ih, h]

/-- What is shown depends on the typesetter alone. -/
theorem showing_congr (h : setting.typesetter = other.typesetter) (op : Operator)
    (stack : Stack Float) : setting.showing op stack = other.showing op stack := by
  rcases stack with - | ⟨s, below⟩
  · rfl
  · cases op with
    | showSpaced items => exact shownItems_congr h items s
    | _ => simp only [showing, h]

/-- Of what is shown the box keeps what it encloses. -/
theorem kept_clippedTo (setting : Setting) (box : Box) (op : Operator) (stack : Stack Float) :
    (setting.clippedTo box).kept op stack = box.enclosed (setting.unclipped.kept op stack) := by
  have htypesetter : (setting.clippedTo box).typesetter = setting.unclipped.typesetter := rfl
  have hkeeps : (setting.clippedTo box).options.keeps
      = fun run : Run Float => decide (box.Encloses run.origin) := by
    funext run
    exact Bool.eq_iff_iff.mpr (Box.contains_iff.trans decide_eq_true_iff.symm)
  rw [kept_unclipped, kept, showing_congr htypesetter, hkeeps]
  rfl

end Setting

theorem Event.kept_clippedTo (setting : Setting) (box : Box) (event : Event)
    (stack : Stack Float) :
    event.kept (setting.clippedTo box) stack
      = box.enclosed (event.kept setting.unclipped stack) := by
  rw [kept, kept]
  split
  · exact setting.kept_clippedTo box _ stack
  · rfl

namespace Interpreter

/-- Settings with the same typesetter that keep the same runs are the same to an
interpreter. -/
theorem process_congr {setting other : Setting}
    (htypesetter : setting.typesetter = other.typesetter)
    (hkeeps : setting.options.keeps = other.options.keeps) : process setting = process other := by
  have hdispatch : dispatch setting = dispatch other := by
    funext op i
    have hshowing : setting.showing op = other.showing op :=
      funext (Setting.showing_congr htypesetter op)
    simp only [dispatch_eq, Setting.after, Setting.kept, Setting.emission, hshowing, hkeeps]
  funext event i
  simp only [process, carryOut, hdispatch]

/-! ### Clipping -/

/-- The interpreter with the runs alone that the box encloses. -/
def clipped (box : Box) (i : Interpreter) : Interpreter := { i with runs := box.enclosed i.runs }

/-- **Clipping commutes with processing an event.** -/
theorem answer_clipped (setting : Setting) (box : Box) (event : Event) (i : Interpreter) :
    answer (setting.clippedTo box) event (i.clipped box)
      = ((answer setting.unclipped event i).1.map box.enclosed,
        (answer setting.unclipped event i).2.clipped box) := by
  rcases hpage : event.beginsPage with - | -
  · rw [answer_of_not_beginsPage hpage, answer_of_not_beginsPage hpage]
    rcases hstack : event.stackAfter? i.stack with - | stack
    · simp only [clipped, hstack, Except.map]
    · -- runs are appended before or after clipping
      simp only [clipped, hstack, Except.map, Event.kept_clippedTo, Box.enclosed_append]
  · obtain ⟨page, hop⟩ := Event.exists_page hpage
    rw [answer_of_beginPage hop, answer_of_beginPage hop]
    rfl

/-- Clipping commutes with processing any number of events. -/
theorem afterEach_clipped (setting : Setting) (box : Box) (events : List Event) :
    ∀ i : Interpreter, afterEach (setting.clippedTo box) events (i.clipped box)
      = (afterEach setting.unclipped events i).clipped box := by
  induction events with
  | nil =>
    intro i
    rfl
  | cons event rest ih =>
    intro i
    have hstep := congrArg Prod.snd (answer_clipped setting box event i)
    exact (congrArg (afterEach (setting.clippedTo box) rest) hstep).trans (ih _)

/-- **The media box is a filter.**  After any events an interpreter with the box
differs from one without it in the runs alone, and in these by those whose
origin is not enclosed.  The next event returns an error in both or in none, and
the same one, or runs of which the box keeps those that it encloses.  Exchanging
two ends of the box makes no difference to any interpreter. -/
theorem process_clippedTo (setting : Setting) (box : Box) (events : List Event) :
    let i := afterEach setting.unclipped events {}
    let j := afterEach (setting.clippedTo box) events {}
    (j.stack = i.stack ∧ j.page = i.page ∧ j.nextIndex = i.nextIndex
        ∧ j.diagnostics = i.diagnostics ∧ j.runs = box.enclosed i.runs)
      ∧ (∀ event, (process (setting.clippedTo box) event j).1.result
          = (process setting.unclipped event i).1.result.map box.enclosed)
      ∧ process (setting.clippedTo box.flipAcross) = process (setting.clippedTo box)
      ∧ process (setting.clippedTo box.flipUp) = process (setting.clippedTo box) := by
  intro i j
  have hclip : j = i.clipped box := afterEach_clipped setting box events {}
  refine ⟨?_, ?_, ?_, ?_⟩
  · rw [hclip]
    exact ⟨rfl, rfl, rfl, rfl, rfl⟩
  · intro event
    rw [hclip]
    exact congrArg Prod.fst (answer_clipped setting box event i)
  · refine process_congr rfl ?_
    funext run
    exact congrFun box.contains_flipAcross run.origin
  · refine process_congr rfl ?_
    funext run
    exact congrFun box.contains_flipUp run.origin

end Interpreter

end PageText
