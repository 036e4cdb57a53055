/-
PageText/Proofs/Baselines.lean

Where glyphs come to stand, in exact arithmetic.  A shift along the line before an
affine matrix moves its origin in the direction `(a, b)` of its first row, and the
glyph stands where the matrix takes the point `(0, rise)`.  So the character after
others that advance by `S` in all has its origin at

    ( e + c rise + a S,  f + d rise + b S )

and a string keeps to one straight line, however it is scaled or spaced
(`matrix_along`, `run_place`).  What a character advances by does not depend on
the ones before it when the metrics do not look at the matrix
(`map_advance_placements`).

Main result: `showText_closedForm`.
-/
import PageText.Proofs.ExactTransforms
import PageText.Proofs.Placements

namespace PageText

/-! ### Metrics that do not look at the matrix -/

/-- The answers are the same in states that differ in the matrix alone. -/
structure Metrics.IgnoresMatrix {α : Type} (m : Metrics α) : Prop where
  width : ∀ (ch : Char) (s : TextState α) (matrix : Transform α),
    m.width ch { s with matrix := matrix } = m.width ch s
  height : ∀ (ch : Char) (s : TextState α) (matrix : Transform α),
    m.height ch { s with matrix := matrix } = m.height ch s
  displacement : ∀ (ch : Char) (s : TextState α) (matrix : Transform α),
    m.displacement ch { s with matrix := matrix } = m.displacement ch s

/-- The width, or zero if the lookup fails. -/
def Metrics.widthOrZero (m : Metrics ℚ) (ch : Char) (s : TextState ℚ) : ℚ :=
  (m.width ch s).toOption.getD 0

/-- The height, or zero if the lookup fails. -/
def Metrics.heightOrZero (m : Metrics ℚ) (ch : Char) (s : TextState ℚ) : ℚ :=
  (m.height ch s).toOption.getD 0

/-- The displacement along the line, or zero if the lookup fails. -/
def Metrics.displacementOrZero (m : Metrics ℚ) (ch : Char) (s : TextState ℚ) : ℚ :=
  ((m.displacement ch s).toOption.getD ⟨0, 0⟩).x

/-- How far a character moves the origin of the next one along the line, measured in
text space. -/
def Typesetter.step (t : Typesetter ℚ) (s : TextState ℚ) (ch : Char) : ℚ :=
  ((t.metrics.displacementOrZero ch s - s.adjustment / 1000) * s.fontSize
    + if ch = t.wordSeparator then s.wordSpacing else s.charSpacing) * s.horizontalScale

namespace Typesetter

variable {t : Typesetter ℚ} {s : TextState ℚ}

theorem advance_place (t : Typesetter ℚ) (ch : Char) (s : TextState ℚ) :
    (t.place ch s).advance = t.step s ch := by
  simp only [place, step, orElseNotice_fst, Metrics.displacementOrZero]
  rfl

/-- Another matrix does not change how far a character moves the next one. -/
theorem step_matrix (ht : t.metrics.IgnoresMatrix) (s : TextState ℚ) (matrix : Transform ℚ) :
    t.step { s with matrix := matrix } = t.step s := by
  funext ch
  simp only [step, Metrics.displacementOrZero, ht.displacement]

/-- **Each character advances on its own**, whatever characters stand before it. -/
theorem map_advance_placements (ht : t.metrics.IgnoresMatrix) (chars : List Char) :
    ∀ s : TextState ℚ, (t.placements s chars).map Placement.advance = chars.map (t.step s) := by
  induction chars with
  | nil =>
    intro s
    rfl
  | cons ch rest ih =>
    intro s
    have hnext : t.step (t.advanced ch s) = t.step s := step_matrix ht s _
    rw [placements, List.map_cons, List.map_cons, ih, hnext, advance_place]

end Typesetter

/-! ### The line of a string -/

namespace TextState

/-- Moving along the line keeps a matrix affine and moves its origin in the direction of its
first row. -/
theorem matrix_along (advances : List ℚ) : ∀ s : TextState ℚ,
    s.matrix.lastColumn = (0, 0, 1) →
    (s.along advances).matrix = { s.matrix with
      e := s.matrix.e + s.matrix.a * advances.sum
      f := s.matrix.f + s.matrix.b * advances.sum } := by
  induction advances with
  | nil =>
    intro s hs
    simp
  | cons advance rest ih =>
    intro s hs
    have hmoved : (s.move advance Scalar.zero).matrix = { s.matrix with
        e := s.matrix.e + s.matrix.a * advance
        f := s.matrix.f + s.matrix.b * advance } := by
      rw [move, Transform.shift_andThen hs]
      ext <;> simp [Transform.apply, add_comm]
    have hcolumn : (s.move advance Scalar.zero).matrix.lastColumn = (0, 0, 1) := by
      rw [hmoved]
      exact hs
    rw [along_cons, ih _ hcolumn, hmoved, List.sum_cons]
    ext
    case e | f => simp only; ring
    all_goals rfl

end TextState

/-- The glyph stands where the matrix takes the point above the origin. -/
theorem Transform.origin_ofGlyph_andThen (fontSize horizontalScale rise : ℚ) (t : Transform ℚ) :
    ((ofGlyph fontSize horizontalScale rise).andThen t).origin
      = ⟨t.e + t.c * rise, t.f + t.d * rise⟩ := by
  simp only [origin, andThen, ofGlyph, ofComponents, dot_rat, Scalar.ofNat_rat]
  ext <;> simp <;> ring

namespace Typesetter

variable {t : Typesetter ℚ} {s : TextState ℚ}

/-- The run of a character, cell by cell. -/
theorem run_place (t : Typesetter ℚ) (ch : Char) (s : TextState ℚ) :
    (t.place ch s).run =
      { x := s.matrix.e + s.matrix.c * s.rise
        y := s.matrix.f + s.matrix.d * s.rise
        width := t.metrics.widthOrZero ch s * (1 + s.horizontalScale / 100)
        height := t.metrics.heightOrZero ch s
        content := String.singleton ch } := by
  simp only [place, orElseNotice_fst, Transform.origin_ofGlyph_andThen]
  rfl

/-- The run of a character that others stand before, in terms of the state that the
string is shown from. -/
theorem run_place_along (ht : t.metrics.IgnoresMatrix) (hs : s.matrix.lastColumn = (0, 0, 1))
    (ch : Char) (advances : List ℚ) :
    (t.place ch (s.along advances)).run =
      { x := s.matrix.e + s.matrix.c * s.rise + s.matrix.a * advances.sum
        y := s.matrix.f + s.matrix.d * s.rise + s.matrix.b * advances.sum
        width := t.metrics.widthOrZero ch s * (1 + s.horizontalScale / 100)
        height := t.metrics.heightOrZero ch s
        content := String.singleton ch } := by
  have hwidth : t.metrics.widthOrZero ch (s.along advances) = t.metrics.widthOrZero ch s :=
    congrArg (·.toOption.getD 0) (ht.width ch s _)
  have hheight : t.metrics.heightOrZero ch (s.along advances) = t.metrics.heightOrZero ch s :=
    congrArg (·.toOption.getD 0) (ht.height ch s _)
  rw [run_place, TextState.matrix_along advances s hs, hwidth, hheight]
  exact (Run.mk.injEq ..).mpr ⟨add_right_comm _ _ _, add_right_comm _ _ _, rfl, rfl, rfl⟩

/-- **The glyphs of a string stand on one line.**  Showing a string from a state with an
affine matrix succeeds, and each character has its run where the line through the image
of the point above the origin, in the direction `(a, b)`, has gone on by the steps of
the characters before it. -/
theorem showText_closedForm (t : Typesetter ℚ) (ht : t.metrics.IgnoresMatrix) (s : TextState ℚ)
    (hs : s.matrix.lastColumn = (0, 0, 1)) (text : String) :
    ∃ shown : Emission ℚ, (∀ below, t.showText text (s :: below) = .ok shown (s :: below))
      ∧ (∀ k : ℕ, shown.runs[k]? = text.toList[k]?.map fun ch =>
        let moved := ((text.toList.take k).map (t.step s)).sum
        { x := s.matrix.e + s.matrix.c * s.rise + s.matrix.a * moved
          y := s.matrix.f + s.matrix.d * s.rise + s.matrix.b * moved
          width := t.metrics.widthOrZero ch s * (1 + s.horizontalScale / 100)
          height := t.metrics.heightOrZero ch s
          content := String.singleton ch })
      ∧ ∀ run ∈ shown.runs, ∃ r : ℚ,
        let start := s.matrix.apply ⟨0, s.rise⟩
        run.origin = ⟨start.x + r * s.matrix.a, start.y + r * s.matrix.b⟩ := by
  have hruns : ∀ k : ℕ, (Emission.ofPlacements (t.placements s text.toList)).runs[k]?
      = text.toList[k]?.map fun ch =>
        (t.place ch (s.along ((text.toList.take k).map (t.step s)))).run := by
    intro k
    rw [Emission.ofPlacements, List.getElem?_toArray, List.getElem?_map, getElem?_placements,
      Option.map_map, List.map_take, map_advance_placements ht, ← List.map_take]
    rfl
  refine ⟨_, fun below => t.showText_eq text s below, ?_, ?_⟩
  · intro k
    rw [hruns]
    exact congrArg (Option.map · _) (funext fun ch => run_place_along ht hs ch _)
  · intro run hrun
    obtain ⟨k, hk⟩ := Array.mem_iff_getElem?.mp hrun
    rw [hruns] at hk
    obtain ⟨ch, -, rfl⟩ := Option.map_eq_some_iff.mp hk
    refine ⟨((text.toList.take k).map (t.step s)).sum, ?_⟩
    rw [run_place_along ht hs]
    simp only [Run.origin, Transform.apply, Scalar.mulAdd_rat]
    ext
    · simp only
      ring
    · simp only
      ring

/-- Text that runs upwards, with rise, spacing and an adjustment, in metrics of which one
lookup fails: the third character stands straight above the first. -/
theorem showText_closedForm_of_turned :
    let metrics : Metrics ℚ :=
      { width := fun _ s => .ok (s.fontSize / 2)
        height := fun ch s => if ch = 'b' then .error (.noMetrics ch) else .ok s.fontSize
        displacement := fun _ _ => .ok ⟨1 / 2, 0⟩ }
    let t : Typesetter ℚ := ⟨metrics, ' '⟩
    let s : TextState ℚ :=
      { TextState.initial with
        matrix := .ofComponents 0 2 (-2) 0 10 20
        horizontalScale := 50
        charSpacing := 1
        wordSpacing := 3
        rise := 4
        fontSize := 10
        adjustment := 100 }
    metrics.IgnoresMatrix ∧ s.matrix.lastColumn = (0, 0, 1)
      ∧ ∃ shown : Emission ℚ, t.showText "a b" [s] = .ok shown [s]
        ∧ shown.runs[0]? = some ⟨2, 20, 15 / 2, 10, "a"⟩
        ∧ shown.runs[2]? = some ⟨2, 1220, 15 / 2, 0, "b"⟩ := by
  intro metrics t s
  have ht : metrics.IgnoresMatrix := ⟨fun _ _ _ => rfl, fun _ _ _ => rfl, fun _ _ _ => rfl⟩
  have hs : s.matrix.lastColumn = (0, 0, 1) :=
    Transform.lastColumn_eq_iff.mpr ⟨Nat.cast_zero, Nat.cast_zero, Nat.cast_one⟩
  obtain ⟨shown, hshown, hruns, -⟩ := showText_closedForm t ht s hs "a b"
  have htext : "a b".toList = ['a', ' ', 'b'] := rfl
  rw [htext] at hruns
  refine ⟨ht, hs, shown, hshown [], ?_, ?_⟩
  · rw [hruns]
    simp [s, t, metrics, Transform.ofComponents, Metrics.widthOrZero, Metrics.heightOrZero,
      Except.toOption]
    norm_num
  · rw [hruns]
    simp [s, t, metrics, step, Transform.ofComponents, Metrics.widthOrZero,
      Metrics.heightOrZero, Metrics.displacementOrZero, Except.toOption]
    norm_num

end Typesetter

end PageText
