/-
PageText/Proofs/WidthTables.lean

What tables of widths answer.  A table is made by putting fonts in one after the other,
and a font lists widths one after the other; in both, the last value of a key is the one
that counts (`lastValue?`).  Putting a font in changes the answer for its own name alone
(`font?_insert`), so of all that was put in a table has kept the last font of each name
(`font?_ofInsertions`).

All three lookups come from the font of the state, and two of them from one width:

    displacement = ⟨w * 0.001, 0⟩        width = (w * 0.001) * fontSize

Main result: `WidthTable.metrics_ofInsertions`.
-/
import Mathlib.Data.List.Induction
import PageText.Metrics

namespace PageText

/-! ### Last values -/

section LastValues

variable {κ β : Type} [DecidableEq κ] {entries : List (κ × β)} {key : κ} {value : β}

/-- The value of the last entry of a key. -/
def lastValue? (entries : List (κ × β)) (key : κ) : Option β :=
  (entries.reverse.find? (·.1 == key)).map (·.2)

/-- The entries give the key this value, and no value after that. -/
def GivenLast (entries : List (κ × β)) (key : κ) (value : β) : Prop :=
  ∃ before after, entries = before ++ (key, value) :: after ∧ ∀ entry ∈ after, entry.1 ≠ key

theorem lastValue?_append (entries other : List (κ × β)) (key : κ) :
    lastValue? (entries ++ other) key = (lastValue? other key).or (lastValue? entries key) := by
  rw [lastValue?, List.reverse_append, List.find?_append, Option.map_or]
  rfl

theorem lastValue?_concat (entries : List (κ × β)) (key : κ) (value : β) (asked : κ) :
    lastValue? (entries ++ [(key, value)]) asked
      = if key = asked then some value else lastValue? entries asked := by
  rw [lastValue?_append]
  split
  · next h =>
    rw [lastValue?, List.reverse_singleton, List.find?_cons_of_pos (by exact beq_iff_eq.mpr h)]
    rfl
  · next h =>
    rw [lastValue?, List.reverse_singleton, List.find?_cons_of_neg (by exact mt beq_iff_eq.mp h)]
    rfl

theorem lastValue?_eq_some_iff :
    lastValue? entries key = some value ↔ GivenLast entries key value := by
  simp only [lastValue?, Option.map_eq_some_iff, List.find?_eq_some_iff_append, beq_iff_eq,
    Bool.not_eq_true', beq_eq_false_iff_ne]
  constructor
  · rintro ⟨⟨_, _⟩, ⟨rfl, later, earlier, hentries, hlater⟩, rfl⟩
    refine ⟨earlier.reverse, later.reverse, ?_, fun entry hentry => ?_⟩
    · have hreverse := congrArg List.reverse hentries
      rwa [List.reverse_reverse, List.reverse_append, List.reverse_cons, List.append_assoc]
        at hreverse
    · exact hlater entry (List.mem_reverse.mp hentry)
  · rintro ⟨before, after, rfl, hafter⟩
    refine ⟨(key, value), ⟨rfl, after.reverse, before.reverse, ?_, fun entry hentry => ?_⟩, rfl⟩
    · rw [List.reverse_append, List.reverse_cons, List.append_assoc]
      rfl
    · exact hafter entry (List.mem_reverse.mp hentry)

theorem lastValue?_eq_none_iff :
    lastValue? entries key = none ↔ ∀ entry ∈ entries, entry.1 ≠ key := by
  simp only [lastValue?, Option.map_eq_none_iff, List.find?_eq_none, List.mem_reverse, beq_iff_eq]

/-- A key has a last value if it has any. -/
theorem exists_givenLast_iff :
    (∃ value, GivenLast entries key value) ↔ ∃ value, (key, value) ∈ entries := by
  constructor
  · rintro ⟨value, before, after, rfl, -⟩
    exact ⟨value, List.mem_append_right _ List.mem_cons_self⟩
  · rintro ⟨value, hmem⟩
    cases hlast : lastValue? entries key with
    | none => exact absurd rfl (lastValue?_eq_none_iff.mp hlast _ hmem)
    | some last => exact ⟨last, lastValue?_eq_some_iff.mp hlast⟩

/-- Only the entries of a key count for it. -/
theorem lastValue?_filter (entries : List (κ × β)) (key : κ) :
    lastValue? (entries.filter (·.1 == key)) key = lastValue? entries key := by
  rw [lastValue?, ← List.filter_reverse, List.find?_filter, lastValue?]
  simp only [and_self, Bool.decide_eq_true]

end LastValues

/-! ### Fonts -/

/-- The width that a font gives a character: the last one that it lists, and if it lists
none, its default. -/
inductive FontWidths.Gives (font : FontWidths) (ch : Char) : Float → Prop where
  | listed {width : Float} : GivenLast font.widths ch width → Gives font ch width
  | default {width : Float} : (∀ entry ∈ font.widths, entry.1 ≠ ch) →
    font.defaultWidth = some width → Gives font ch width

theorem FontWidths.width?_eq_some_iff {font : FontWidths} {ch : Char} {width : Float} :
    font.width? ch = some width ↔ font.Gives ch width := by
  have hwidth : font.width? ch = (lastValue? font.widths ch).or font.defaultWidth := rfl
  rw [hwidth, Option.or_eq_some_iff, lastValue?_eq_some_iff, lastValue?_eq_none_iff]
  constructor
  · rintro (hlast | ⟨hnone, hdefault⟩)
    · exact .listed hlast
    · exact .default hnone hdefault
  · intro h
    cases h with
    | listed hlast => exact .inl hlast
    | default hnone hdefault => exact .inr ⟨hnone, hdefault⟩

/-- A font gives a character a width if it lists one or has a default. -/
theorem FontWidths.exists_gives_iff {font : FontWidths} {ch : Char} :
    (∃ width, font.Gives ch width)
      ↔ (∃ width, (ch, width) ∈ font.widths) ∨ ∃ width, font.defaultWidth = some width := by
  rw [← exists_givenLast_iff]
  constructor
  · rintro ⟨width, hlast | ⟨-, hdefault⟩⟩
    · exact .inl ⟨width, hlast⟩
    · exact .inr ⟨width, hdefault⟩
  · rintro (⟨width, hlast⟩ | ⟨width, hdefault⟩)
    · exact ⟨width, .listed hlast⟩
    · cases hlast : lastValue? font.widths ch with
      | none => exact ⟨width, .default (lastValue?_eq_none_iff.mp hlast) hdefault⟩
      | some last => exact ⟨last, .listed (lastValue?_eq_some_iff.mp hlast)⟩

namespace WidthTable

/-! ### Putting fonts in -/

/-- The table after fonts have been put in one after the other. -/
def ofInsertions (insertions : List (String × FontWidths)) : WidthTable :=
  insertions.foldl (fun table entry => table.insert entry.1 entry.2) {}

/-- A font counts for its own name, and no other name is touched. -/
theorem font?_insert (table : WidthTable) (name : String) (font : FontWidths) (asked : String) :
    (table.insert name font).font? asked
      = if name = asked then some font else table.font? asked := by
  rw [font?, insert, List.find?_cons]
  split
  · next h => rw [if_pos (beq_iff_eq.mp h)]; rfl
  · next h => rw [if_neg (beq_eq_false_iff_ne.mp h)]; rfl

/-- **The last font of a name** is the one that the table has kept. -/
theorem font?_ofInsertions (insertions : List (String × FontWidths)) (name : String) :
    (ofInsertions insertions).font? name = lastValue? insertions name := by
  induction insertions using List.reverseRecOn with
  | nil => rfl
  | append_singleton insertions entry ih =>
    rw [ofInsertions, List.foldl_append, List.foldl_cons, List.foldl_nil, font?_insert,
      lastValue?_concat, ← ih]
    rfl

/-! ### Lookups -/

section Known

variable {β γ : Type} {known : Option β} {cause error : Error} {f : β → γ}

/-- What is computed from something known is there if that is. -/
theorem exists_elim_eq_ok :
    (∃ answer, known.elim (.error cause) (fun b => Except.ok (f b)) = .ok answer)
      ↔ ∃ b, known = some b := by
  cases known with
  | none => exact ⟨nofun, nofun⟩
  | some b => exact ⟨fun _ => ⟨b, rfl⟩, fun _ => ⟨f b, rfl⟩⟩

theorem eq_of_elim_eq_error
    (h : known.elim (.error cause) (fun b => Except.ok (f b)) = .error error) : error = cause := by
  cases known with
  | none => exact (Except.error.inj h).symm
  | some b => cases h

end Known

variable (table : WidthTable) (ch : Char) (s : TextState Float)

/-- The font that a state is set in. -/
def fontOf? : Option FontWidths := s.font.bind table.font?

/-- The width that a character is listed with in the font that a state is set in. -/
def widthOf? : Option Float := (table.fontOf? s).bind (·.width? ch)

theorem fontFor_eq :
    table.fontFor ch s = (table.fontOf? s).elim (.error (Error.noMetrics ch)) .ok := by
  rw [fontFor, fontOf?]
  cases s.font.bind table.font? <;> rfl

theorem widthFor_eq :
    table.widthFor ch s = (table.widthOf? ch s).elim (.error (Error.noMetrics ch)) .ok := by
  rw [widthFor, fontFor_eq, widthOf?]
  rcases table.fontOf? s with - | font
  · rfl
  · rw [Option.elim_some, Option.bind_some]
    rcases hwidth : font.width? ch with - | width
    · simp only [bind, Except.bind, hwidth, Option.elim_none]
    · simp only [bind, Except.bind, hwidth, Option.elim_some]

theorem metrics_height : table.metrics.height ch s
    = (table.fontOf? s).elim (.error (Error.noMetrics ch))
      fun font => .ok ((font.ascent - font.descent) * 0.001 * s.fontSize) := by
  show (table.fontFor ch s >>= _) = _
  rw [fontFor_eq]
  cases table.fontOf? s <;> rfl

theorem metrics_width : table.metrics.width ch s
    = (table.widthOf? ch s).elim (.error (Error.noMetrics ch))
      fun width => .ok (width * 0.001 * s.fontSize) := by
  show (table.widthFor ch s >>= _) = _
  rw [widthFor_eq]
  cases table.widthOf? ch s <;> rfl

theorem metrics_displacement : table.metrics.displacement ch s
    = (table.widthOf? ch s).elim (.error (Error.noMetrics ch))
      fun width => .ok ⟨width * 0.001, 0⟩ := by
  show (table.widthFor ch s >>= _) = _
  rw [widthFor_eq]
  cases table.widthOf? ch s <;> rfl

/-- A table answers from the fonts that it has for each name. -/
theorem metrics_congr {table other : WidthTable} (h : ∀ name, table.font? name = other.font? name) :
    table.metrics = other.metrics := by
  have hfont : ∀ ch s, table.fontFor ch s = other.fontFor ch s := by
    intro ch s
    rw [fontFor, fontFor, funext h]
  have hwidth : ∀ ch s, table.widthFor ch s = other.widthFor ch s := by
    intro ch s
    rw [widthFor, widthFor, hfont]
  simp only [metrics, hfont, hwidth]

/-! ### Tables of insertions -/

/-- The state is set in a font that was put in under its name, and none was put in under
that name afterwards. -/
def SetIn (insertions : List (String × FontWidths)) (s : TextState Float) (font : FontWidths) :
    Prop :=
  ∃ name, s.font = some name ∧ GivenLast insertions name font

variable {insertions other : List (String × FontWidths)} {ch : Char} {s : TextState Float}
  {font : FontWidths} {width : Float}

theorem fontOf?_eq_some_iff :
    (ofInsertions insertions).fontOf? s = some font ↔ SetIn insertions s font := by
  simp only [fontOf?, Option.bind_eq_some_iff, font?_ofInsertions, lastValue?_eq_some_iff, SetIn]

theorem widthOf?_eq_some_iff : (ofInsertions insertions).widthOf? ch s = some width
    ↔ ∃ font, SetIn insertions s font ∧ font.Gives ch width := by
  simp only [widthOf?, Option.bind_eq_some_iff, fontOf?_eq_some_iff,
    FontWidths.width?_eq_some_iff]

/-- A state is set in a font if any was put in under its name. -/
theorem exists_setIn_iff : (∃ font, SetIn insertions s font)
    ↔ ∃ name, s.font = some name ∧ ∃ font, (name, font) ∈ insertions := by
  simp only [SetIn, ← exists_givenLast_iff]
  constructor
  · rintro ⟨font, name, hname, hfont⟩
    exact ⟨name, hname, font, hfont⟩
  · rintro ⟨name, hname, font, hfont⟩
    exact ⟨font, name, hname, hfont⟩

/-- Tables are alike if the fonts of each name came in the same order. -/
theorem metrics_of_filter_eq
    (h : ∀ name, other.filter (·.1 == name) = insertions.filter (·.1 == name)) :
    (ofInsertions other).metrics = (ofInsertions insertions).metrics := by
  refine metrics_congr fun name => ?_
  rw [font?_ofInsertions, font?_ofInsertions, ← lastValue?_filter, h, lastValue?_filter]

/-- A font does not count once another one has been put in under its name. -/
theorem metrics_of_replaced (before : List (String × FontWidths)) (name : String)
    (old : FontWidths) (after : List (String × FontWidths))
    (h : ∃ font, (name, font) ∈ after) :
    (ofInsertions (before ++ (name, old) :: after)).metrics
      = (ofInsertions (before ++ after)).metrics := by
  refine metrics_congr fun asked => ?_
  have hold : lastValue? (before ++ [(name, old)]) asked
      = if name = asked then some old else lastValue? before asked :=
    lastValue?_concat before name old asked
  rw [font?_ofInsertions, font?_ofInsertions, List.append_cons, lastValue?_append, hold,
    lastValue?_append]
  split
  · next hname =>
    subst hname
    obtain ⟨font, hlast⟩ := exists_givenLast_iff.mpr h
    rw [lastValue?_eq_some_iff.mpr hlast]
    rfl
  · rfl

/-- **A table of widths is one map, in which the last entry counts.**  Heights are known
of the states that are set in a font; widths and displacements are known together, of the
characters that the font lists or has a default for, and they come from one number.  What
is not known is said of the character that was asked for.  Fonts that were replaced do not
count, nor does the order of fonts of different names. -/
theorem metrics_ofInsertions (insertions : List (String × FontWidths)) (ch : Char)
    (s : TextState Float) :
    let metrics := (ofInsertions insertions).metrics
    ((∃ height, metrics.height ch s = .ok height)
        ↔ ∃ name, s.font = some name ∧ ∃ font, (name, font) ∈ insertions)
      ∧ ((∃ width, metrics.width ch s = .ok width)
        ↔ ∃ displacement, metrics.displacement ch s = .ok displacement)
      ∧ ((∃ width, metrics.width ch s = .ok width)
        ↔ ∃ font, SetIn insertions s font
          ∧ ((∃ width, (ch, width) ∈ font.widths) ∨ ∃ width, font.defaultWidth = some width))
      ∧ (∀ font width, SetIn insertions s font → font.Gives ch width →
        metrics.displacement ch s = .ok ⟨width * 0.001, 0⟩
          ∧ metrics.width ch s = .ok (width * 0.001 * s.fontSize))
      ∧ (∀ width displacement, metrics.width ch s = .ok width →
        metrics.displacement ch s = .ok displacement →
        width = displacement.x * s.fontSize ∧ displacement.y = 0)
      ∧ (∀ error, (metrics.height ch s = .error error ∨ metrics.width ch s = .error error
        ∨ metrics.displacement ch s = .error error) → error = .noMetrics ch)
      ∧ (∀ before name old after, insertions = before ++ (name, old) :: after →
        (∃ font, (name, font) ∈ after) → (ofInsertions (before ++ after)).metrics = metrics)
      ∧ ∀ other, (∀ name, other.filter (·.1 == name) = insertions.filter (·.1 == name)) →
        (ofInsertions other).metrics = metrics := by
  intro metrics
  -- the three lookups, by what they come from
  have hheight := metrics_height (ofInsertions insertions) ch s
  have hwidth := metrics_width (ofInsertions insertions) ch s
  have hdisplacement := metrics_displacement (ofInsertions insertions) ch s
  have hknown : (∃ width, metrics.width ch s = .ok width)
      ↔ ∃ width, (ofInsertions insertions).widthOf? ch s = some width := by
    rw [hwidth]
    exact exists_elim_eq_ok
  refine ⟨?_, ?_, ?_, ?_, ?_, ?_, ?_, fun other h => metrics_of_filter_eq h⟩
  · rw [hheight, exists_elim_eq_ok, ← exists_setIn_iff]
    simp only [fontOf?_eq_some_iff]
  · rw [hknown, hdisplacement, exists_elim_eq_ok]
  · simp only [hknown, widthOf?_eq_some_iff, ← FontWidths.exists_gives_iff]
    constructor
    · rintro ⟨width, font, hfont, hgives⟩
      exact ⟨font, hfont, width, hgives⟩
    · rintro ⟨font, hfont, width, hgives⟩
      exact ⟨width, font, hfont, hgives⟩
  · intro font width hfont hgives
    rw [hwidth, hdisplacement, widthOf?_eq_some_iff.mpr ⟨font, hfont, hgives⟩]
    exact ⟨rfl, rfl⟩
  · intro width displacement
    rw [hwidth, hdisplacement]
    cases (ofInsertions insertions).widthOf? ch s with
    | none => exact nofun
    | some w =>
      rintro ⟨⟩ ⟨⟩
      exact ⟨rfl, rfl⟩
  · intro error
    rw [hheight, hwidth, hdisplacement]
    rintro (h | h | h) <;> exact eq_of_elim_eq_error h
  · rintro before name old after rfl hafter
    exact (metrics_of_replaced before name old after hafter).symm

/-- A character of the font that was put in last, at size ten. -/
example :
    let table := ofInsertions [("F", ⟨[('A', 250)], none, 1000, 0⟩), ("G", .monospace 600),
      ("F", ⟨[('A', 400), ('A', 500)], none, 1000, 0⟩)]
    let s := { TextState.initial with font := some "F", fontSize := 10 }
    table.metrics.width 'A' s = .ok 5 ∧ table.metrics.displacement 'A' s = .ok ⟨0.5, 0⟩
      ∧ table.metrics.width 'B' s = .error (.noMetrics 'B') := by
  decide +kernel

end WidthTable

end PageText
