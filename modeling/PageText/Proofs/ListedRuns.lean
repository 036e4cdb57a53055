/-
PageText/Proofs/ListedRuns.lean

Reading listed runs back.  A run is listed as a line of six fields,

    page <tab> x <tab> y <tab> width <tab> height <tab> content <line feed>

and its content, a single character, is written as it is.  The other five fields
hold digits, signs, points and letters, so nothing but a content that is a tab or
a line feed itself can disturb the lines and the fields (`pieces_text_iff`).  Such
a content does: then there are more lines or more fields than there should be.

Nothing is lost for all that.  Each line has five fields that end with a tab, then
one character, then a line feed, so the text still says which runs were listed
(`entries_of_text_eq`).

Main result: `interpretPages_listed`.
-/
import PageText.Listing
import PageText.Proofs.Conservation
import PageText.Proofs.SinglePage

namespace PageText

/-! ### Contents -/

/-- The content of the run is one character. -/
def Run.Single (run : Run Float) : Prop := ∃ ch, run.content = String.singleton ch

theorem single_of_contents {runs : List (Run Float)} {texts : List String}
    (h : runs.map Run.content = characters texts) : ∀ run ∈ runs, run.Single := by
  intro run hrun
  have hcontent : run.content ∈ characters texts := h ▸ List.mem_map_of_mem hrun
  obtain ⟨ch, -, hch⟩ := List.mem_map.mp hcontent
  exact ⟨ch, hch.symm⟩

theorem Setting.single_kept (setting : Setting) (op : Operator) (stack : Stack Float) :
    ∀ run ∈ (setting.kept op stack).toList, run.Single := by
  intro run hrun
  have hshown : run ∈ (setting.showing op stack).runs.toList := by
    rw [Setting.kept, Array.toList_filter] at hrun
    exact (List.mem_filter.mp hrun).1
  rcases stack with - | ⟨s, below⟩
  · cases hshown
  · exact single_of_contents (showing_contents setting op s below) run hshown

namespace Interpreter

/-- Runs are added one character each. -/
theorem single_answer (setting : Setting) (event : Event) {i : Interpreter}
    (h : ∀ run ∈ i.runs.toList, run.Single) :
    ∀ run ∈ (answer setting event i).2.runs.toList, run.Single := by
  rcases hop : Operator.ofEvent? event with rejection | - | op
  · rw [answer_of_rejected hop]
    exact h
  · rw [answer_of_unknown hop]
    exact h
  · rw [answer_of_operator hop]
    rcases op.stackAfter? i.stack with - | stack
    · exact h
    · intro run hrun
      simp only [Setting.after, Array.toList_append] at hrun
      rcases List.mem_append.mp hrun with hbefore | hadded
      · cases op with
        | beginPage page => cases hbefore
        | _ => exact h run hbefore
      · exact setting.single_kept op i.stack run hadded

theorem single_outcome (setting : Setting) (events : List Event) :
    ∀ {i : Interpreter}, (∀ run ∈ i.runs.toList, run.Single) →
      ∀ run ∈ (outcome setting events i).2.runs.toList, run.Single := by
  induction events with
  | nil =>
    intro i h
    exact h
  | cons event rest ih =>
    intro i h
    have hnext := single_answer setting event h
    rcases hanswer : answer setting event i with ⟨error | runs, i'⟩
    · rw [outcome_cons_of_error hanswer]
      rw [hanswer] at hnext
      exact hnext
    · rw [outcome_cons_of_ok hanswer]
      rw [hanswer] at hnext
      exact ih hnext

end Interpreter

namespace Listing

/-- The runs of pages in the order in which they are listed, each with its
page. -/
def entries (pages : List PageRuns) : List (UInt32 × Run Float) :=
  pages.flatMap fun p => p.runs.toList.map fun run => (p.page, run)

/-- **Every content is one character**, whatever the pages hold. -/
theorem single_of_mem_entries (setting : Setting) (contents : List (List UInt8)) :
    ∀ entry ∈ entries (interpretPages setting contents), entry.2.Single := by
  intro entry hentry
  obtain ⟨p, hp, hentry⟩ := List.mem_flatMap.mp hentry
  obtain ⟨run, hrun, rfl⟩ := List.mem_map.mp hentry
  rw [interpretPages, interpretPagesFrom_eq, List.nil_append] at hp
  obtain ⟨n, hn, rfl⟩ := List.mem_mapIdx.mp hp
  exact Interpreter.single_outcome setting (Content.pageEvents _ _) (List.forall_mem_nil _) run hrun

/-! ### Fields -/

/-- The character is neither a tab nor a line feed. -/
def Plain (c : Char) : Prop := c ≠ '\t' ∧ c ≠ '\n'

theorem plain_of_isDigit {c : Char} (h : c.isDigit = true) : Plain c := by
  constructor
  · rintro rfl
    cases h
  · rintro rfl
    cases h

theorem plain_digitsOf (n : Nat) : ∀ c ∈ Decimal.digitsOf n, Plain c :=
  fun _ hc => plain_of_isDigit (Nat.isDigit_of_mem_toDigits (by decide) (by decide) hc)

theorem plain_signText (s : Float.Model.UnpackedFloat.Sign) :
    ∀ c ∈ Decimal.signText s, Plain c := by
  cases s <;> simp [Decimal.signText, Plain]

theorem plain_fixedMagnitude (places m : Nat) (e : Int) :
    ∀ c ∈ Decimal.fixedMagnitude places m e, Plain c := by
  intro c hc
  simp only [Decimal.fixedMagnitude, Decimal.paddedDigits, List.mem_append, List.mem_singleton,
    List.mem_replicate] at hc
  rcases hc with (hwhole | rfl) | ⟨-, rfl⟩ | hfraction
  · exact plain_digitsOf _ c hwhole
  · exact ⟨by decide, by decide⟩
  · exact ⟨by decide, by decide⟩
  · exact plain_digitsOf _ c hfraction

theorem plain_fixedText (places : Nat) (x : Float) :
    ∀ c ∈ (Decimal.fixedText places x).toList, Plain c := by
  intro c hc
  rw [Decimal.fixedText, String.toList_ofList] at hc
  split at hc
  · simp only [List.mem_cons, List.not_mem_nil, or_false] at hc
    rcases hc with rfl | rfl | rfl <;> exact ⟨by decide, by decide⟩
  · rcases List.mem_append.mp hc with hsign | hname
    · exact plain_signText _ c hsign
    · simp only [List.mem_cons, List.not_mem_nil, or_false] at hname
      rcases hname with rfl | rfl | rfl <;> exact ⟨by decide, by decide⟩
  · rcases List.mem_append.mp hc with hsign | hdigits
    · exact plain_signText _ c hsign
    · exact plain_fixedMagnitude _ _ _ c hdigits
  · rcases List.mem_append.mp hc with hsign | hdigits
    · exact plain_signText _ c hsign
    · exact plain_fixedMagnitude _ _ _ c hdigits

/-- The five fields before the content. -/
def front (entry : UInt32 × Run Float) : List (List Char) :=
  ((fields entry.1 entry.2).take 5).map String.toList

/-- All six fields. -/
def row (entry : UInt32 × Run Float) : List (List Char) :=
  (fields entry.1 entry.2).map String.toList

theorem length_front (entry : UInt32 × Run Float) : (front entry).length = 5 := rfl

theorem plain_front (entry : UInt32 × Run Float) : ∀ field ∈ front entry, ∀ c ∈ field, Plain c := by
  simp only [front, fields, List.take_succ_cons, List.take_zero, List.map_cons, List.map_nil,
    List.forall_mem_cons]
  refine ⟨?_, plain_fixedText _ _, plain_fixedText _ _, plain_fixedText _ _, plain_fixedText _ _,
    List.forall_mem_nil _⟩
  intro c hc
  rw [Nat.toString_eq_repr, Nat.toList_repr] at hc
  exact plain_digitsOf _ c hc

theorem tab_not_mem_front (entry : UInt32 × Run Float) : ∀ field ∈ front entry, '\t' ∉ field :=
  fun field hfield hc => (plain_front entry field hfield _ hc).1 rfl

theorem lineFeed_not_mem_front (entry : UInt32 × Run Float) :
    ∀ field ∈ front entry, '\n' ∉ field :=
  fun field hfield hc => (plain_front entry field hfield _ hc).2 rfl

/-! ### Lines -/

/-- The characters of the line of a run. -/
def chars (entry : UInt32 × Run Float) : List Char := ['\t'].intercalate (row entry)

/-- The pieces of a text between line feeds, each split at its tabs. -/
def pieces (text : String) : List (List (List Char)) :=
  (text.toList.splitOn '\n').map fun piece => piece.splitOn '\t'

variable {entry : UInt32 × Run Float}

/-- A tab ends each field but the content. -/
theorem chars_eq (entry : UInt32 × Run Float) :
    chars entry
      = ((front entry).flatMap fun field => field ++ ['\t']) ++ entry.2.content.toList := by
  simp [chars, row, front, fields, List.intercalate, List.intersperse]

theorem toList_text (pages : List PageRuns) :
    (text pages).toList = ((entries pages).map chars).flatMap fun line => line ++ ['\n'] := by
  have hline : ∀ entry : UInt32 × Run Float,
      (line entry.1 entry.2 ++ "\n").toList = chars entry ++ ['\n'] := by
    intro entry
    rw [String.toList_append, line, String.toList_intercalate]
    rfl
  simp only [text, String.toList_join, entries, List.flatMap_assoc, List.flatMap_map,
    List.map_flatMap, List.map_map, Function.comp_def, ← hline]

/-- The text is cut at the end of each line. -/
theorem splitOn_lines (lines : List (List Char)) :
    (lines.flatMap fun line => line ++ ['\n']).splitOn '\n'
      = (lines.flatMap fun line => line.splitOn '\n') ++ [[]] := by
  induction lines with
  | nil => rfl
  | cons line rest ih =>
    rw [List.flatMap_cons, List.flatMap_cons, List.append_assoc, List.singleton_append,
      List.splitOn_append_cons_self, ih, List.append_assoc]

/-- A piece does not hold what it was cut at, and nothing that was not there. -/
theorem of_mem_splitOn {a : Char} (chars : List Char) :
    ∀ {piece : List Char}, piece ∈ chars.splitOn a → a ∉ piece ∧ ∀ c ∈ piece, c ∈ chars := by
  induction chars with
  | nil =>
    intro piece h
    obtain rfl := List.mem_singleton.mp h
    exact ⟨List.not_mem_nil, List.forall_mem_nil _⟩
  | cons c rest ih =>
    intro piece h
    rw [List.splitOn_cons_eq_if_modifyHead] at h
    split at h
    · rcases List.mem_cons.mp h with rfl | h
      · exact ⟨List.not_mem_nil, List.forall_mem_nil _⟩
      · obtain ⟨hnot, hmem⟩ := ih h
        exact ⟨hnot, fun d hd => List.mem_cons_of_mem _ (hmem d hd)⟩
    · next hne =>
      obtain ⟨first, others, hrest⟩ := List.exists_cons_of_ne_nil (List.splitOn_ne_nil a rest)
      rw [hrest, List.modifyHead_cons] at h
      rcases List.mem_cons.mp h with rfl | h
      · obtain ⟨hnot, hmem⟩ := ih (hrest ▸ List.mem_cons_self)
        refine ⟨?_, ?_⟩
        · intro ha
          rcases List.mem_cons.mp ha with rfl | ha
          · exact hne (beq_self_eq_true _)
          · exact hnot ha
        · intro d hd
          rcases List.mem_cons.mp hd with rfl | hd
          · exact List.mem_cons_self
          · exact List.mem_cons_of_mem _ (hmem d hd)
      · obtain ⟨hnot, hmem⟩ := ih (hrest ▸ List.mem_cons_of_mem _ h)
        exact ⟨hnot, fun d hd => List.mem_cons_of_mem _ (hmem d hd)⟩

/-- A line whose content is plain is one piece, of six fields. -/
theorem pieces_of_plain (h : ∀ c ∈ entry.2.content.toList, Plain c) :
    ((chars entry).splitOn '\n').map (fun piece => piece.splitOn '\t') = [row entry] := by
  have hrow : ∀ field ∈ row entry, ∀ c ∈ field, Plain c := by
    intro field hfield
    have hsplit : row entry = front entry ++ [entry.2.content.toList] := rfl
    rw [hsplit] at hfield
    rcases List.mem_append.mp hfield with hfront | hcontent
    · exact plain_front entry field hfront
    · rw [List.mem_singleton.mp hcontent]
      exact h
  have hlineFeed : '\n' ∉ chars entry := by
    rw [chars_eq]
    simp only [List.mem_append, List.mem_flatMap, List.mem_singleton, not_or, not_exists, not_and]
    refine ⟨fun field hfield => ⟨lineFeed_not_mem_front entry field hfield, by decide⟩, ?_⟩
    intro hc
    exact (h _ hc).2 rfl
  rw [List.splitOn_eq_singleton hlineFeed, List.map_singleton, chars, List.splitOn_intercalate]
  · intro field hfield htab
    exact (hrow field hfield _ htab).1 rfl
  · exact List.cons_ne_nil _ _

/-- **Lines and fields are those of the runs** exactly when no content holds a tab
or a line feed. -/
theorem pieces_text_iff (pages : List PageRuns) :
    pieces (text pages) = (entries pages).map row ++ [[[]]]
      ↔ ∀ entry ∈ entries pages, ∀ c ∈ entry.2.content.toList, Plain c := by
  constructor
  · intro h entry hentry c hc
    -- the content is a field of a piece
    have hrow : row entry ∈ pieces (text pages) :=
      h ▸ List.mem_append_left _ (List.mem_map_of_mem hentry)
    obtain ⟨piece, hpiece, hfields⟩ := List.mem_map.mp hrow
    have hcontent : entry.2.content.toList ∈ piece.splitOn '\t' := by
      rw [hfields]
      exact List.mem_append_right (front entry) List.mem_cons_self
    obtain ⟨htab, hmem⟩ := of_mem_splitOn piece hcontent
    have hlineFeed := (of_mem_splitOn _ hpiece).1
    constructor
    · rintro rfl
      exact htab hc
    · rintro rfl
      exact hlineFeed (hmem _ hc)
  · intro h
    rw [pieces, toList_text, splitOn_lines, List.map_append, List.flatMap_map, List.map_flatMap]
    refine congrArg (· ++ [[[]]]) ?_
    generalize entries pages = listed at h
    induction listed with
    | nil => rfl
    | cons entry rest ih =>
      obtain ⟨hentry, hrest⟩ := List.forall_mem_cons.mp h
      rw [List.flatMap_cons, pieces_of_plain hentry, ih hrest]
      rfl

/-! ### How many lines and fields there are -/

theorem count_lineFeed_chars (entry : UInt32 × Run Float) :
    (chars entry).count '\n' = entry.2.content.toList.count '\n' := by
  rw [chars_eq, List.count_append, List.count_eq_zero.mpr, Nat.zero_add]
  simp only [List.mem_flatMap, List.mem_append, List.mem_singleton, not_exists, not_and, not_or]
  exact fun field hfield => ⟨lineFeed_not_mem_front entry field hfield, by decide⟩

theorem count_tab_flatMap {fields : List (List Char)} (h : ∀ field ∈ fields, '\t' ∉ field) :
    (fields.flatMap fun field => field ++ ['\t']).count '\t' = fields.length := by
  induction fields with
  | nil => rfl
  | cons field rest ih =>
    obtain ⟨hfield, hrest⟩ := List.forall_mem_cons.mp h
    rw [List.flatMap_cons, List.count_append, List.count_append, List.count_eq_zero.mpr hfield,
      ih hrest, List.length_cons]
    exact Nat.add_comm _ _

theorem count_tab_chars (entry : UInt32 × Run Float) :
    (chars entry).count '\t' = 5 + entry.2.content.toList.count '\t' := by
  rw [chars_eq, List.count_append, count_tab_flatMap (tab_not_mem_front entry), length_front]

theorem count_content {run : Run Float} (h : run.Single) (c : Char) :
    run.content.toList.count c = if run.content == String.singleton c then 1 else 0 := by
  obtain ⟨ch, hch⟩ := h
  have hsame : (String.singleton ch == String.singleton c) = (ch == c) := by
    rw [Bool.eq_iff_iff, beq_iff_eq, beq_iff_eq]
    refine ⟨fun heq => ?_, congrArg String.singleton⟩
    have hlist := congrArg String.toList heq
    rw [String.toList_singleton, String.toList_singleton] at hlist
    exact (List.cons.inj hlist).1
  rw [hch, String.toList_singleton, List.count_singleton, hsame]

/-- A character that each line holds `k` times, not counting its content. -/
theorem count_text {c : Char} {k : Nat}
    (hline : ∀ entry, (chars entry ++ ['\n']).count c = k + entry.2.content.toList.count c)
    (pages : List PageRuns) (h : ∀ entry ∈ entries pages, entry.2.Single) :
    (text pages).toList.count c = k * (entries pages).length
      + (entries pages).countP fun entry => entry.2.content == String.singleton c := by
  rw [toList_text, List.flatMap_map]
  generalize entries pages = listed at h
  induction listed with
  | nil => rfl
  | cons entry rest ih =>
    obtain ⟨hentry, hrest⟩ := List.forall_mem_cons.mp h
    rw [List.flatMap_cons, List.count_append, hline, count_content hentry c, ih hrest,
      List.length_cons, List.countP_cons, Nat.mul_succ]
    omega

/-- Each run ends a line, and so does a content that is a line feed. -/
theorem count_lineFeed_text (pages : List PageRuns) (h : ∀ entry ∈ entries pages, entry.2.Single) :
    (text pages).toList.count '\n'
      = (entries pages).length + (entries pages).countP fun entry => entry.2.content == "\n" := by
  have hline : ∀ entry, (chars entry ++ ['\n']).count '\n'
      = 1 + entry.2.content.toList.count '\n' := by
    intro entry
    rw [List.count_append, count_lineFeed_chars, List.count_singleton_self, Nat.add_comm]
  have hcount := count_text hline pages h
  rw [Nat.one_mul] at hcount
  exact hcount

/-- Each run has five tabs between its fields, and one more where its content is
a tab. -/
theorem count_tab_text (pages : List PageRuns) (h : ∀ entry ∈ entries pages, entry.2.Single) :
    (text pages).toList.count '\t'
      = 5 * (entries pages).length
        + (entries pages).countP fun entry => entry.2.content == "\t" := by
  have hline : ∀ entry, (chars entry ++ ['\n']).count '\t'
      = 5 + entry.2.content.toList.count '\t' := by
    intro entry
    have hend : ['\n'].count '\t' = 0 := rfl
    rw [List.count_append, count_tab_chars, hend, Nat.add_zero]
  exact count_text hline pages h

/-! ### Nothing is lost -/

theorem append_cons_inj {a : Char} {xs ys as bs : List Char} (hx : a ∉ xs) (hy : a ∉ ys)
    (h : xs ++ a :: as = ys ++ a :: bs) : xs = ys ∧ as = bs := by
  have hsplit := congrArg (List.splitOn a) h
  rw [List.splitOn_append_cons_self_of_not_mem hx, List.splitOn_append_cons_self_of_not_mem hy]
    at hsplit
  obtain ⟨rfl, -⟩ := List.cons.inj hsplit
  exact ⟨rfl, (List.cons.inj (List.append_cancel_left h)).2⟩

/-- As many fields, each ended by a tab, are read back with what follows them. -/
theorem ended_fields_inj (fields : List (List Char)) : ∀ {others : List (List Char)},
    fields.length = others.length → (∀ field ∈ fields, '\t' ∉ field) →
    (∀ field ∈ others, '\t' ∉ field) → ∀ {as bs : List Char},
      (fields.flatMap fun field => field ++ ['\t']) ++ as
        = (others.flatMap fun field => field ++ ['\t']) ++ bs →
      fields = others ∧ as = bs := by
  induction fields with
  | nil =>
    intro others hlength _ _ as bs h
    obtain rfl := List.length_eq_zero_iff.mp hlength.symm
    exact ⟨rfl, h⟩
  | cons field rest ih =>
    intro others hlength hfields hothers as bs h
    cases others with
    | nil => cases hlength
    | cons other others =>
      obtain ⟨hfield, hrest⟩ := List.forall_mem_cons.mp hfields
      obtain ⟨hother, hrest'⟩ := List.forall_mem_cons.mp hothers
      simp only [List.flatMap_cons, List.append_assoc, List.singleton_append] at h
      obtain ⟨rfl, htail⟩ := append_cons_inj hfield hother h
      obtain ⟨rfl, has⟩ := ih (Nat.succ.inj hlength) hrest hrest' htail
      exact ⟨rfl, has⟩

/-- The page and the content of a listed run. -/
def key (entry : UInt32 × Run Float) : UInt32 × String := (entry.1, entry.2.content)

/-- The first field says the page. -/
theorem page_eq_of_front_eq {entry other : UInt32 × Run Float} (h : front entry = front other) :
    entry.1 = other.1 := by
  have hdigits : (toString entry.1.toNat).toList = (toString other.1.toNat).toList :=
    (List.cons.inj h).1
  rw [Nat.toString_eq_repr, Nat.toString_eq_repr, Nat.toList_repr, Nat.toList_repr] at hdigits
  have hvalue := congrArg (fun digits => Nat.ofDigitChars 10 digits 0) hdigits
  simp only [Nat.ofDigitChars_ten_toDigits] at hvalue
  exact UInt32.toNat_inj.mp hvalue

/-- **The text says which runs were listed**, since each content is the one
character between the fifth tab of a line and its line feed. -/
theorem keys_of_lines_eq (listed : List (UInt32 × Run Float)) :
    ∀ {others : List (UInt32 × Run Float)}, (∀ entry ∈ listed, entry.2.Single) →
      (∀ entry ∈ others, entry.2.Single) →
      ((listed.map chars).flatMap fun line => line ++ ['\n'])
        = ((others.map chars).flatMap fun line => line ++ ['\n']) →
      listed.map key = others.map key := by
  induction listed with
  | nil =>
    intro others _ _ h
    cases others with
    | nil => rfl
    | cons other others => simp at h
  | cons entry rest ih =>
    intro others hlisted hothers h
    cases others with
    | nil => simp at h
    | cons other others =>
      obtain ⟨⟨ch, hch⟩, hrest⟩ := List.forall_mem_cons.mp hlisted
      obtain ⟨⟨ch', hch'⟩, hothers⟩ := List.forall_mem_cons.mp hothers
      simp only [List.map_cons, List.flatMap_cons, chars_eq, hch, hch', String.toList_singleton,
        List.append_assoc] at h
      have hlength : (front entry).length = (front other).length := by
        rw [length_front, length_front]
      obtain ⟨hfront, hcontent⟩ := ended_fields_inj _ hlength (tab_not_mem_front entry)
        (tab_not_mem_front other) h
      obtain ⟨rfl, hend⟩ := List.cons.inj hcontent
      have hkey : key entry = key other :=
        Prod.ext (page_eq_of_front_eq hfront) (hch.trans hch'.symm)
      rw [List.map_cons, List.map_cons, hkey, ih hrest hothers (List.cons.inj hend).2]

/-! ### Pages -/

/-- **Listed runs can be read back.**  The lines of the text and their fields are
those of the runs exactly when no content is a tab or a line feed, of which each
makes one field or one line too many; and the text always says which contents are
listed for which pages. -/
theorem interpretPages_listed (setting : Setting) (contents : List (List UInt8)) :
    let pages := interpretPages setting contents
    let listed := entries pages
    (pieces (text pages) = listed.map row ++ [[[]]]
        ↔ ∀ entry ∈ listed, entry.2.content ≠ "\t" ∧ entry.2.content ≠ "\n")
      ∧ (text pages).toList.count '\n'
        = listed.length + listed.countP (fun entry => entry.2.content == "\n")
      ∧ (text pages).toList.count '\t'
        = 5 * listed.length + listed.countP (fun entry => entry.2.content == "\t")
      ∧ ∀ (other : Setting) (others : List (List UInt8)),
        text pages = text (interpretPages other others) →
        listed.map key = (entries (interpretPages other others)).map key := by
  intro pages listed
  have hsingle : ∀ entry ∈ listed, entry.2.Single := single_of_mem_entries setting contents
  refine ⟨?_, count_lineFeed_text pages hsingle, count_tab_text pages hsingle, ?_⟩
  · rw [pieces_text_iff]
    refine forall₂_congr fun entry hentry => ?_
    obtain ⟨ch, hch⟩ := hsingle entry hentry
    rw [hch, String.toList_singleton, List.forall_mem_singleton]
    exact and_congr (by simp [← String.toList_inj]) (by simp [← String.toList_inj])
  · intro other others h
    have hlines := congrArg String.toList h
    rw [toList_text, toList_text] at hlines
    exact keys_of_lines_eq listed hsingle (single_of_mem_entries other others) hlines

/-- The content `(a\nb) Tj` shows three characters, and its runs take four
lines. -/
theorem interpretPages_listed_of_line_feed :
    let bytes : List UInt8 := [0x28, 0x61, 0x5C, 0x6E, 0x62, 0x29, 0x20, 0x54, 0x6A]
    let pages := interpretPages {} [bytes]
    (entries pages).map key = [(0, "a"), (0, "\n"), (0, "b")]
      ∧ (text pages).toList.count '\n' = 4
      ∧ pieces (text pages) ≠ (entries pages).map row ++ [[[]]] := by
  intro bytes pages
  have hparsed : Content.events bytes = [⟨"Tj", [.text "a\nb"]⟩] := by
    cbv
  have hkeys : (entries pages).map key = [(0, "a"), (0, "\n"), (0, "b")] := by
    show (entries (interpretPages {} [bytes])).map key = _
    rw [interpretPages_eq_freshPage, freshPage, Content.pageEvents, hparsed]
    decide +kernel
  refine ⟨hkeys, ?_, ?_⟩
  · have hlength : (entries pages).length = 3 := by
      simpa using congrArg List.length hkeys
    have hcount : (entries pages).countP (fun entry => entry.2.content == "\n") = 1 := by
      have hmap := congrArg (List.countP fun k : UInt32 × String => k.2 == "\n") hkeys
      rw [List.countP_map] at hmap
      exact hmap
    rw [count_lineFeed_text pages (single_of_mem_entries {} [bytes]), hlength, hcount]
  · intro h
    have hplain := (pieces_text_iff pages).mp h
    obtain ⟨entry, hentry, hkey⟩ : ∃ entry ∈ entries pages, key entry = (0, "\n") := by
      rw [← List.mem_map, hkeys]
      decide
    have hcontent : entry.2.content = "\n" := congrArg Prod.snd hkey
    have hlineFeed : '\n' ∈ entry.2.content.toList := by
      rw [hcontent]
      decide
    exact (hplain entry hentry _ hlineFeed).2 rfl

end Listing

end PageText
