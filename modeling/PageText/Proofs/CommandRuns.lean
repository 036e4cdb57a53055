/-
PageText/Proofs/CommandRuns.lean

How a run of the command ends, in any world of files in which to read changes
nothing, nor to open in vain (`LawfulFileAccess`).

The command reads the media box, then the files, interprets the pages, opens the
output and writes the listing; a step that fails ends it, and interpreting cannot
fail.  So a run with something wrong before the write leaves the world as it found
it and reports the first thing wrong: a part of the media box, the number of the
parts, a file, or the output (`Command.Fails`).  All other runs write what
interpreters of their own make of the pages.

Main result: `Command.runWith_outcome`.
-/
import Mathlib.Data.List.Forall2
import PageText.Command.CommandLine
import PageText.Command.FileStore
import PageText.Proofs.Pages

namespace PageText

/-! ### First errors -/

section

variable {α β ε ε' : Type} {f : α → Except ε β} {xs : List α} {x : α} {e : ε}

/-- Every step succeeds. -/
def AllOk (f : α → Except ε β) (xs : List α) : Prop := ∀ x ∈ xs, ∃ y, f x = .ok y

/-- The first step that fails is the one at `x`, with the error `e`. -/
def FirstError (f : α → Except ε β) (xs : List α) (x : α) (e : ε) : Prop :=
  ∃ before after, xs = before ++ x :: after ∧ AllOk f before ∧ f x = .error e

/-- Unless every step succeeds, one is the first to fail. -/
theorem exists_firstError (xs : List α) : ¬AllOk f xs → ∃ x e, FirstError f xs x e := by
  induction xs with
  | nil =>
    intro h
    exact absurd (List.forall_mem_nil _) h
  | cons first rest ih =>
    intro h
    rcases hfirst : f first with e | y
    · exact ⟨first, e, [], rest, rfl, List.forall_mem_nil _, hfirst⟩
    · obtain ⟨x, e, before, after, rfl, hbefore, hx⟩ :=
        ih fun hrest => h (List.forall_mem_cons.mpr ⟨⟨y, hfirst⟩, hrest⟩)
      exact ⟨x, e, first :: before, after, rfl,
        List.forall_mem_cons.mpr ⟨⟨y, hfirst⟩, hbefore⟩, hx⟩

theorem FirstError.not_allOk (h : FirstError f xs x e) : ¬AllOk f xs := by
  obtain ⟨before, after, rfl, -, hx⟩ := h
  intro hall
  obtain ⟨y, hy⟩ := hall x (List.mem_append_right _ List.mem_cons_self)
  rw [hx] at hy
  cases hy

/-- Steps that succeed give their results in order. -/
theorem AllOk.mapM (wrap : α → ε → ε') (xs : List α) (h : AllOk f xs) :
    ∃ ys, List.Forall₂ (fun x y => f x = .ok y) xs ys
      ∧ xs.mapM (fun x => (f x).mapError (wrap x)) = .ok ys := by
  induction xs with
  | nil => exact ⟨[], .nil, rfl⟩
  | cons first rest ih =>
    obtain ⟨⟨y, hfirst⟩, hrest⟩ := List.forall_mem_cons.mp h
    obtain ⟨ys, hys, hmap⟩ := ih hrest
    refine ⟨y :: ys, .cons hfirst hys, ?_⟩
    rw [List.mapM_cons, hfirst, hmap]
    rfl

/-- Steps in a row end with the first error. -/
theorem FirstError.mapM (wrap : α → ε → ε') (h : FirstError f xs x e) :
    xs.mapM (fun x => (f x).mapError (wrap x)) = .error (wrap x e) := by
  obtain ⟨before, after, rfl, hbefore, hx⟩ := h
  obtain ⟨ys, -, hmap⟩ := hbefore.mapM wrap before
  rw [List.mapM_append, hmap, List.mapM_cons, hx]
  rfl

end

namespace Command

/-! ### The media box -/

/-- The parts of a media box, with the blanks around them. -/
def boxParts (text : String) : List (List Char) := Text.split ',' text.toList

/-- The number that stands in a part of a media box. -/
def partNumber (part : List Char) : Except Decimal.NumeralError Float :=
  Decimal.numeral? (Text.trim part)

theorem mediaBoxPart_eq :
    mediaBoxPart
      = fun part => (partNumber part).mapError (.mediaBoxPart (String.ofList part)) := by
  funext part
  rw [mediaBoxPart, partNumber]
  cases Decimal.numeral? (Text.trim part) <;> rfl

/-- The media box is four numbers, if one is given. -/
def Arguments.BoxFits {Path : Type} (arguments : Arguments Path) : Prop :=
  ∀ text, arguments.mediaBox = some text →
    AllOk partNumber (boxParts text) ∧ (boxParts text).length = 4

theorem mediaBoxOf_of_firstError {text : String} {part : List Char}
    {cause : Decimal.NumeralError} (h : FirstError partNumber (boxParts text) part cause) :
    mediaBoxOf text = .error (.mediaBoxPart (String.ofList part) cause) := by
  have hmap := h.mapM fun part => Failure.mediaBoxPart (String.ofList part)
  rw [mediaBoxOf, ← boxParts, mediaBoxPart_eq, hmap]
  rfl

/-- What a media box comes to depends on how many numbers it has. -/
theorem mediaBoxOf_of_allOk {text : String} (h : AllOk partNumber (boxParts text)) :
    ((boxParts text).length = 4 → ∃ box, mediaBoxOf text = .ok box)
      ∧ ((boxParts text).length ≠ 4 →
        mediaBoxOf text = .error (.mediaBoxCount (boxParts text).length)) := by
  obtain ⟨values, hvalues, hmap⟩ :=
    h.mapM (fun part => Failure.mediaBoxPart (String.ofList part)) (boxParts text)
  rw [hvalues.length_eq, mediaBoxOf, ← boxParts, mediaBoxPart_eq, hmap]
  constructor
  · intro hfour
    obtain ⟨x0, y0, x1, y1, rfl⟩ := List.length_eq_four.mp hfour
    exact ⟨⟨x0, y0, x1, y1⟩, rfl⟩
  · intro hcount
    match values with
    | [] | [_] | [_, _] | [_, _, _] | _ :: _ :: _ :: _ :: _ :: _ => rfl
    | [_, _, _, _] => exact absurd rfl hcount

section

variable {World Path File : Type} {formats : Formats} {arguments : Arguments Path}
  {options : Options} {world : World}

/-- The options fail as the media box does. -/
theorem options_of_error {text : String} {failure : Failure}
    (hbox : arguments.mediaBox = some text) (h : mediaBoxOf text = .error failure) :
    arguments.options = .error failure := by
  rw [Arguments.options, hbox]
  simp only [h]
  rfl

theorem options_of_fits (h : arguments.BoxFits) : ∃ options, arguments.options = .ok options := by
  rw [Arguments.options]
  rcases hbox : arguments.mediaBox with - | text
  · exact ⟨_, rfl⟩
  · obtain ⟨hnumbers, hcount⟩ := h text hbox
    obtain ⟨box, hvalue⟩ := (mediaBoxOf_of_allOk hnumbers).1 hcount
    simp only [hvalue]
    exact ⟨_, rfl⟩

/-! ### Output -/

variable [FileAccess Path File (StateM World)]

theorem run_fill_of_ok {file : File} {after : World} {text : String}
    (h : writeIn world file text = (.ok (), after)) :
    (fill formats file text : StateM World Outcome).run world = ({ code := 0 }, after) := by
  have hwrite : (FileAccess.write file text : StateM World _).run world = (.ok (), after) := h
  rw [fill, StateT.run_bind, hwrite]
  rfl

theorem run_fill_of_error {file : File} {after : World} {text : String} {cause : FileError}
    (h : writeIn world file text = (.error cause, after)) :
    (fill formats file text : StateM World Outcome).run world
      = ((Failure.unwritten cause).outcome formats, after) := by
  have hwrite : (FileAccess.write file text : StateM World _).run world
      = (.error cause, after) := h
  rw [fill, StateT.run_bind, hwrite]
  rfl

theorem run_deliver_hyphen (formats : Formats) (world : World) (text : String) :
    (deliver formats "-" text : StateM World Outcome).run world
      = ({ code := 0, stdout := text }, world) := by
  rw [deliver, if_pos rfl]
  rfl

theorem run_deliver_of_ok (formats : Formats) {outfile : String} {file : File} {opened : World}
    (hname : outfile ≠ "-") (h : createIn world outfile = (.ok file, opened)) (text : String) :
    (deliver formats outfile text : StateM World Outcome).run world
      = (fill formats file text : StateM World Outcome).run opened := by
  have hcreate : (FileAccess.create outfile : StateM World _).run world = (.ok file, opened) := h
  simp only [deliver, if_neg hname, StateT.run_bind, hcreate]
  rfl

theorem run_deliver_of_error [LawfulFileAccess World] {outfile : String} {cause : FileError}
    (hname : outfile ≠ "-") (h : (createIn world outfile).1 = .error cause) (text : String) :
    (deliver formats outfile text : StateM World Outcome).run world
      = ((Failure.uncreatable outfile cause).outcome formats, world) := by
  have hcreate : (FileAccess.create outfile : StateM World _).run world = (.error cause, world) :=
    Prod.ext h (LawfulFileAccess.create_of_error world outfile cause h)
  simp only [deliver, if_neg hname, StateT.run_bind, hcreate]
  rfl

/-! ### Input -/

variable [ToString Path]

/-- The contents of files that are read in a row, or what is reported of the first that
cannot be read. -/
def contentsIn (world : World) (paths : List Path) : Except Failure (List (List UInt8)) :=
  paths.mapM fun path => (readIn world path).mapError (.unreadable (toString path))

theorem contentsIn_cons (world : World) (path : Path) (rest : List Path) :
    contentsIn world (path :: rest)
      = (do
          let bytes ← (readIn world path).mapError (.unreadable (toString path))
          let contents ← contentsIn world rest
          return bytes :: contents) :=
  List.mapM_cons

theorem contentsIn_of_firstError {paths : List Path} {path : Path} {cause : FileError}
    (h : FirstError (readIn world) paths path cause) :
    contentsIn world paths = .error (.unreadable (toString path) cause) :=
  h.mapM fun path => Failure.unreadable (toString path)

theorem exists_contentsIn {paths : List Path} (h : AllOk (readIn world) paths) :
    ∃ contents, List.Forall₂ (fun path bytes => readIn world path = .ok bytes) paths contents
      ∧ contentsIn world paths = .ok contents :=
  h.mapM (fun path => Failure.unreadable (toString path)) paths

/-- Files are read in a row, and nothing is changed. -/
theorem run_readAll [LawfulFileAccess World] (world : World) (paths : List Path) :
    ∀ done : List (List UInt8), (readAll done paths : StateM World _).run world
      = ((contentsIn world paths).map (done.reverse ++ ·), world) := by
  induction paths with
  | nil =>
    intro done
    show (Except.ok done.reverse, world) = (Except.ok (done.reverse ++ []), world)
    rw [List.append_nil]
  | cons path rest ih =>
    intro done
    rw [readAll, StateT.run_bind, LawfulFileAccess.run_read, contentsIn_cons]
    rcases hread : readIn world path with cause | bytes
    · rfl
    · refine (ih (bytes :: done)).trans ?_
      rw [List.reverse_cons]
      rcases contentsIn world rest with failure | contents
      · rfl
      · show (Except.ok (done.reverse ++ [bytes] ++ contents), world)
          = (Except.ok (done.reverse ++ bytes :: contents), world)
        rw [List.append_assoc, List.singleton_append]

/-! ### Steps -/

theorem runWith_of_options_error {failure : Failure} (h : arguments.options = .error failure) :
    (runWith formats arguments : StateM World Outcome).run world
      = (failure.outcome formats, world) := by
  rw [runWith, h]
  rfl

theorem runWith_of_contents_error [LawfulFileAccess World] {failure : Failure}
    (hoptions : arguments.options = .ok options)
    (h : contentsIn world arguments.files = .error failure) :
    (runWith formats arguments : StateM World Outcome).run world
      = (failure.outcome formats, world) := by
  have hread := run_readAll world arguments.files []
  rw [h] at hread
  rw [runWith, hoptions, StateT.run_bind, hread]
  rfl

/-- The listing that is delivered for the contents of the files: that of what interpreters
of their own make of the pages. -/
def Arguments.listed (arguments : Arguments Path) (formats : Formats) (options : Options)
    (contents : List (List UInt8)) : String :=
  arguments.outputType.listing formats
    (contents.mapIdx fun n bytes => freshPage { options := options } n.toUInt32 bytes)

/-- With all files read, what is left to do is to deliver the listing. -/
theorem runWith_of_contents [LawfulFileAccess World] {contents : List (List UInt8)}
    (hoptions : arguments.options = .ok options)
    (h : contentsIn world arguments.files = .ok contents) :
    (runWith formats arguments : StateM World Outcome).run world
      = (deliver formats arguments.outfile (arguments.listed formats options contents) :
          StateM World Outcome).run world := by
  have hread := run_readAll world arguments.files []
  have hpages : interpretPages { options := options } contents
      = contents.mapIdx fun n bytes => freshPage { options := options } n.toUInt32 bytes := by
    simp only [interpretPages, interpretPagesFrom_eq, List.nil_append, Nat.zero_add]
  rw [h] at hread
  rw [runWith, hoptions, StateT.run_bind, hread, Arguments.listed, ← hpages]
  rfl

/-! ### Runs -/

/-- Something is wrong: the media box, a file, or the output, which cannot be opened. -/
def Faulty (arguments : Arguments Path) (world : World) : Prop :=
  ¬arguments.BoxFits ∨ ¬AllOk (readIn world) arguments.files
    ∨ arguments.outfile ≠ "-" ∧ ∃ cause, (createIn world arguments.outfile).1 = .error cause

/-- The first thing that is wrong.  A part of the media box goes before their number, the
media box before the files, and these before the output. -/
inductive Fails (arguments : Arguments Path) (world : World) : Failure → Prop
  | boxPart {text : String} {part : List Char} {cause : Decimal.NumeralError}
    (hbox : arguments.mediaBox = some text)
    (hpart : FirstError partNumber (boxParts text) part cause) :
    Fails arguments world (.mediaBoxPart (String.ofList part) cause)
  | boxCount {text : String} (hbox : arguments.mediaBox = some text)
    (hnumbers : AllOk partNumber (boxParts text)) (hcount : (boxParts text).length ≠ 4) :
    Fails arguments world (.mediaBoxCount (boxParts text).length)
  | unreadable {path : Path} {cause : FileError} (hbox : arguments.BoxFits)
    (hpath : FirstError (readIn world) arguments.files path cause) :
    Fails arguments world (.unreadable (toString path) cause)
  | uncreatable {cause : FileError} (hbox : arguments.BoxFits)
    (hfiles : AllOk (readIn world) arguments.files) (hname : arguments.outfile ≠ "-")
    (hbarred : (createIn world arguments.outfile).1 = .error cause) :
    Fails arguments world (.uncreatable arguments.outfile cause)

/-- Where something is wrong, something is the first. -/
theorem faulty_iff : Faulty arguments world ↔ ∃ failure, Fails arguments world failure := by
  constructor
  · intro h
    by_cases hbox : arguments.BoxFits
    · by_cases hfiles : AllOk (readIn world) arguments.files
      · rcases h with h | h | ⟨hname, cause, hbarred⟩
        · exact absurd hbox h
        · exact absurd hfiles h
        · exact ⟨_, .uncreatable hbox hfiles hname hbarred⟩
      · obtain ⟨path, cause, hpath⟩ := exists_firstError arguments.files hfiles
        exact ⟨_, .unreadable hbox hpath⟩
    · obtain ⟨text, htext⟩ := not_forall.mp hbox
      obtain ⟨htext, hfits⟩ := Classical.not_imp.mp htext
      by_cases hnumbers : AllOk partNumber (boxParts text)
      · exact ⟨_, .boxCount htext hnumbers fun hcount => hfits ⟨hnumbers, hcount⟩⟩
      · obtain ⟨part, cause, hpart⟩ := exists_firstError _ hnumbers
        exact ⟨_, .boxPart htext hpart⟩
  · rintro ⟨failure, hfails⟩
    cases hfails with
    | boxPart hbox hpart => exact .inl fun hfits => hpart.not_allOk (hfits _ hbox).1
    | boxCount hbox _ hcount => exact .inl fun hfits => hcount (hfits _ hbox).2
    | unreadable _ hpath => exact .inr (.inl hpath.not_allOk)
    | uncreatable _ _ hname hbarred => exact .inr (.inr ⟨hname, _, hbarred⟩)

/-- A run reports the first thing that is wrong and changes nothing. -/
theorem runWith_of_fails [LawfulFileAccess World] {failure : Failure}
    (h : Fails arguments world failure) :
    (runWith formats arguments : StateM World Outcome).run world
      = (failure.outcome formats, world) := by
  cases h with
  | boxPart hbox hpart =>
    exact runWith_of_options_error (options_of_error hbox (mediaBoxOf_of_firstError hpart))
  | boxCount hbox hnumbers hcount =>
    exact runWith_of_options_error
      (options_of_error hbox ((mediaBoxOf_of_allOk hnumbers).2 hcount))
  | unreadable hbox hpath =>
    obtain ⟨options, hoptions⟩ := options_of_fits hbox
    exact runWith_of_contents_error hoptions (contentsIn_of_firstError hpath)
  | uncreatable hbox hfiles hname hbarred =>
    obtain ⟨options, hoptions⟩ := options_of_fits hbox
    obtain ⟨contents, -, hread⟩ := exists_contentsIn hfiles
    rw [runWith_of_contents hoptions hread]
    exact run_deliver_of_error hname hbarred _

end

end Command

end PageText
