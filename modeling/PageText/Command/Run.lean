/-
PageText/Command/Run.lean

The command: content streams in, a listing of their runs out.

The steps that may fail come in a fixed order: the media box is read first,
then the files from the first to the last, then all pages are interpreted, and
only then the output file is opened.  So a run that fails has changed no file,
unless the output file itself did not take all of the text, and what stands on
a page cannot make a run fail.

How the report of an error is laid out, and a JSON document, is left open
(`Formats`), and so is what stands behind the files (`FileAccess`).  Nothing is
logged.
-/
import PageText.Command.Arguments
import PageText.Command.FileAccess
import PageText.Decimal.Numeral
import PageText.Listing
import PageText.Text.Blank

namespace PageText.Command

/-! ### Errors -/

/-- Why a command that was asked for properly failed. -/
inductive Failure where
  /-- A part of the media box is no number. -/
  | mediaBoxPart (part : String) (cause : Decimal.NumeralError)
  /-- The media box has not four parts. -/
  | mediaBoxCount (count : Nat)
  | unreadable (path : String) (cause : FileError)
  | uncreatable (path : String) (cause : FileError)
  /-- The output was not taken. -/
  | unwritten (cause : FileError)
deriving DecidableEq

/-- The failure in words. -/
def Failure.message : Failure → String
  | mediaBoxPart part _ => "invalid media box value: " ++ Quoted.text part
  | mediaBoxCount count =>
    "media box needs 4 comma-separated numbers, got " ++ toString count
  | unreadable path _ => "failed to read " ++ path
  | uncreatable path _ => "failed to create output file " ++ path
  | unwritten cause => cause.message

/-- What lies behind the failure, if anything does. -/
def Failure.cause? : Failure → Option String
  | mediaBoxPart _ cause => some cause.message
  | mediaBoxCount _ => none
  | unreadable _ cause => some cause.message
  | uncreatable _ cause => some cause.message
  | unwritten _ => none

/-- How texts are laid out that the command makes of several parts. -/
structure Formats where
  /-- An error, with what lies behind it if anything does. -/
  error : (message : String) → (cause? : Option String) → String
  /-- A JSON value over several lines. -/
  json : Json → String

/-- The failure as it is reported. -/
def Failure.report (formats : Formats) (f : Failure) : String :=
  "Error: " ++ formats.error f.message f.cause? ++ "\n"

/-! ### The media box -/

/-- The number that a part of a media box denotes; blanks around it do not
count. -/
def mediaBoxPart (part : List Char) : Except Failure Float :=
  match Decimal.numeral? (Text.trim part) with
  | .ok x => .ok x
  | .error cause => .error (.mediaBoxPart (String.ofList part) cause)

/-- The media box that a text denotes: four numbers with commas between. -/
def mediaBoxOf (text : String) : Except Failure Box := do
  match ← (Text.split ',' text.toList).mapM mediaBoxPart with
  | [x0, y0, x1, y1] => return ⟨x0, y0, x1, y1⟩
  | parts => .error (.mediaBoxCount parts.length)

/-- The choices that the arguments make about interpretation. -/
def Arguments.options {Path : Type} (arguments : Arguments Path) : Except Failure Options := do
  let mediaBox ← match arguments.mediaBox with
    | none => pure none
    | some text => some <$> mediaBoxOf text
  return { wordSeparator := arguments.wordSeparator, mediaBox := mediaBox }

/-! ### Running -/

/-- What a run of the command shows. -/
structure Outcome where
  code : UInt32
  stdout : String := ""
  stderr : String := ""
deriving DecidableEq

/-- The outcome of a failure. -/
def Failure.outcome (formats : Formats) (f : Failure) : Outcome :=
  { code := 1, stderr := f.report formats }

/-- The pages in the form that was asked for. -/
def OutputType.listing (formats : Formats) : OutputType → List PageRuns → String
  | text => Listing.text
  | json => Listing.json formats.json

section

variable {m : Type → Type} {Path File : Type} [Monad m] [FileAccess Path File m]

/-- Reads files from the first to the last, after those in `done`, which are
the latest first. -/
def readAll [ToString Path] (done : List (List UInt8)) :
    List Path → m (Except Failure (List (List UInt8)))
  | [] => return .ok done.reverse
  | path :: rest => do
    match ← FileAccess.read path with
    | .ok bytes => readAll (bytes :: done) rest
    | .error cause => return .error (.unreadable (toString path) cause)

/-- Puts a text into the output file, which is open. -/
def fill (formats : Formats) (file : File) (text : String) : m Outcome := do
  match ← FileAccess.write file text with
  | .ok () => return { code := 0 }
  | .error cause => return (Failure.unwritten cause).outcome formats

/-- Puts a text where the output goes.  That for the standard output is part of
the outcome. -/
def deliver (formats : Formats) (outfile text : String) : m Outcome := do
  if outfile = "-" then return { code := 0, stdout := text }
  match ← FileAccess.create outfile with
  | .ok file => fill formats file text
  | .error cause => return (Failure.uncreatable outfile cause).outcome formats

/-- Runs the command with arguments that fit. -/
def runWith [ToString Path] (formats : Formats) (arguments : Arguments Path) : m Outcome := do
  match arguments.options with
  | .error failure => return failure.outcome formats
  | .ok options =>
    match ← readAll [] arguments.files with
    | .error failure => return failure.outcome formats
    | .ok contents =>
      let pages := interpretPages { options := options } contents
      deliver formats arguments.outfile (arguments.outputType.listing formats pages)

end

end PageText.Command
