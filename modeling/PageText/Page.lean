/-
PageText/Page.lean

The runs of whole pages, one content stream each.

A page's events are those of its content between the beginning and the end of
the page.  Pages can be interpreted by one interpreter after another
(`interpretPages`) or each by one of its own (`interpretApart`).
-/
import PageText.Content.Reader
import PageText.Interpreter

namespace PageText

/-- What came of a page. -/
structure PageRuns where
  /-- The number of the page, from zero. -/
  page : UInt32
  /-- The runs in order; of a page that was aborted, those before that. -/
  runs : Array (Run Float)
  /-- The errors of the operators that were passed over. -/
  skipped : Array Error
  /-- The error that ended the page early, if one did. -/
  aborted : Option Error

namespace PageRuns

/-- The page was read to its end. -/
def isComplete (p : PageRuns) : Bool := p.aborted.isNone

/-- The text of the page. -/
def text (p : PageRuns) : String := p.runs.foldl (fun text run => text ++ run.content) ""

end PageRuns

namespace Content

/-- The events of a page with the given content. -/
def pageEvents (page : UInt32) (bytes : List UInt8) : List Event :=
  ⟨Kind.beginPage.description, [.number page.toFloat]⟩ :: events bytes
    ++ [⟨Kind.endPage.description, []⟩]

end Content

/-- The runs of a single page, or the error that ended it. -/
def extractRuns (setting : Setting) (bytes : List UInt8) : Except Error (Array (Run Float)) :=
  (Interpreter.execute setting (Content.pageEvents 0 bytes) {}).1.result

/-- Interprets a page, wherever the interpreter stands. -/
def interpretPage (setting : Setting) (page : UInt32) (bytes : List UInt8) (i : Interpreter) :
    PageRuns × Interpreter :=
  let (report, i) := i.execute setting (Content.pageEvents page bytes)
  let (runs, i) := i.takeRuns
  let aborted := match report.result with
    | .ok _ => none
    | .error error => some error
  (⟨page, runs, i.diagnostics, aborted⟩, i)

/-- Interprets pages in a row, the first with the number `page`, after those in
`done`. -/
def interpretPagesFrom (setting : Setting) (done : Array PageRuns) (page : Nat) :
    List (List UInt8) → Interpreter → Array PageRuns
  | [], _ => done
  | bytes :: rest, i =>
    let (runs, i) := interpretPage setting page.toUInt32 bytes i
    interpretPagesFrom setting (done.push runs) (page + 1) rest i

/-- Interprets pages with one interpreter.  A page that is aborted does not
keep the next one from starting afresh. -/
def interpretPages (setting : Setting) (pages : List (List UInt8)) : List PageRuns :=
  (interpretPagesFrom setting #[] 0 pages {}).toList

/-- Interprets pages each with an interpreter of its own, in no matter what
order.  Pages that no 32-bit number is left for share the last one. -/
def interpretApart (setting : Setting) (pages : List (List UInt8)) : List PageRuns :=
  pages.mapIdx fun page bytes => (interpretPage setting (UInt32.ofNatClamp page) bytes {}).1

end PageText
