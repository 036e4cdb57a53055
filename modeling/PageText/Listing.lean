/-
PageText/Listing.lean

The runs of pages as text: one run a line with tabs between the fields, or as
JSON with the errors of each page.
-/
import PageText.Decimal.Fixed
import PageText.Page
import PageText.Text.Json

namespace PageText

/-- A run as a JSON object. -/
def Run.json (run : Run Float) : Json :=
  .object [("x", .number run.x), ("y", .number run.y), ("width", .number run.width),
    ("height", .number run.height), ("content", .string run.content)]

/-- A page as a JSON object. -/
def PageRuns.json (p : PageRuns) : Json :=
  .object [
    ("page", .count p.page.toNat),
    ("runs", .array (p.runs.toList.map Run.json)),
    ("skipped", .array (p.skipped.toList.map fun error => .string error.message)),
    ("aborted", p.aborted.elim .null fun error => .string error.message)]

namespace Listing

/-- The decimal places of a listed coordinate. -/
def places : Nat := 3

/-- The fields of a listed run: page, origin, size and content. -/
def fields (page : UInt32) (run : Run Float) : List String :=
  [toString page.toNat, Decimal.fixedText places run.x, Decimal.fixedText places run.y,
    Decimal.fixedText places run.width, Decimal.fixedText places run.height, run.content]

/-- The line of a run, without its end. -/
def line (page : UInt32) (run : Run Float) : String := String.intercalate "\t" (fields page run)

/-- One line for each run. -/
def text (pages : List PageRuns) : String :=
  String.join (pages.flatMap fun p => p.runs.toList.map fun run => line p.page run ++ "\n")

/-- The pages as JSON, laid out by `layout`. -/
def json (layout : Json → String) (pages : List PageRuns) : String :=
  layout (.array (pages.map PageRuns.json)) ++ "\n"

end Listing

end PageText
