/-
PageText/Command/CommandLine.lean

The command as it is called from a command line.

Arguments that do not start with a hyphen, and a lone hyphen, are files.  A
long option has two hyphens and may have its value after an equals sign; short
ones may be written together, the last of them with its value attached.  Else
the value is the next argument, which may start with a hyphen only if it is
nothing else.  After two hyphens alone, every argument is a file.  No option is
given twice, and at least one file is.

Arguments are taken from left to right, and the first that asks for the
version or the help, or that does not fit, decides.
-/
import PageText.Command.Run

namespace PageText.Command

/-- Why there is nothing to run. -/
inductive Stop where
  /-- The arguments do not fit. -/
  | usage (message : String)
  /-- The version was asked for. -/
  | version
  /-- The help was asked for. -/
  | help
deriving DecidableEq

namespace Arguments

/-! ### Options -/

/-- What an option is for. -/
inductive Key where
  | outputType
  | outfile
  | wordSeparator
  | mediaBox
  | debug
  | version
  | help
deriving DecidableEq

/-- The option takes a value. -/
def Key.takesValue : Key → Bool
  | .outputType | .outfile | .wordSeparator | .mediaBox => true
  | .debug | .version | .help => false

/-- The option of a long name. -/
def Key.ofLong? (name : String) : Option Key :=
  if name = "output-type" then some .outputType
  else if name = "outfile" then some .outfile
  else if name = "word-separator" then some .wordSeparator
  else if name = "media-box" then some .mediaBox
  else if name = "debug" then some .debug
  else if name = "version" then some .version
  else if name = "help" then some .help
  else none

/-- The option of a letter. -/
def Key.ofLetter? (letter : Char) : Option Key :=
  if letter = 't' then some .outputType
  else if letter = 'o' then some .outfile
  else if letter = 'd' then some .debug
  else if letter = 'V' then some .version
  else if letter = 'h' then some .help
  else none

/-! ### Gathering -/

/-- The arguments gathered so far. -/
structure Gathered where
  /-- The files, the latest first. -/
  files : List String := []
  debug : Bool := false
  outputType : Option OutputType := none
  outfile : Option String := none
  wordSeparator : Option Char := none
  mediaBox : Option String := none

/-- Adds a file. -/
def Gathered.addFile (g : Gathered) (path : String) : Except Stop Gathered :=
  if path = "" then .error (.usage "a file needs a name")
  else .ok { g with files := path :: g.files }

/-- Fills a place that must still be empty. -/
def fill {β : Type} (place : Option β) (value : β) : Except Stop (Option β) :=
  match place with
  | none => .ok (some value)
  | some _ => .error (.usage "an option is given twice")

/-- The value of an option that names the output type. -/
def outputTypeOf (value : String) : Except Stop OutputType :=
  if value = "text" then .ok .text
  else if value = "json" then .ok .json
  else .error (.usage ("no output type: " ++ value))

/-- The value of an option that is one character. -/
def charOf (value : String) : Except Stop Char :=
  match value.toList with
  | [c] => .ok c
  | _ => .error (.usage ("not one character: " ++ value))

/-- Sets an option that takes a value. -/
def Gathered.setValue (g : Gathered) (key : Key) (value : String) : Except Stop Gathered := do
  match key with
  | .outputType => return { g with outputType := ← fill g.outputType (← outputTypeOf value) }
  | .outfile => return { g with outfile := ← fill g.outfile value }
  | .wordSeparator => return { g with wordSeparator := ← fill g.wordSeparator (← charOf value) }
  | .mediaBox => return { g with mediaBox := ← fill g.mediaBox value }
  | .debug | .version | .help => .error (.usage ("an option takes no value: " ++ value))

/-- Sets an option that takes no value. -/
def Gathered.setSwitch (g : Gathered) (key : Key) : Except Stop Gathered :=
  match key with
  | .debug =>
    if g.debug then .error (.usage "an option is given twice") else .ok { g with debug := true }
  | .version => .error .version
  | .help => .error .help
  | .outputType | .outfile | .wordSeparator | .mediaBox =>
    .error (.usage "an option needs a value")

/-! ### Single arguments -/

/-- What is gathered after an argument, and the option whose value the next
argument is. -/
abbrev Taken := Gathered × Option Key

/-- Takes a long option, without its hyphens. -/
def takeLong (g : Gathered) (text : List Char) : Except Stop Taken := do
  let name := String.ofList (text.takeWhile (· != '='))
  match Key.ofLong? name, text.dropWhile (· != '=') with
  | none, _ => .error (.usage ("no such option: " ++ name))
  | some key, _ :: value => return (← g.setValue key (String.ofList value), none)
  | some key, [] =>
    if key.takesValue then return (g, some key) else return (← g.setSwitch key, none)

/-- Takes short options written together, without their hyphen. -/
def takeShort (g : Gathered) : List Char → Except Stop Taken
  | [] => .ok (g, none)
  | letter :: rest => do
    match Key.ofLetter? letter with
    | none => .error (.usage ("no such option: " ++ String.singleton letter))
    | some key =>
      if key.takesValue then
        match rest with
        | [] => return (g, some key)
        | c :: value =>
          let attached := if c = '=' then value else c :: value
          return (← g.setValue key (String.ofList attached), none)
      else takeShort (← g.setSwitch key) rest

/-- Takes an argument that no option before it waits for. -/
def take (g : Gathered) (argument : String) : Except Stop Taken := do
  match argument.toList with
  | '-' :: '-' :: text => takeLong g text
  | '-' :: letter :: letters => takeShort g (letter :: letters)
  | _ => return (← g.addFile argument, none)

/-- The argument may be the value of the option before it. -/
def mayBeValue (argument : String) : Bool :=
  argument.toList.head? != some '-' || argument == "-"

/-! ### All arguments -/

/-- Takes arguments in order, the first as the value of `awaited` if an option
waits for one. -/
def gather (g : Gathered) (awaited : Option Key) : List String → Except Stop Gathered
  | [] =>
    match awaited with
    | none => .ok g
    | some _ => .error (.usage "an option needs a value")
  | argument :: rest => do
    match awaited with
    | some key =>
      if mayBeValue argument then gather (← g.setValue key argument) none rest
      else .error (.usage "an option needs a value")
    | none =>
      if argument = "--" then rest.foldlM Gathered.addFile g
      else
        let (g, awaited) ← take g argument
        gather g awaited rest

/-- The arguments gathered, with defaults for the options that were not given. -/
def Gathered.finish (g : Gathered) : Except Stop (Arguments String) :=
  if g.files.isEmpty then .error (.usage "no file is given")
  else .ok {
    files := g.files.reverse
    debug := g.debug
    outputType := g.outputType.getD .text
    outfile := g.outfile.getD "-"
    wordSeparator := g.wordSeparator.getD ' '
    mediaBox := g.mediaBox }

/-- The arguments of a command line. -/
def parse (arguments : List String) : Except Stop (Arguments String) := do
  (← gather {} none arguments).finish

end Arguments

/-! ### Running -/

/-- The name of the command and its version. -/
def versionText : String := "textruns 0.3.0\n"

/-- What the command does and how it is called. -/
def helpText : String := String.join [
  "Dump positioned text runs from decoded PDF content streams\n\n",
  "Usage: textruns [OPTIONS] <FILES>...\n\n",
  "Arguments:\n",
  "  <FILES>...  One content-stream file per page, in page order\n\n",
  "Options:\n",
  "  -d, --debug                            Use debug logging level\n",
  "  -t, --output-type <OUTPUT_TYPE>        ",
  "Output type [default: text] [possible values: text, json]\n",
  "  -o, --outfile <OUTFILE>                Output file name (\"-\" for stdout) [default: -]\n",
  "      --word-separator <WORD_SEPARATOR>  ",
  "Character that receives word spacing [default: \" \"]\n",
  "      --media-box <MEDIA_BOX>            Drop runs whose origin is outside \"x0,y0,x1,y1\"\n",
  "  -h, --help                             Print help\n",
  "  -V, --version                          Print version\n"]

/-- The outcome of arguments that ask for no run. -/
def Stop.outcome : Stop → Outcome
  | usage message => { code := 2, stderr := "error: " ++ message ++ "\n" }
  | version => { code := 0, stdout := versionText }
  | help => { code := 0, stdout := helpText }

/-- An error with its cause below it, and JSON indented by two blanks. -/
def Formats.plain : Formats where
  error message cause? :=
    message ++ cause?.elim "" fun cause => "\n\nCaused by:\n    " ++ cause
  json := Json.pretty

/-- Runs the command. -/
def run {m : Type → Type} {File : Type} [Monad m] [FileAccess String File m]
    (arguments : List String) : m Outcome :=
  match Arguments.parse arguments with
  | .ok arguments => runWith .plain arguments
  | .error stop => return stop.outcome

end PageText.Command
