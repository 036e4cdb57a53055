/-
PageText/Main.lean

The command line program: the command on the files of the system.
-/
import PageText.Command.CommandLine

namespace PageText

/-- The number that the system gave an error, and its words. -/
def systemNumber? : IO.Error → Option (UInt32 × String)
  | .alreadyExists _ n words | .interrupted _ n words | .noFileOrDirectory _ n words
  | .invalidArgument _ n words | .permissionDenied _ n words | .resourceExhausted _ n words
  | .inappropriateType _ n words | .noSuchThing _ n words | .otherError n words
  | .resourceBusy n words | .resourceVanished n words | .unsupportedOperation n words
  | .hardwareFault n words | .unsatisfiedConstraints n words | .illegalOperation n words
  | .protocolError n words | .timeExpired n words => some (n, words)
  | .unexpectedEof | .userError _ => none

/-- An error of the system as a reason why a file cannot be used.  Some calls
negate the number of their error. -/
def FileError.ofSystem (error : IO.Error) : FileError :=
  match systemNumber? error with
  | none => .other (toString error)
  | some (n, words) =>
    ((FileError.ofNumber? n.toNat).or (FileError.ofNumber? (-n).toNat)).getD (.other words)

/-- An action, or the error of the system that it met. -/
def FileError.catchSystem {β : Type} (action : IO β) : IO (Except FileError β) := do
  try
    return .ok (← action)
  catch error =>
    return .error (.ofSystem error)

instance : FileAccess String IO.FS.Handle IO where
  read path := do
    return (← FileError.catchSystem (IO.FS.readBinFile path)).map (·.toList)
  create path := FileError.catchSystem (IO.FS.Handle.mk path .write)
  write handle text := FileError.catchSystem do
    handle.putStr text
    handle.flush

/-- Shows the outcome of a command, and answers its exit code.  If the standard
output does not take its text, the command has failed. -/
def Command.Outcome.present (outcome : Outcome) : IO UInt32 := do
  let shown ← FileError.catchSystem do
    IO.print outcome.stdout
    (← IO.getStdout).flush
  let outcome := match shown with
    | .ok () => outcome
    | .error cause => (Failure.unwritten cause).outcome .plain
  IO.eprint outcome.stderr
  return outcome.code

end PageText

/-- Runs the command and shows its outcome. -/
def main (arguments : List String) : IO UInt32 := do
  let outcome ← (PageText.Command.run arguments : IO PageText.Command.Outcome)
  outcome.present
