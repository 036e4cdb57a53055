/-
PageText/Command/FileAccess.lean

What a command needs of the file system: to read a whole file, to open one to be
written, and to write to it.  `FileAccess` is those three in any monad, over
whatever paths and open files are.

A world is what they change: the files, and all else that they may touch.  Of it
no more is assumed than that to read changes nothing, and that a file which
cannot be opened stays as it is (`LawfulFileAccess`).
-/

namespace PageText

/-- Why a file cannot be opened or used. -/
inductive FileError where
  | notFound
  | failure
  /-- A device that is named, but not there. -/
  | noDevice
  | denied
  | notDirectory
  | isDirectory
  | invalid
  /-- A program that is running, which cannot be changed. -/
  | busy
  | noSpace
  | nameTooLong
  | tooManyLinks
  /-- Anything else, in the words of the system. -/
  | other (words : String)
deriving DecidableEq

namespace FileError

/-- The errors that have a number. -/
def numbered : List FileError := [
  notFound, failure, noDevice, denied, notDirectory, isDirectory, invalid, busy, noSpace,
  nameTooLong, tooManyLinks]

/-- The number that the system gives the error. -/
def number? : FileError → Option Nat
  | notFound => some 2
  | failure => some 5
  | noDevice => some 6
  | denied => some 13
  | notDirectory => some 20
  | isDirectory => some 21
  | invalid => some 22
  | busy => some 26
  | noSpace => some 28
  | nameTooLong => some 36
  | tooManyLinks => some 40
  | other _ => none

/-- The error that has a number. -/
def ofNumber? (n : Nat) : Option FileError := numbered.find? (·.number? == some n)

/-- What the system calls the error. -/
def words : FileError → String
  | notFound => "No such file or directory"
  | failure => "Input/output error"
  | noDevice => "No such device or address"
  | denied => "Permission denied"
  | notDirectory => "Not a directory"
  | isDirectory => "Is a directory"
  | invalid => "Invalid argument"
  | busy => "Text file busy"
  | noSpace => "No space left on device"
  | nameTooLong => "File name too long"
  | tooManyLinks => "Too many levels of symbolic links"
  | other words => words

/-- The error in words, with its number. -/
def message (error : FileError) : String :=
  match error.number? with
  | some n => error.words ++ " (os error " ++ toString n ++ ")"
  | none => error.words

end FileError

/-- What a command does with files, in any monad. -/
class FileAccess (Path File : outParam Type) (m : Type → Type) where
  /-- The bytes of a file. -/
  read : Path → m (Except FileError (List UInt8))
  /-- Opens a file to be written, which is made if it is not there, and emptied
  if it is. -/
  create : (path : String) → m (Except FileError File)
  /-- Puts a text into a file that is open. -/
  write : File → (text : String) → m (Except FileError Unit)

/-! ### Worlds -/

section

variable {World Path File : Type} [FileAccess Path File (StateM World)]

/-- What reading a file comes to. -/
def readIn (world : World) (path : Path) : Except FileError (List UInt8) :=
  ((FileAccess.read path : StateM World _).run world).1

/-- What opening a file comes to, and the world after that. -/
def createIn (world : World) (path : String) : Except FileError File × World :=
  (FileAccess.create path : StateM World _).run world

/-- What writing to a file comes to, and the world after that. -/
def writeIn (world : World) (file : File) (text : String) : Except FileError Unit × World :=
  (FileAccess.write file text : StateM World _).run world

end

/-- Reading leaves the world as it is, and so does opening a file in vain. -/
class LawfulFileAccess (World : Type) {Path File : outParam Type}
    [FileAccess Path File (StateM World)] : Prop where
  run_read : ∀ (world : World) (path : Path),
    (FileAccess.read path : StateM World _).run world = (readIn world path, world)
  create_of_error : ∀ (world : World) (path : String) (cause : FileError),
    (createIn world path).1 = .error cause → (createIn world path).2 = world

end PageText
