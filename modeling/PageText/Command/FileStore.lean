/-
PageText/Command/FileStore.lean

A world of files by their paths.  Any of them may be one that cannot be read, or
that cannot be opened to be written.
-/
import PageText.Command.FileAccess

namespace PageText

/-- Files by their paths. -/
structure FileStore where
  files : List (String × List UInt8) := []
  /-- Paths that cannot be read, and why. -/
  unreadable : List (String × FileError) := []
  /-- Paths that cannot be opened to be written, and why. -/
  unwritable : List (String × FileError) := []
deriving DecidableEq

namespace FileStore

/-- The store with the file at this path, and no other, changed. -/
def put (store : FileStore) (path : String) (bytes : List UInt8) : FileStore :=
  { store with files := (path, bytes) :: store.files.filter (·.1 != path) }

/-- The bytes of a file. -/
def read (store : FileStore) (path : String) : Except FileError (List UInt8) :=
  match store.unreadable.lookup path, store.files.lookup path with
  | some cause, _ => .error cause
  | none, some bytes => .ok bytes
  | none, none => .error .notFound

/-- The store after a file is opened to be written. -/
def create (store : FileStore) (path : String) : Except FileError FileStore :=
  match store.unwritable.lookup path with
  | some cause => .error cause
  | none => .ok (store.put path [])

/-- The store after a text is written to an open file. -/
def append (store : FileStore) (path text : String) : FileStore :=
  store.put path ((store.files.lookup path).getD [] ++ text.toUTF8.toList)

end FileStore

instance : FileAccess String String (StateM FileStore) where
  read path := do return (← get).read path
  create path := do
    match (← get).create path with
    | .ok store =>
      set store
      return .ok path
    | .error cause => return .error cause
  write path text := do
    modify (·.append path text)
    return .ok ()

theorem FileStore.createIn_eq (store : FileStore) (path : String) :
    createIn store path
      = match store.create path with
        | .ok after => (.ok path, after)
        | .error cause => (.error cause, store) := by
  simp only [createIn, FileAccess.create, StateT.run_bind, StateT.run_get, pure_bind]
  cases store.create path <;> rfl

instance : LawfulFileAccess FileStore where
  run_read _ _ := rfl
  create_of_error store path cause h := by
    rw [FileStore.createIn_eq] at h ⊢
    cases hcreate : store.create path with
    | ok after =>
      rw [hcreate] at h
      cases h
    | error cause => rfl

end PageText
