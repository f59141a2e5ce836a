/-!
# Files

The console reads and writes files through `FileStore`, so that it can run on the files of the host
or on a disk in memory.
-/

namespace FieldEngine

/-- Why a file cannot be used. -/
inductive FileError
  | notFound
  | notDirectory
  | isDirectory
  | nameTooLong
  | nulInName
  | invalidText
  | other (text : String)
deriving DecidableEq

def FileError.message : FileError → String
  | notFound => "No such file or directory (os error 2)"
  | notDirectory => "Not a directory (os error 20)"
  | isDirectory => "Is a directory (os error 21)"
  | nameTooLong => "File name too long (os error 36)"
  | nulInName => "file name contained an unexpected NUL byte"
  | invalidText => "stream did not contain valid UTF-8"
  | other text => text

/-- Where files are read and written. -/
class FileStore (m : Type → Type) where
  /-- The bytes of a file. -/
  readFile : String → m (Except FileError (List UInt8))
  /-- Create a file, or replace what it holds. -/
  writeFile : String → List UInt8 → m (Except FileError Unit)

def textOfBytes (bytes : List UInt8) : Except FileError String :=
  match String.fromUTF8? ⟨bytes.toArray⟩ with
  | some s => .ok s
  | none => .error .invalidText

/-! ## Paths -/

namespace Path

/-- The parts of a path between slashes, without empty parts and single dots. -/
def parts (path : String) : List String :=
  (path.splitOn "/").filter fun part => part ≠ "" ∧ part ≠ "."

/-- The last part of a path, unless it leads upward. -/
def fileName? (path : String) : Option String :=
  ((parts path).getLast?).filter (· ≠ "..")

/-- A file name before and after its last dot. A dot at the start divides nothing. -/
def splitName (name : String) : String × Option String :=
  match (name.splitOn ".").reverse with
  | extension :: before :: rest =>
    let stem := ".".intercalate (before :: rest).reverse
    if stem = "" then (name, none) else (stem, some extension)
  | _ => (name, none)

/-- The file name without its extension. -/
def stem? (path : String) : Option String :=
  (fileName? path).map fun name => (splitName name).1

def extension? (path : String) : Option String :=
  (fileName? path).bind fun name => (splitName name).2

end Path

end FieldEngine
