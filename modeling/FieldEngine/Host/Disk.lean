import FieldEngine.Console.Files
import Std.Data.ExtTreeMap

/-!
# A disk in memory

The disk is a tree of files and directories. Paths that start with a slash are read from its root,
all others from a working directory; `.` and `..` mean what they usually do. A directory can be
opened but not read. Names and paths have a limited length.
-/

namespace FieldEngine

/-- What stands at a path. -/
inductive DiskNode
  | file (bytes : List UInt8)
  | directory
deriving DecidableEq

/-- Files and directories by their paths from the root, which is always there. -/
structure Disk where
  nodes : Std.ExtTreeMap String DiskNode
deriving DecidableEq

namespace Disk

/-- Names have at most so many bytes. -/
def maxNameBytes : Nat := 255

/-- Paths have at most so many bytes. -/
def maxPathBytes : Nat := 4095

/-- The path of parts. -/
def pathOf (parts : List String) : String :=
  "/".intercalate parts

/-- The parts of the root: what stands before the slash that starts a path. -/
def root : List String :=
  [""]

def working : List String :=
  ["", "tmp", "work"]

/-- The parts from which a path is read. -/
def origin (path : String) : List String :=
  if path.startsWith "/" then root else working

/-- What stands at given parts. -/
def node? (d : Disk) (parts : List String) : Option DiskNode :=
  if parts = root then some .directory else d.nodes[pathOf parts]?

/-- The directory that holds a directory; the root holds itself. -/
def parent (here : List String) : List String :=
  if here = root then root else here.dropLast

/-- The parts to which one part of a path leads from a directory. -/
def follow (here : List String) (part : String) : Except FileError (List String) :=
  if part = "" ∨ part = "." then .ok here
  else if part = ".." then .ok (parent here)
  else if maxNameBytes < part.utf8ByteSize then .error .nameTooLong
  else .ok (here ++ [part])

/-- Open a directory from another. -/
def enter (d : Disk) (here : List String) (part : String) : Except FileError (List String) := do
  let there ← follow here part
  match d.node? there with
  | some .directory => .ok there
  | some (.file _) => .error .notDirectory
  | none => .error .notFound

/-- What can be said against a path before any directory is opened. -/
def checkPath (path : String) : Except FileError Unit :=
  if path.contains '\x00' then .error .nulInName
  else if path = "" then .error .notFound
  else if maxPathBytes < path.utf8ByteSize then .error .nameTooLong
  else .ok ()

/-- The directory that the parts of a path before its last part lead to, and that last part. -/
def approach (d : Disk) (path : String) : Except FileError (List String × String) := do
  let parts := path.splitOn "/"
  let here ← parts.dropLast.foldlM d.enter (origin path)
  .ok (here, parts.getLastD "")

/-- The parts to which a path leads. -/
def locate (d : Disk) (path : String) : Except FileError (List String) := do
  checkPath path
  let (here, last) ← d.approach path
  follow here last

def read (d : Disk) (path : String) : Except FileError (List UInt8) := do
  match d.node? (← d.locate path) with
  | some (.file bytes) => .ok bytes
  | some .directory => .error .isDirectory
  | none => .error .notFound

/-- A path without the slashes at its end. -/
def withoutEnd (path : String) : String :=
  String.ofList (path.toList.reverse.dropWhile (· == '/')).reverse

/-- Create a file, or replace what it holds. A path that ends in a slash never names a file,
whatever stands before the slash. -/
def write (d : Disk) (path : String) (bytes : List UInt8) : Except FileError Disk := do
  checkPath path
  let (here, last) ← d.approach (withoutEnd path)
  if path.endsWith "/" then .error .isDirectory
  else
    let parts ← follow here last
    match d.node? parts with
    | some .directory => .error .isDirectory
    | some (.file _) | none => .ok ⟨d.nodes.insert (pathOf parts) (.file bytes)⟩

/-- Put a file or directory in place, with the directories above it. -/
def place (d : Disk) (path : String) (node : DiskNode) : Disk :=
  let parts := Path.parts path
  let pathTo (n : Nat) : String := pathOf (origin path ++ parts.take n)
  let above := (List.range parts.length).filter (0 < ·)
  let nodes := above.foldl (fun nodes n => nodes.insert (pathTo n) .directory) d.nodes
  ⟨nodes.insert (pathTo parts.length) node⟩

def empty : Disk :=
  place ⟨∅⟩ (pathOf working) .directory

def home : String := "/root"

/-- A path with the home directory in the place of a first part `~`. -/
def expandHome (path : String) : String :=
  match path.splitOn "/" with
  | "~" :: rest => "/".intercalate (home :: rest)
  | _ => path

/-- The names in a directory, in order, each with whether it is a directory. Here alone `~` stands
for the home directory. -/
def list (d : Disk) (path : String) : List (String × Bool) :=
  let found := if path = "" then .ok working else d.locate (expandHome path)
  match found with
  | .error _ => []
  | .ok here =>
    d.nodes.toList.filterMap fun (key, node) =>
      let parts := key.splitOn "/"
      if parts.dropLast = here then parts.getLast?.map fun name => (name, node == .directory)
      else none

end Disk

/-- The console on a disk in memory. -/
instance : FileStore (StateM Disk) where
  readFile path := fun d => (d.read path, d)
  writeFile path bytes := fun d =>
    match d.write path bytes with
    | .ok changed => (.ok (), changed)
    | .error e => (.error e, d)

end FieldEngine
