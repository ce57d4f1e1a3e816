/-!
# Oscilloscope.Disk

A directory tree, as far as writing and reading text files needs one.

* `Disk` holds the entries below a root directory, each with the list of names that leads to it.
* `parsePath` follows a path text part by part. Empty parts and `.` say nothing, `..` goes up.
* `Disk.makeDirectories`, `Disk.write` and `Disk.read` fail, with `none`, where a name on the way
  is no directory or the last one is of the wrong kind.
-/

namespace Oscilloscope

/-- The names that lead to an entry, from the root. -/
abbrev Path := List String

/-- The parts of a path text, cut at its slashes. -/
def pathParts (text : String) : List String := (text.toList.splitOn '/').map String.ofList

/-- Where one part of a path text leads from `path`. -/
def follow (path : Path) (part : String) : Path :=
  if part = "" ∨ part = "." then path
  else if part = ".." then path.dropLast
  else path ++ [part]

def parsePath (text : String) : Path := (pathParts text).foldl follow []

/-- A path text that can only mean a directory. -/
def meansDirectory (text : String) : Bool :=
  match (pathParts text).getLast? with
  | some name => name == "" || name == "." || name == ".."
  | none => true

/-- The path text of `name` in the directory `directory`. -/
def joinPath (directory name : String) : String :=
  if directory = "" ∨ directory.toList.getLast? = some '/' then directory ++ name
  else directory ++ "/" ++ name

inductive Entry where
  | directory
  | file (text : String)
deriving DecidableEq

structure Disk where
  entries : List (Path × Entry) := []

namespace Disk

/-- The entry at `path`; the root is a directory. -/
def entryAt? (d : Disk) (path : Path) : Option Entry :=
  if path = [] then some .directory else d.entries.lookup path

def isDirectory (d : Disk) (path : Path) : Bool := d.entryAt? path == some .directory

/-- Put `e` at `path`, in place of what is there. -/
def put (d : Disk) (path : Path) (e : Entry) : Disk :=
  ⟨(path, e) :: d.entries.filter (·.1 != path)⟩

/-- Make the directories `names` below `base`, one in the other. -/
def makeBelow (base : Path) : List String → Disk → Option Disk
  | [], d => some d
  | name :: rest, d =>
    let path := base ++ [name]
    match d.entryAt? path with
    | some (.file _) => none
    | some .directory => makeBelow path rest d
    | none => makeBelow path rest (d.put path .directory)

/-- Make the directories that the last name of a path lies in. -/
def makeParents (d : Disk) (text : String) : Option Disk := makeBelow [] (parsePath text).dropLast d

def makeDirectories (d : Disk) (text : String) : Option Disk := makeBelow [] (parsePath text) d

def write (d : Disk) (text content : String) : Option Disk :=
  let path := parsePath text
  if path = [] ∨ meansDirectory text ∨ d.isDirectory path ∨ !d.isDirectory path.dropLast then none
  else some (d.put path (.file content))

def read (d : Disk) (text : String) : Option String :=
  match d.entryAt? (parsePath text) with
  | some (.file content) => if meansDirectory text then none else some content
  | _ => none

end Disk

end Oscilloscope
