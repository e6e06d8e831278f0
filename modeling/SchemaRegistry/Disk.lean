import SchemaRegistry.Host
import SchemaRegistry.Path

/-!
# Disks

A host whose files are held in memory. A path is followed from the root or from the working
directory, component by component, and every directory on the way has to exist. Paths and their
components are limited in length.
-/

namespace SchemaRegistry

/-- Files by their components from the root, and directories that exist without files. -/
structure Disk where
  workingDirectory : List String
  files : List (List String × List UInt8)
  directories : List (List String)

namespace Disk

/-- Nothing but a working directory. -/
def empty (workingDirectory : String) : Disk :=
  ⟨Path.normalise (Path.components workingDirectory), [], []⟩

/-- The working directory as a path. -/
def workingPath (d : Disk) : String := "/" ++ "/".intercalate d.workingDirectory

/-- The place that a path names, whether or not it exists. -/
def place (d : Disk) (path : String) : List String :=
  (Path.absolute d.workingPath path).components

/-- Adds a file along with the directories above it. -/
def addFile (d : Disk) (path : String) (bytes : List UInt8) : Disk :=
  { d with files := (d.place path, bytes) :: d.files }

/-- Adds a directory along with those above it. -/
def addDirectory (d : Disk) (path : String) : Disk :=
  { d with directories := d.place path :: d.directories }

/-- What the file at a place holds; none if there is no file. -/
def file? (d : Disk) (place : List String) : Option (List UInt8) := d.files.lookup place

/-- A directory exists if it was added, or if anything lies below it. -/
def isDirectory (d : Disk) (place : List String) : Bool :=
  (d.workingDirectory :: d.directories ++ d.files.map fun f => f.1.dropLast).any
    fun known => place.isPrefixOf known

/-- How many bytes a component of a path may have. -/
def longestName : Nat := 255

/-- How many bytes a path may have. -/
def longestPath : Nat := 4095

/-- Follows components from a place, which has to be a directory as long as any are left. -/
def follow (d : Disk) (place : List String) : List String → Except SystemError (List String)
  | [] => .ok place
  | c :: rest =>
    if !d.isDirectory place then
      .error (if (d.file? place).isSome then .notDirectory else .notFound)
    else if c = "" ∨ c = "." then d.follow place rest
    -- Above the root is the root.
    else if c = ".." then d.follow place.dropLast rest
    else if longestName < c.utf8ByteSize then .error .nameTooLong
    else d.follow (place ++ [c]) rest

/-- The place that a path leads to; it need not exist itself. -/
def locate (d : Disk) (path : String) : Except SystemError (List String) :=
  if path = "" then .error .notFound
  else if longestPath < path.utf8ByteSize then .error .nameTooLong
  else d.follow (if Path.isAbsolute path then [] else d.workingDirectory) (Path.components path)

/-- Reads the file that a path leads to. -/
def read (d : Disk) (path : String) : Except SystemError (List UInt8) := do
  let place ← d.locate path
  match d.file? place with
  | some bytes => return bytes
  -- What is there and is no file is a directory.
  | none => throw (if d.isDirectory place then .isDirectory else .notFound)

/-- Writes a file, new or not. -/
def write (d : Disk) (path : String) (bytes : List UInt8) : Except SystemError Disk := do
  let place ← d.locate path
  if d.isDirectory place then throw .isDirectory
  return { d with files := (place, bytes) :: d.files.filter fun f => f.1 ≠ place }

/-- Why a path cannot be written to. -/
def writeFault (d : Disk) (path : String) : Option SystemError :=
  match d.write path [] with
  | .ok _ => none
  | .error e => some e

/-- The disk as a host, with a compiler that writes into `scratchDirectory`. -/
def host (d : Disk) (compiler : Compiler) (scratchDirectory : String) : Host where
  workingDirectory := d.workingPath
  read := d.read
  writeFault := d.writeFault
  compiler
  scratchDirectory

end Disk

end SchemaRegistry
