/-!
# Hosts

What a load can reach outside itself: files to read and write, and a compiler for schema sources.
-/

namespace SchemaRegistry

/-- An error of the operating system: its number, and what the system says about it. -/
structure SystemError where
  number : Nat
  description : String
  deriving DecidableEq

namespace SystemError

/-- There is nothing at the path. -/
def notFound : SystemError := ⟨2, "No such file or directory"⟩

/-- Something on the way to the file is a file itself. -/
def notDirectory : SystemError := ⟨20, "Not a directory"⟩

/-- There is a directory where a file was looked for. -/
def isDirectory : SystemError := ⟨21, "Is a directory"⟩

/-- The path, or a component of it, is longer than the system allows. -/
def nameTooLong : SystemError := ⟨36, "File name too long"⟩

/-- How the error is shown. -/
def text (e : SystemError) : String := s!"[Errno {e.number}] " ++ e.description

end SystemError

/-- What running the compiler comes to. -/
inductive Compiler where
  /-- The system does not start it. -/
  | unstartable (cause : SystemError)
  /-- It fails and says why. -/
  | failing (stderr : List UInt8)
  /-- It succeeds, and this is what comes of reading the descriptor set that it is to write. -/
  | writing (output : Except SystemError (List UInt8))

/-- No compiler is installed. -/
def Compiler.missing : Compiler := .unstartable .notFound

/-- The surroundings of a run. -/
structure Host where
  /-- The directory that relative paths start from. -/
  workingDirectory : String
  read : String → Except SystemError (List UInt8)
  /-- Why a path cannot be written to; none if it can. -/
  writeFault : String → Option SystemError
  compiler : Compiler
  /-- A directory for the output of the compiler. -/
  scratchDirectory : String

end SchemaRegistry
