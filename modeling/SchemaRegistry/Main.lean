import SchemaRegistry.Program

/-!
# The command

Reads the inputs named on the command line, runs the program on them, and hands out what comes of
it. The command starts no compiler of its own: schema sources are answered as if none were
installed.
-/

open SchemaRegistry

/-- The error of the system behind an input or output error. What the system has no number for
counts as a failure of the device. -/
def systemErrorOf : IO.Error → SystemError
  | .noFileOrDirectory _ code text | .inappropriateType _ code text
  | .invalidArgument _ code text | .permissionDenied _ code text
  | .resourceExhausted _ code text | .resourceBusy code text
  | .hardwareFault code text | .otherError code text => ⟨code.toNat, text⟩
  | _ => ⟨5, "Input/output error"⟩

/-- Reads the file at a path, or tells why it cannot be read. -/
def readInput (path : String) : IO (String × Except SystemError (List UInt8)) := do
  try
    return (path, .ok (← IO.FS.readBinFile path).toList)
  catch e => return (path, .error (systemErrorOf e))

/-- The inputs that the arguments name. -/
def inputsOf (args : List String) : List String :=
  match CommandLine.parse args with
  | .ok (.run settings) => settings.inputs
  | _ => []

/-- Writes the file that a run calls for; the failure if it cannot be written. -/
def writeOutput : Option (String × String) → IO (Option Program.Abort)
  | none => return none
  | some (path, text) => do
    try
      IO.FS.writeFile path text
      return none
    catch e => return some (.unwritable path (systemErrorOf e))

/-- Shows the standard output and the exit status, or why the program stops short of them. -/
def conclude (result : Program.Result) : Except Program.Abort Nat → IO UInt32
  | .ok status => do
    IO.print result.stdout
    return UInt32.ofNat status
  | .error abort => do
    IO.eprintln abort.message
    return 1

/-- Runs the command on the files that there are, and writes what it calls for. A file that cannot
be written turns the result into an abort, whatever it was. -/
def main (args : List String) : IO UInt32 := do
  let contents ← (inputsOf args).mapM readInput
  let host : Host := {
    workingDirectory := (← IO.currentDir).toString
    read := fun path => (contents.lookup path).getD (.error .notFound)
    writeFault := fun _ => none
    compiler := .missing
    scratchDirectory := "/tmp" }
  let result := Program.execute host args
  let unwritten ← writeOutput result.written
  IO.eprint result.stderr
  conclude result (match unwritten with
    | some abort => .error abort
    | none => result.status)
