import SchemaRegistry.CommandLine
import SchemaRegistry.Load
import SchemaRegistry.Registry.View

/-!
# The program

What a run of the command comes to: its exit status, the two output streams, the file written and
the compiler command lines run.
-/

namespace SchemaRegistry.Program

open CommandLine (Settings Request)

/-- A failure that ends the program without an exit status of its own. -/
inductive Abort where
  | declaration (e : DeclarationError)
  | handle (e : HandleError)
  /-- The path of a set or of the output, or a word of the compiler's command line, has a NUL
  character in it. -/
  | nulInPath
  | unwritable (path : String) (cause : SystemError)
  /-- The system does not start the compiler, though there is one. -/
  | compilerBlocked (cause : SystemError)
  deriving DecidableEq

namespace Abort

/-- What is said of an abort when it escapes. -/
def message : Abort → String
  | declaration e => e.message
  | handle e => e.message
  | nulInPath => Path.nulMessage
  | unwritable path cause => cause.text ++ ": " ++ Text.quote path
  | compilerBlocked cause => cause.text ++ ": " ++ Text.quote compilerName

end Abort

/-- All that a run leaves behind. An abort keeps what was given out before it. -/
structure Result where
  status : Except Abort Nat
  stdout : String
  stderr : String
  /-- The file written, by its path, and its text. -/
  written : Option (String × String)
  commands : List (List String)

/-! ## Streams -/

/-- The events that are worth a log line: warnings always, the rest if asked for. -/
def isShown (verbose : Bool) (e : Event) : Bool := verbose || e.severity = .warning

/-- The log as the error output has it, a line to an event. -/
def logText (verbose : Bool) (events : List Event) : String :=
  String.join ((events.filter (isShown verbose)).map fun e => e.line ++ "\n")

/-- The line that reports a dangling reference in a strict run. -/
def danglingLine (d : Registry.Dangling) : String :=
  "Unresolved: " ++ d.message ++ "." ++ d.field ++ " -> " ++ Event.nameText d.typeName ++ "\n"

/-! ## Reporting on a loaded registry -/

/-- What becomes of a failed load: a message that the program reports itself, or an abort. -/
def verdict : LoadFailure → Except Abort String
  | .load .nulInPath => .error .nulInPath
  | .load (.compilerBlocked cause) => .error (.compilerBlocked cause)
  | .load e => .ok e.message
  | .declaration .groupDefault => .ok DeclarationError.groupDefault.message
  | .declaration e => .error (.declaration e)

/-- How the summary is given out: on the standard output, or into a file with a note about it. -/
structure Emitted where
  stdout : String
  written : Option (String × String)

/-- Gives the summary out. An empty name for the output is the same as none. The file is found under
the tidied path, but the note about it has the path as it was given. -/
def emit (host : Host) (out : Option String) (size : Nat) (summary : String) :
    Except Abort Emitted :=
  match out with
  | none | some "" => .ok ⟨summary, none⟩
  | some path =>
    let target := Path.tidy path
    if Path.hasNul target then .error .nulInPath
    else
      match host.writeFault target with
      | some cause => .error (.unwritable target cause)
      | none =>
        .ok ⟨s!"Wrote summary of {size} type(s) to " ++ path ++ "\n", some (target, summary)⟩

/-- The dangling references to report: none unless strict. -/
def strictFindings (settings : Settings) (p : Progress) :
    Except HandleError (List Registry.Dangling) :=
  if settings.strict then p.registry.dangling p.store else .ok []

/-- The report on a load that succeeded. -/
def report (host : Host) (settings : Settings) (p : Progress) : Result :=
  let log := logText settings.verbose p.events.toList
  let commands := p.commands.toList
  match Summary.render p.registry p.store with
  | .error e => ⟨.error (.handle e), "", log, none, commands⟩
  | .ok summary =>
    -- What was put out stays, even if the findings fail.
    match emit host settings.out p.registry.size summary with
    | .error a => ⟨.error a, "", log, none, commands⟩
    | .ok ⟨stdout, written⟩ =>
      match strictFindings settings p with
      | .error e => ⟨.error (.handle e), stdout, log, written, commands⟩
      | .ok findings =>
        let status := if findings = [] then 0 else 1
        ⟨.ok status, stdout, log ++ String.join (findings.map danglingLine), written, commands⟩

/-! ## Running -/

/-- Loads the inputs and reports on them. -/
def run (host : Host) (settings : Settings) : Result :=
  let load := Load.loadRegistry host settings.inputs settings.includeDirs settings.resolve
  match load.outcome .empty with
  | (.ok (), p) => report host settings p
  | (.error failure, p) =>
    let log := logText settings.verbose p.events.toList
    match verdict failure with
    | .ok message => ⟨.ok 1, "", log ++ "FATAL: " ++ message ++ "\n", none, p.commands.toList⟩
    | .error abort => ⟨.error abort, "", log, none, p.commands.toList⟩

/-- Runs the command with these arguments. -/
def execute (host : Host) (args : List String) : Result :=
  match CommandLine.parse args with
  | .error e =>
    let line := CommandLine.programName ++ ": error: " ++ e.message ++ "\n"
    ⟨.ok 2, "", CommandLine.usage ++ line, none, []⟩
  | .ok .help => ⟨.ok 0, CommandLine.help, "", none, []⟩
  | .ok (.run settings) => run host settings

end SchemaRegistry.Program
