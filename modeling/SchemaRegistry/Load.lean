import SchemaRegistry.Host
import SchemaRegistry.Path
import SchemaRegistry.Registry.Import
import SchemaRegistry.Registry.Resolve
import SchemaRegistry.Wire.FileSet

/-!
# Loading schemas

A registry is loaded from binary descriptor sets and from schema sources. The sets are read and
imported one by one, in the order given; then all sources are compiled together into one more set.
-/

namespace SchemaRegistry

/-- Why there is no descriptor set to import. -/
inductive LoadError where
  /-- The path of a set, or a word of the compiler's command line, has a NUL character in it. -/
  | nulInPath
  | unreadable (path : String) (cause : SystemError)
  | undecodable (path : String) (cause : Wire.WireError)
  | compilerMissing
  /-- There is something to run as the compiler, but the system does not start it. -/
  | compilerBlocked (cause : SystemError)
  | compilerFailed (stderr : List UInt8)
  deriving DecidableEq

/-- The program that compiles schema sources. -/
def compilerName : String := "protoc"

namespace LoadError

/-- What is said about a set that cannot be had. -/
def message : LoadError → String
  | nulInPath => Path.nulMessage
  | unreadable path cause =>
    "Cannot read descriptor set '" ++ path ++ "': " ++ cause.text ++ ": " ++ Text.quote path
  | undecodable path cause =>
    "'" ++ path ++ "' is not a valid descriptor set: "
      ++ "Error parsing message with type 'google.protobuf.FileDescriptorSet': " ++ cause.message
  | compilerMissing =>
    "'protoc' not found. Please install Protocol Buffers compiler and ensure it is in PATH."
  | compilerBlocked cause => cause.text ++ ": " ++ Text.quote compilerName
  | compilerFailed stderr => "protoc failed: " ++ Text.Utf8.toString stderr

end LoadError

/-- Why a load stops. -/
inductive LoadFailure where
  | load (e : LoadError)
  | declaration (e : DeclarationError)
  deriving DecidableEq

namespace Load

/-- The files in the bytes read from a path. -/
def decodeSet (path : String) (bytes : Except SystemError (List UInt8)) :
    Except LoadError (List FileDecl) :=
  -- Such a path is refused before the file is looked for.
  if Path.hasNul path then .error .nulInPath
  else
    match bytes with
    | .error cause => .error (.unreadable path cause)
    | .ok bytes =>
      match Wire.decodeFileSet bytes with
      | .error cause => .error (.undecodable path cause)
      | .ok files => .ok files

/-- Reads and decodes the set at a path by means of `read`, and notes how many files it has. -/
def readSetWith (read : String → Except SystemError (List UInt8)) (path : String) :
    Action LoadError (List FileDecl) := do
  let files ← Action.ofExcept (decodeSet path (read path))
  modify (·.note (.loaded files.length path))
  return files

/-- Reads the descriptor set at a path. -/
def readSet (host : Host) (path : String) : Action LoadError (List FileDecl) :=
  readSetWith host.read path

/-! ## Compiling sources -/

/-- Keeps the first occurrence of each element. -/
def firstOccurrences (seen : List String) : List String → List String
  | [] => []
  | d :: ds =>
    if d ∈ seen then firstOccurrences seen ds else d :: firstOccurrences (d :: seen) ds

/-- Where imports are looked for: the directory of each source, then the directories given, each
once. -/
def importPath (host : Host) (sources includeDirs : List String) : List String :=
  let own := sources.map fun s => (Path.absolute host.workingDirectory s).parent.text
  firstOccurrences [] ((own ++ includeDirs).filter (· ≠ ""))

/-- Where the compiler writes its descriptor set. -/
def outputPath (host : Host) : String := host.scratchDirectory ++ "/descriptor_set.pb"

/-- The words of the compiler's command line. -/
def command (host : Host) (sources includeDirs : List String) : List String :=
  [compilerName, "--include_imports", "--descriptor_set_out=" ++ outputPath host]
    ++ (importPath host sources includeDirs).flatMap (fun d => ["-I", d])
    ++ sources

/-- What it means for a compilation that the system does not start the compiler. -/
def notStarted (cause : SystemError) : LoadError :=
  if cause.number = SystemError.notFound.number then .compilerMissing else .compilerBlocked cause

/-- Runs the compiler with a command line and reads the set that comes out. -/
def runCompiler (host : Host) (line : List String) : Action LoadError (List FileDecl) := do
  modify fun p => { p with commands := p.commands.push line }
  match host.compiler with
  | .unstartable cause => throw (notStarted cause)
  | .failing stderr => throw (.compilerFailed stderr)
  | .writing output => readSetWith (fun _ => output) (outputPath host)

/-- Compiles the sources together. No system takes a command line with a NUL character in it, so
nothing is run then. -/
def compileSet (host : Host) (sources includeDirs : List String) :
    Action LoadError (List FileDecl) := do
  let line := command host sources includeDirs
  modify (·.note (.running line))
  if line.any Path.hasNul then throw .nulInPath else runCompiler host line

/-! ## Loading a registry -/

/-- The ending that marks a schema source, in any mixture of cases. -/
def sourceEnding : List Char := ".proto".toList

/-- Whether an input is a schema source. All others are taken for descriptor sets. -/
def isSource (path : String) : Bool := sourceEnding.isSuffixOf (path.toList.map Char.toLower)

/-- Reads the set at a path and imports its files. -/
def loadSet (host : Host) (path : String) : Action LoadFailure Unit := do
  let files ← (readSet host path).adaptExcept .load
  (Import.importFiles files).adaptExcept .declaration

/-- Compiles the sources and imports the files that come out. -/
def loadSources (host : Host) (sources includeDirs : List String) : Action LoadFailure Unit := do
  let files ← (compileSet host sources includeDirs).adaptExcept .load
  (Import.importFiles files).adaptExcept .declaration

/-- Loads all inputs into the registry, which is then resolved if asked for. -/
def loadRegistry (host : Host) (inputs includeDirs : List String) (resolve : Bool) :
    Action LoadFailure Unit := do
  (inputs.filter fun i => !isSource i).forM (loadSet host)
  -- All sources go to the compiler together, behind the sets whatever their order was.
  let sources := inputs.filter isSource
  if sources ≠ [] then loadSources host sources includeDirs
  if resolve then modify Progress.resolve

end Load

end SchemaRegistry
