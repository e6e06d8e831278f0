import SchemaRegistry.Text.Quoted

/-!
# The command line

Arguments are first read as words: operands, options, and the `--` after which all words are
operands. Long options may be shortened as long as they stay unique, and their value may follow an
`=`; a short option may be followed by its value, or by more short options, at once. Only the first
unbroken run of operands gives the inputs; operands after a later option are not recognised.
-/

namespace SchemaRegistry.CommandLine

/-!
## What the program says about itself

The texts are laid out for eighty columns.
-/

/-- The name that the program calls itself by. -/
def programName : String := "protoc-registry"

/-- The usage, which errors are shown behind. -/
def usage : String :=
  "usage: protoc-registry [-h] [-I INCLUDE_DIRS] [--no-resolve] [--strict]\n"
    ++ "                       [--out OUT] [--verbose]\n"
    ++ "                       inputs [inputs ...]\n"

/-- The answer to a request for help. -/
def help : String :=
  usage
    ++ "\n"
    ++ "Load protobuf descriptor sets into a schema registry and summarise them\n"
    ++ "\n"
    ++ "positional arguments:\n"
    ++ "  inputs                Binary descriptor set files (protoc -o) or .proto\n"
    ++ "                        sources to compile with protoc\n"
    ++ "\n"
    ++ "options:\n"
    ++ "  -h, --help            show this help message and exit\n"
    ++ "  -I INCLUDE_DIRS, --include INCLUDE_DIRS\n"
    ++ "                        Extra import directory passed to protoc (repeatable)\n"
    ++ "  --no-resolve          Skip the reference resolution pass\n"
    ++ "  --strict              Exit with status 1 if any type reference is unresolved\n"
    ++ "  --out OUT             Write the summary to this file instead of stdout\n"
    ++ "  --verbose             Log import details to stderr\n"

/-! ## Switches -/

/-- What an option is about. -/
inductive Switch where
  | help
  | includeDir
  | noResolve
  | strict
  | out
  | verbose
  deriving DecidableEq

namespace Switch

/-- Whether the switch has a value; the others are on once they are given. -/
def takesValue : Switch → Bool
  | includeDir | out => true
  | _ => false

/-- The switch as an error names it. -/
def name : Switch → String
  | help => "-h/--help"
  | includeDir => "-I/--include"
  | noResolve => "--no-resolve"
  | strict => "--strict"
  | out => "--out"
  | verbose => "--verbose"

/-- Every spelling, in the order in which the usage shows them. -/
def spellings : List (String × Switch) :=
  [("-h", help), ("--help", help), ("-I", includeDir), ("--include", includeDir),
    ("--no-resolve", noResolve), ("--strict", strict), ("--out", out), ("--verbose", verbose)]

/-- The switch that has exactly this spelling. -/
def ofSpelling? (s : String) : Option Switch := spellings.lookup s

end Switch

/-! ## Words -/

/-- What an argument is taken for before its place among the others matters. -/
inductive Word where
  | operand (text : String)
  /-- The first `--`. -/
  | endOfOptions
  /-- An option under one of its full spellings, with the text that is written in the same word,
  after an `=` or at once. -/
  | option (spelling : String) (switch : Switch) (attached : Option (List Char))
  | unknownOption (text : String)
  deriving DecidableEq

/-- Why the arguments are refused. -/
inductive UsageError where
  | missingInputs
  | missingValue (switch : Switch)
  | unwantedValue (switch : Switch) (value : String)
  | ambiguous (option : String) (candidates : List String)
  | unrecognised (words : List String)
  deriving DecidableEq

namespace UsageError

/-- What is said behind the usage. -/
def message : UsageError → String
  | missingInputs => "the following arguments are required: inputs"
  | missingValue switch => "argument " ++ switch.name ++ ": expected one argument"
  | unwantedValue switch value =>
    "argument " ++ switch.name ++ ": ignored explicit argument " ++ Text.quote value
  | ambiguous option candidates =>
    "ambiguous option: " ++ option ++ " could match " ++ ", ".intercalate candidates
  | unrecognised words => "unrecognized arguments: " ++ " ".intercalate words

end UsageError

/-- The part before the first `=`, and the part after it if there is one. -/
def splitEquals (cs : List Char) : List Char × Option (List Char) :=
  match cs.dropWhile (· ≠ '=') with
  | [] => (cs, none)
  | _ :: value => (cs.takeWhile (· ≠ '='), some value)

/-- Digits, or digits with one point that has a digit after it. A line feed at the end is
overlooked. -/
def isUnsignedNumber (cs : List Char) : Bool :=
  let cs := if cs.getLast? = some '\n' then cs.dropLast else cs
  match cs.dropWhile Text.isDecimalDigit with
  | [] => !cs.isEmpty
  | '.' :: fraction => !fraction.isEmpty && fraction.all Text.isDecimalDigit
  | _ => false

/-- Whether the text is an operand although it starts with a dash. -/
def isNegativeNumber (cs : List Char) : Bool :=
  match cs with
  | '-' :: rest => isUnsignedNumber rest
  | _ => false

/-- The short option of a letter. -/
def shortSpelling (c : Char) : String := String.ofList ['-', c]

/-- The options that a word which is no full spelling may stand for. -/
def candidates (cs : List Char) : List Word :=
  match cs with
  | '-' :: '-' :: _ =>
    let (start, value) := splitEquals cs
    Switch.spellings.filterMap fun (spelling, switch) =>
      if start.isPrefixOf spelling.toList then
        some (.option spelling switch value)
      else none
  -- A word with one dash is read as a short option with its value behind it.
  | '-' :: c :: value =>
    let short := shortSpelling c
    match Switch.ofSpelling? short with
    | some switch => [.option short switch (some value)]
    | none => []
  | _ => []

/-- The spellings of the options among the words. -/
def spellingsOf (words : List Word) : List String :=
  words.filterMap fun
    | .option spelling _ _ => some spelling
    | _ => none

/-- A word that starts with a dash and is no full spelling, with or without a value after `=`. -/
def readShortened (text : String) : Except UsageError Word :=
  match candidates text.toList with
  | [word] => .ok word
  | [] =>
    -- No option looks like a number or has a space in it.
    if isNegativeNumber text.toList ∨ ' ' ∈ text.toList then .ok (.operand text)
    else .ok (.unknownOption text)
  | words => .error (.ambiguous text (spellingsOf words))

/-- What an argument before the first `--` is taken for. A full spelling counts before shortened
ones, also with a value after `=`, and a dash alone is an operand. -/
def readWord (text : String) : Except UsageError Word :=
  match text.toList with
  | '-' :: _ :: _ =>
    match Switch.ofSpelling? text with
    | some switch => .ok (.option text switch none)
    | none =>
      let (start, value) := splitEquals text.toList
      match value, Switch.ofSpelling? (String.ofList start) with
      -- An option spelled in full, with its value in the same word.
      | some value, some switch => .ok (.option (String.ofList start) switch (some value))
      | _, _ => readShortened text
  | _ => .ok (.operand text)

/-- All words; after the first `--` every one is an operand. -/
def readWords : List String → Except UsageError (List Word)
  | [] => .ok []
  | "--" :: rest => .ok (.endOfOptions :: rest.map .operand)
  | text :: rest => do
    let word ← readWord text
    return word :: (← readWords rest)

/-! ## Settings -/

/-- The settings of a run. -/
structure Settings where
  inputs : List String
  includeDirs : List String
  resolve : Bool
  strict : Bool
  out : Option String
  verbose : Bool
  deriving DecidableEq

namespace Settings

/-- The settings when nothing is given: references are resolved, and the rest is off. -/
def initial : Settings := ⟨[], [], true, false, none, false⟩

/-- The effect of a switch other than help, with its value if it has one. Without a value the output
is taken back, and no directory is added. -/
def apply (s : Settings) (switch : Switch) (value : Option String) : Settings :=
  match switch with
  | .help => s
  | .includeDir => { s with includeDirs := s.includeDirs ++ value.toList }
  | .noResolve => { s with resolve := false }
  | .strict => { s with strict := true }
  | .out => { s with out := value }
  | .verbose => { s with verbose := true }

end Settings

/-- What the command line asks for. -/
inductive Request where
  | help
  | run (settings : Settings)
  deriving DecidableEq

/-- What an option comes to. -/
inductive Effect where
  | help
  /-- The switch is set, to a value if it has one. -/
  | apply (switch : Switch) (value : Option String)
  /-- The switch takes the next operand. -/
  | needsOperand (switch : Switch)
  deriving DecidableEq

/-- The text behind the short help switch in one word: more short options, until one takes the rest
as its value. They are checked, although help is all that comes of the word. -/
def checkCluster (nextIsOperand : Bool) : List Char → Except UsageError Effect
  | [] => .error (.unwantedValue .help "")
  | c :: rest =>
    match Switch.ofSpelling? (shortSpelling c) with
    | none => .error (.unwantedValue .help (String.ofList (c :: rest)))
    | some switch =>
      if switch.takesValue then
        if rest = [] ∧ !nextIsOperand then .error (.missingValue switch) else .ok .help
      else if rest = [] then .ok .help
      else checkCluster nextIsOperand rest

/-- The value that an attached text gives; a lone `--` gives none. -/
def attachedValue (text : List Char) : Option String :=
  if text = ['-', '-'] then none else some (String.ofList text)

/-- What an option does, given whether an operand follows it. -/
def effect (nextIsOperand : Bool) (spelling : String) (switch : Switch)
    (attached : Option (List Char)) : Except UsageError Effect :=
  match attached with
  | none =>
    if switch.takesValue then
      -- The value is the next word.
      if nextIsOperand then .ok (.needsOperand switch) else .error (.missingValue switch)
    else if switch = .help then .ok .help
    else .ok (.apply switch none)
  | some text =>
    if switch.takesValue then .ok (.apply switch (attachedValue text))
    else if spelling = "-h" then checkCluster nextIsOperand text
    else .error (.unwantedValue switch (String.ofList text))

/-! ## Parsing -/

/-- The text of a word that belongs to a run of operands. -/
def operandText? : Word → Option String
  | .operand text => some text
  | .endOfOptions => some "--"
  | _ => none

/-- Whether the word is an operand itself; the first `--` is not. -/
def isOperand : Word → Bool
  | .operand _ => true
  | _ => false

/-- The run of operands at the start, and the words after it. -/
def takeOperands (words : List Word) : List Word × List Word :=
  let inRun (w : Word) : Bool := (operandText? w).isSome
  (words.takeWhile inRun, words.dropWhile inRun)

/-- What has been read of the command line so far. -/
structure Parsed where
  settings : Settings
  unrecognised : List String

namespace Parsed

/-- Nothing has been read. -/
def initial : Parsed := ⟨.initial, []⟩

/-- Takes a run of operands: the inputs, if there are none yet and the run has an operand at all. -/
def takeRun (p : Parsed) (run : List Word) : Parsed :=
  let texts := run.filterMap operandText?
  if p.settings.inputs = [] ∧ run.any isOperand then
    { p with settings := { p.settings with inputs := texts.erase "--" } }
  else { p with unrecognised := p.unrecognised ++ texts }

/-- What is asked for once all words are read. -/
def finish (p : Parsed) : Except UsageError Request :=
  if p.settings.inputs = [] then .error .missingInputs
  else if p.unrecognised ≠ [] then .error (.unrecognised p.unrecognised)
  else .ok (.run p.settings)

end Parsed

/-- Whether the next word is an operand, which an option before it may take as its value. -/
def startsWithOperand : List Word → Bool
  | .operand _ :: _ => true
  | _ => false

/-- Reads words one after the other; a run of operands is taken as a whole. -/
def parseWords (p : Parsed) (words : List Word) : Except UsageError Request :=
  match words with
  | [] => p.finish
  | .unknownOption text :: rest =>
    parseWords { p with unrecognised := p.unrecognised ++ [text] } rest
  | .option spelling switch attached :: rest =>
    match effect (startsWithOperand rest) spelling switch attached with
    | .error e => .error e
    | .ok .help => .ok .help
    | .ok (.apply switch value) =>
      parseWords { p with settings := p.settings.apply switch value } rest
    | .ok (.needsOperand switch) =>
      match rest with
      -- The next word is the value, whatever it says.
      | .operand value :: rest' =>
        parseWords { p with settings := p.settings.apply switch (some value) } rest'
      | _ => .error (.missingValue switch)
  -- Operands are taken together with all that stand next to one another.
  | .operand text :: rest =>
    parseWords (p.takeRun (.operand text :: (takeOperands rest).1)) (takeOperands rest).2
  | .endOfOptions :: rest =>
    parseWords (p.takeRun (.endOfOptions :: (takeOperands rest).1)) (takeOperands rest).2
termination_by words.length
decreasing_by
  all_goals simp only [takeOperands, List.length_cons]
  all_goals first | omega | exact Nat.lt_succ_of_le (List.dropWhile_sublist _).length_le

/-- What the arguments ask for. -/
def parse (args : List String) : Except UsageError Request := do
  parseWords .initial (← readWords args)

end SchemaRegistry.CommandLine
