/-!
# Paths

Paths are made absolute and normalised by their text alone: empty components and `.` fall away, and
`..` takes away the component before it, if there is one. Exactly two slashes in front are kept,
any other number of them counts as one.
-/

namespace SchemaRegistry.Path

/-- The stretches between slashes; `n` slashes give `n + 1` stretches, some of them empty. -/
def splitSlashes : List Char → List (List Char)
  | [] => [[]]
  | '/' :: cs => [] :: splitSlashes cs
  | c :: cs =>
    match splitSlashes cs with
    | [] => [[c]]
    | first :: more => (c :: first) :: more

/-- The stretches of a path, as texts. -/
def components (path : String) : List String := (splitSlashes path.toList).map String.ofList

/-- A path with a NUL character in it names no file. -/
def hasNul (path : String) : Bool := path.toList.contains '\x00'

/-- What is said of such a path. -/
def nulMessage : String := "embedded null byte"

/-- Whether a path starts from the root. -/
def isAbsolute (path : String) : Bool :=
  match path.toList with
  | '/' :: _ => true
  | _ => false

/-- Whether a path starts with exactly two slashes. -/
def hasDoubleRoot (path : String) : Bool :=
  match path.toList with
  | '/' :: '/' :: '/' :: _ => false
  | '/' :: '/' :: _ => true
  | _ => false

/-- An absolute path without empty components, `.` and `..`. -/
structure Absolute where
  doubleRoot : Bool
  components : List String
  deriving DecidableEq

/-- Goes one component further from the directory that `done` leads to, last component first. -/
def step (done : List String) (component : String) : List String :=
  if component = "" ∨ component = "." then done
  else if component = ".." then done.tail
  else component :: done

/-- What is left of components when each has been followed in its turn. -/
def normalise (components : List String) : List String := (components.foldl step []).reverse

/-- What `path` means in the directory `base`. -/
def absolute (base path : String) : Absolute :=
  if isAbsolute path then ⟨hasDoubleRoot path, normalise (components path)⟩
  else ⟨hasDoubleRoot base, normalise (components base ++ components path)⟩

namespace Absolute

/-- The directory that holds the path; that of a root is the root. -/
def parent (p : Absolute) : Absolute := { p with components := p.components.dropLast }

/-- The path as it is written: one slash or two, and the components with slashes between them. -/
def text (p : Absolute) : String :=
  (if p.doubleRoot then "//" else "/") ++ "/".intercalate p.components

end Absolute

/-- A path without its empty components and `.`, but with every `..`. -/
def tidy (path : String) : String :=
  let root := if hasDoubleRoot path then "//" else if isAbsolute path then "/" else ""
  let kept := (components path).filter fun c => c ≠ "" && c ≠ "."
  let text := root ++ "/".intercalate kept
  if text = "" then "." else text

end SchemaRegistry.Path
