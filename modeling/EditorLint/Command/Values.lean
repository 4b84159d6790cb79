import EditorLint.Command.Arguments
import EditorLint.Command.Help
import EditorLint.Command.Terminal

/-!
# Values of arguments

From the words of the command line to the values that a command works with.  A path has to
lead to something of the right kind.  Help comes before every other option, and options
are looked at before the argument, and words too many last of all.
-/

namespace EditorLint.Command

/-- Tells the user what is wrong with the arguments, and gives up. -/
def refuse {α : Type} (c : CommandSpec) (e : UsageError) : Command α := do
  complain (e.report c)
  exit 2

/-- Prints the help of a command, and is done. -/
def help {α : Type} (c : CommandSpec) : Command α := do
  print (Help.text c)
  exit 0

/-- What is wrong with a path that has to be of a kind and readable, if something is. -/
def pathFault? (files : FileSystem) (kind : PathKind) : FileSystem.Target → Option PathFault
  | .found place node =>
    if node = .directory ∧ kind = .file then some .isDirectory
    else if node ≠ .directory ∧ kind = .directory then some .isFile
    else if !files.mayRead place then some .unreadable
    else none
  | .free _ | .blocked _ => some .absent

/-- A path on the command line, as the value of an option or an argument. -/
def path (c : CommandSpec) (parameter : Text) (kind : PathKind) (value : Text) : Command Path := do
  let m := (← get).machine
  let target := m.files.lookUpText m.cwd value
  match target with
  | .blocked .null => throw (.failure .nullInPath)
  | .blocked (.unencodable fault) => throw (.failure (.ofSurrogate fault))
  | _ => pure ()
  match pathFault? m.files kind target with
  | some fault => refuse c (.wrongPath parameter kind value fault)
  | none => return .ofText value

def arguments (c : CommandSpec) (words : List Text) : Command Arguments :=
  match Arguments.scan c words with
  | .error e => refuse c e
  | .ok a => if a.has "--help" then help c else return a

/-- The directory that an option names, if it is there. -/
def directory? (c : CommandSpec) (a : Arguments) (key : String) : Command (Option Path) :=
  match a.value? key with
  | none => return none
  | some value => do return some (← path c key .directory value)

/-- The argument of a command, which takes one word and no more. -/
def argument (c : CommandSpec) (spec : ArgumentSpec) (a : Arguments) : Command Path := do
  let value ← match a.words with
    | word :: _ => pure word
    | [] =>
      if spec.isOptional then pure (Text.ofString ".") else refuse c (.argumentMissing spec.name)
  let p ← path c spec.heading spec.kind value
  match a.words.drop 1 with
  | [] => return p
  | more => refuse c (.unexpected more)

/-! ## Options that several commands have -/

def helpOption : OptionSpec := ⟨["--help"], .nothing, "Show this message and exit."⟩

def workspaceOption : OptionSpec :=
  ⟨["--workspace"], .path .directory,
    "Directory holding .nanolint/config.yaml (default: current directory)"⟩

def fileArgument : ArgumentSpec := ⟨"FILE", .file, false⟩

end EditorLint.Command
