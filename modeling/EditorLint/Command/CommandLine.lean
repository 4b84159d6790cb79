import EditorLint.Command.Fix
import EditorLint.Command.Init
import EditorLint.Command.Lint
import EditorLint.Command.Locate

/-!
# The command line

The whole program: options of its own, then the name of a command, then the arguments of
that command.  The log is set up with its defaults before a command begins, so that
whatever goes wrong early is told.

Embedded: `cli`, and what the library for command lines does around it.
-/

namespace EditorLint.CommandLine

def version : String := "0.1.0"

/-- The commands, by name in alphabetical order, each with what it does when everything is
to be logged or not. -/
def commands : List (CommandSpec × (Bool → List Text → Command Unit)) :=
  [(Fix.spec, Fix.call), (Init.spec, fun _ => Init.call), (Lint.spec, Lint.call),
    (Locate.spec, Locate.call)]

def nameOf (c : CommandSpec) : String := c.words.getLastD ""

def spec : CommandSpec where
  words := ["nanolint"]
  about := ["nanolint - eslint diagnostics and fixes for a single file."]
  options :=
    [⟨["--version"], .nothing, "Show the version and exit."⟩,
      ⟨["-v", "--verbose"], .nothing, "Enable debug logging"⟩, Command.helpOption]
  argument := none
  below := commands.map fun (c, _) => (nameOf c, c.about.headD "")

/-- The options of the program itself, and the words after them.  Of help and version the
one that comes first counts. -/
def opening (words : List Text) : Command Arguments :=
  match Arguments.scan spec words with
  | .error e => Command.refuse spec e
  | .ok a =>
    match a.options.find? fun (key, _) => key == "--help" || key == "--version" with
    | some (key, _) =>
      if key == "--help" then Command.help spec
      else do
        Command.print ("nanolint, version " ++ version)
        Command.exit 0
    | none => return a

def command? (name : Text) : Option (Bool → List Text → Command Unit) :=
  (commands.find? fun (c, _) => name.isString (nameOf c)).map (·.2)

/-- An unknown command.  Words that look like options are taken for options of the program
once more. -/
def unknown (name : Text) (words : List Text) : Command Unit := do
  let _ ← opening words
  let known := commands.map fun (c, _) => Text.ofString (nameOf c)
  Command.refuse spec (.noSuchCommand name (UsageError.similar name known))

def run (words : List Text) : Command Unit := do
  if words.isEmpty then
    Command.complain (Help.text spec)
    Command.exit 2
  let a ← opening words
  let verbose := a.has "--verbose"
  match a.words with
  | [] => Command.refuse spec .commandMissing
  | name :: rest =>
    match command? name with
    | none => unknown name (name :: rest)
    | some call => do
      Command.configureLog .defaults verbose
      call verbose rest

/-- The status that an end of the program stands for. -/
def status : Except Halt Unit → Nat
  | .ok () => 0
  | .error (.exit n) => n
  | .error (.failure _) => 1

end EditorLint.CommandLine
