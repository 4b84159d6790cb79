import EditorLint.Command.Configuration
import EditorLint.Command.Values
import EditorLint.Settings.Template

/-!
# A new configuration

Writes the user's configuration of a workspace.  What the user does not say is looked up:
the linter on the search path, the shell in the environment.

Embedded: `init_command`.
-/

namespace EditorLint.Init

def pathArgument : ArgumentSpec := ⟨"PATH", .directory, true⟩

def spec : CommandSpec where
  words := ["nanolint", "init"]
  about := ["Create .nanolint/config.yaml in PATH (default: current directory)."]
  options :=
    [⟨["--eslint-path"], .text, "eslint executable (default: found on PATH)"⟩,
      ⟨["--shell-path"], .text, "Shell to run eslint with (default: $SHELL)"⟩,
      ⟨["--fix-on-save"], .nothing, "Apply eslint fixes when saving"⟩,
      ⟨["--force"], .nothing, "Overwrite an existing config file"⟩, Command.helpOption]
  argument := some pathArgument
  below := []

def given : Option Text → Option Text
  | some (c :: rest) => some (c :: rest)
  | _ => none

/-- A program in a directory of the search path; the empty one is the working directory. -/
def candidate (program directory : Text) : Text :=
  if directory.isEmpty then program
  else if directory.getLast? == some (.scalar '/') then directory ++ program
  else directory ++ "/" ++ program

/-- Where a program is found on the search path. -/
def onSearchPath (m : Machine) (program : Text) : Option Text :=
  let directories := (m.getVariable "PATH").getD "/bin:/usr/bin"
  if directories.isEmpty then none
  else ((directories.splitOn (Code.isChar ':')).map (candidate program)).find? fun t =>
    m.files.hasExecutable m.cwd (.ofText t)

def settings (m : Machine) (eslint shell : Option Text) (fixOnSave : Bool) : UserConfig where
  eslintPath := some ((given eslint).or (onSearchPath m "eslint"))
  shellPath := some (some (((given shell).or (given (m.getVariable "SHELL"))).getD "/bin/sh"))
  configNames := none
  fixOnSave := some fixOnSave
  logLevel := none

def run (directory : Path) (eslint shell : Option Text) (fixOnSave force : Bool) : Command Unit := do
  let m := (← get).machine
  let file := Config.userFile (m.files.follow m.cwd directory)
  let isThere ← Command.ofExcept (m.probe file)
  if isThere && !force then
    Command.giveUp (file.text ++ " already exists. Use --force to overwrite.")
  let c := settings m eslint shell fixOnSave
  Command.store (ConfigFile.writeUser m.files m.cwd file c)
  Command.print ("Wrote " ++ file.text)
  if (given c.eslint).isNone then
    Command.complain "eslint was not found on PATH; set eslint_path before linting."

/-- Writes the configuration of the workspace that the arguments name. -/
def call (words : List Text) : Command Unit := do
  let a ← Command.arguments spec words
  let directory ← Command.argument spec pathArgument a
  run directory (a.value? "--eslint-path") (a.value? "--shell-path") (a.has "--fix-on-save")
    (a.has "--force")

end EditorLint.Init
