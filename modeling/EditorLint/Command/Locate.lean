import EditorLint.Command.Configuration
import EditorLint.Command.Values

/-!
# Locating the configuration

Which configuration applies to a file or a directory.

Embedded: `locate_command`.
-/

namespace EditorLint.Locate

def pathArgument : ArgumentSpec := ⟨"PATH", .any, true⟩

def spec : CommandSpec where
  words := ["nanolint", "locate"]
  about :=
    ["Print the eslint config nearest to PATH (a file or directory).",
      "Exits 1 if no config is found."]
  options :=
    [⟨["--name"], .text, "Extra config filename to try first (repeatable)"⟩, Command.workspaceOption,
      Command.helpOption]
  argument := some pathArgument
  below := []

/-- The directory in which the search for a path begins. -/
def start (m : Machine) (p : Path) : Path := if m.files.hasDirectory m.cwd p then p else p.parent

def nearest (m : Machine) (settings : LinterSettings) (names : List Text) (p : Path) :
    Except Failure (Option Path) :=
  Search.locateBy m.probe m.cwd (start m p)
    (Search.spec (names ++ settings.configNames) settings.maxAscent)

def run (verbose : Bool) (p : Path) (names : List Text) (workspace : Option Path) : Command Unit := do
  let c ← Command.configuration verbose workspace false
  match ← Command.ofExcept (nearest (← get).machine c.linter names p) with
  | some config => Command.print config.text
  | none =>
    Command.complain ("No eslint config found for " ++ p.text)
    Command.exit 1

/-- Locates the configuration for the path that the arguments name. -/
def call (verbose : Bool) (words : List Text) : Command Unit := do
  let a ← Command.arguments spec words
  let workspace ← Command.directory? spec a "--workspace"
  let p ← Command.argument spec pathArgument a
  run verbose p (a.values "--name") workspace

end EditorLint.Locate
