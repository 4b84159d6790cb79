import EditorLint.Settings.Linter
import EditorLint.Path
import EditorLint.Shell.Quote

/-!
# Invocations

One command line of the linter: the configuration and the report format first, then
what is asked of it, and the file last.  When a text is given it is linted in place
of the file, through the standard input.  With a shell the whole command line is one
argument of it, quoted so that the shell hands on the same words.

Embedded: `RunMode`, `LintInvocation` with `command` and `display`, and `build_invocation`
(`build`).
-/

namespace EditorLint

/-- What the linter is asked to do. -/
inductive RunMode where
  | diagnose
  | fixDryRun
  deriving DecidableEq, Repr

namespace RunMode

def word : RunMode → String
  | diagnose => "diagnose"
  | fixDryRun => "fix-dry-run"

def ofWord? (d : Datum) : Option RunMode :=
  match d with
  | .text t => [diagnose, fixDryRun].find? fun m => t.isString m.word
  | _ => none

end RunMode

/-- A command line of the linter, ready to start. -/
structure Invocation where
  executable : Text
  cwd : Path
  args : List Text
  shell : Option Text
  input : Option Text
  deriving DecidableEq, Repr

namespace Invocation

def arguments (config file : Path) (mode : RunMode) (text : Option Text) : List Text :=
  let settings : List Text := ["--config", config.text, "--format", "json"]
  let task : List Text := if mode = .fixDryRun then ["--fix-dry-run"] else []
  let input : List Text := if text.isSome then ["--stdin", "--stdin-filename"] else []
  settings ++ task ++ input ++ [file.text]

/-- The command line for a file; it runs in the directory of the configuration. -/
def build (settings : LinterSettings) (config file : Path) (mode : RunMode) (text : Option Text) :
    Invocation where
  executable := match settings.eslintPath with
    | none | some [] => "eslint"
    | some path => path
  cwd := config.parent
  args := arguments config file mode text
  shell := settings.shellPath
  input := text

def words (i : Invocation) : List Text := i.executable :: i.args

def display (i : Invocation) : Text := Shell.commandLine i.words

/-- The words that are started: the linter itself, or a shell that runs it. -/
def command (i : Invocation) : List Text :=
  match i.shell with
  | none | some [] => i.words
  | some shell => [shell, "-c", i.display]

end Invocation

end EditorLint
