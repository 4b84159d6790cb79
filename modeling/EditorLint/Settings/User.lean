import EditorLint.Settings.Linter
import EditorLint.Settings.Logging

/-!
# The user's configuration

The few settings that a user makes for a workspace, in one flat file.  A setting that
is not made is left open, so that another source can make it.

Embedded: `UserConfig` with `to_sections` (`sections`).
-/

namespace EditorLint

/-- The settings of a workspace; nothing where none is made. -/
structure UserConfig where
  eslintPath : Option (Option Text)
  shellPath : Option (Option Text)
  configNames : Option (List Text)
  fixOnSave : Option Bool
  logLevel : Option Log.Level
  deriving DecidableEq

namespace UserConfig

def empty : UserConfig := ⟨none, none, none, none, none⟩

/-- The level of the log unless the user says otherwise. -/
def defaultLevel : Log.Level := .warning

/-- The linter, as far as it is set. -/
def eslint (c : UserConfig) : Option Text := c.eslintPath.getD none

/-- The shell, as far as it is set. -/
def shell (c : UserConfig) : Option Text := c.shellPath.getD none

def names (c : UserConfig) : List Text := c.configNames.getD []

def fixes (c : UserConfig) : Bool := c.fixOnSave.getD false

def level (c : UserConfig) : Log.Level := c.logLevel.getD defaultLevel

/-- Whether two configurations say the same, set or by default. -/
def agrees (c d : UserConfig) : Bool :=
  c.eslint == d.eslint && c.shell == d.shell && c.names == d.names && c.fixes == d.fixes
    && c.level == d.level

/-- The settings in the entries of a file; entries of other names do not matter. -/
def check (es : Entries) : Checked UserConfig :=
  let eslint := Check.optionalField [] es "eslint_path" (Check.nullable Check.text)
  let shell := Check.optionalField [] es "shell_path" (Check.nullable Check.text)
  let names := Check.optionalField [] es "config_names" (Check.list Check.text)
  let fixes := Check.optionalField [] es "fix_on_save" Check.truth
  let level := Check.optionalField [] es "log_level" LogOutput.checkLevel
  (eslint.both (shell.both (names.both (fixes.both level)))).map
    fun (eslint, shell, names, fixes, level) => ⟨eslint, shell, names, fixes, level⟩

/-- A setting as an entry, if it is made. -/
def entry {α : Type} (name : String) (wrap : α → Datum) : Option α → Entries
  | none => []
  | some a => [(.string name, wrap a)]

def linterEntries (c : UserConfig) : Entries :=
  entry "eslint_path" (Diagnostic.optional .text) c.eslintPath
    ++ entry "shell_path" (Diagnostic.optional .text) c.shellPath
    ++ entry "config_names" (fun names => .list (names.map .text)) c.configNames
    ++ entry "fix_on_save" .bool c.fixOnSave

/-- The settings that are made, by section: the section of the linter always, that of
the log when its level is set. -/
def sections (c : UserConfig) : Entries :=
  (.string "linter", .mapping c.linterEntries)
    :: entry "logging" (fun (l : Log.Level) => .mapping [(.string "level", .string l.name)]) c.logLevel

/-- The names of the settings that are made, in alphabetical order. -/
def made (c : UserConfig) : List String :=
  (if c.configNames.isSome then ["config_names"] else [])
    ++ (if c.eslintPath.isSome then ["eslint_path"] else [])
    ++ (if c.fixOnSave.isSome then ["fix_on_save"] else [])
    ++ (if c.logLevel.isSome then ["log_level"] else [])
    ++ (if c.shellPath.isSome then ["shell_path"] else [])

def entries (c : UserConfig) : Entries :=
  [(.string "eslint_path", Diagnostic.optional .text c.eslint),
    (.string "shell_path", Diagnostic.optional .text c.shell),
    (.string "config_names", .list (c.names.map .text)), (.string "fix_on_save", .bool c.fixes),
    (.string "log_level", .string c.level.name)]

end UserConfig

end EditorLint
