import EditorLint.Settings.Linter
import EditorLint.Settings.Logging

/-!
# The configuration

The two sections of a configuration: the log and the linter.  A section that is not
given has its defaults.

Embedded: `NanoLintConfig`.
-/

namespace EditorLint

/-- The settings of the log and of the linter. -/
structure Config where
  logging : LoggingConfig
  linter : LinterSettings

namespace Config

def checkLogging (home : Home) : Check.Loc → Datum → Checked LoggingConfig :=
  Check.mapping "LoggingConfig" (LoggingConfig.check home)

def checkLinter : Check.Loc → Datum → Checked LinterSettings :=
  Check.mapping "LinterSettings" LinterSettings.check

/-- The sections among the entries; other entries do not matter. -/
def check (home : Home) (es : Entries) : Checked Config :=
  let logging := Check.field [] es "logging" LoggingConfig.defaults (checkLogging home)
  let linter := Check.field [] es "linter" LinterSettings.defaults checkLinter
  (logging.both linter).map fun (logging, linter) => ⟨logging, linter⟩

def entries (c : Config) : Entries :=
  [(.string "logging", .mapping c.logging.entries), (.string "linter", .mapping c.linter.entries)]

end Config

end EditorLint
