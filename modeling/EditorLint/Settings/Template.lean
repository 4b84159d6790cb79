import EditorLint.Settings.File
import EditorLint.Text.Encoding
import EditorLint.TextFile

/-!
# Writing the user's configuration

A new configuration file is a form to fill in: every setting has a line of explanation,
and one that is not made stands there as a comment.  The values are written as they are;
whether they read back is up to the YAML that they happen to be.

Embedded: `write_user_config`.
-/

namespace EditorLint

namespace UserConfig

/-- A setting as a line, or the lines of a comment that shows how to make it. -/
def settingOr (name : String) (example? : List Text) : Option Text → List Text
  | none | some [] => example?
  | some value => [name ++ ": " ++ value]

def nameLines : List Text → List Text
  | [] => ["# config_names:", "#   - .eslintrc.json"]
  | names => "config_names:" :: names.map fun name => "  - " ++ name

/-- The line of the level, a comment for the one that holds anyway. -/
def levelLine (level : Log.Level) : Text :=
  let line : Text := "log_level: " ++ level.name
  if level = defaultLevel then "# " ++ line else line

/-- The line that says whether fixes are applied on save. -/
def fixLine (fixes : Bool) : Text := if fixes then "fix_on_save: true" else "fix_on_save: false"

/-- The lines of a new configuration file, in groups with an empty line after each. -/
def templateGroups (c : UserConfig) : List (List Text) :=
  [["# nanolint configuration"],
    "# Path to the eslint executable (required)"
      :: settingOr "eslint_path" ["# eslint_path: /usr/local/bin/eslint"] c.eslint,
    "# Shell that runs eslint, so PATH and node version managers apply (required)"
      :: settingOr "shell_path" ["# shell_path: /bin/sh"] c.shell,
    "# Extra config filenames, tried before eslint.config.js and friends" :: nameLines c.names,
    ["# Apply eslint fixes when a document is saved", fixLine c.fixes],
    ["# Log level: DEBUG, INFO, WARNING, ERROR, CRITICAL", levelLine c.level]]

def template (c : UserConfig) : Text :=
  Text.join "\n" (c.templateGroups.flatMap fun group => group ++ [[]])

end UserConfig

namespace ConfigFile

/-- Writes the user's configuration to a new file, in a directory that is made if need
be. -/
def writeUser (fs : FileSystem) (cwd path : Path) (c : UserConfig) : FileSystem × Except Failure Unit :=
  match fs.provideDirectory cwd path.parent with
  | .error e => (fs, .error e)
  | .ok fs => TextFile.write fs cwd path Encoding.utf8.encode c.template

end ConfigFile

end EditorLint
