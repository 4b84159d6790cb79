import EditorLint.Log.Record
import EditorLint.Path
import EditorLint.Settings.Check

/-!
# Logging settings

Where events are logged: each output has a format, a destination, and perhaps a
level of its own.  A destination is one of the two console streams or a file with
an absolute path; a leading tilde stands for a home directory, as in `expanduser`.

Who has which home directory is the system's to say (`Accounts`): nothing is assumed
about it, not even that the user who runs the program has an account.

Embedded: `LogOutputConfig` with `validate_destination`, and `LoggingConfig`.
-/

namespace EditorLint

/-- A stream of the console. -/
inductive Stream where
  | stdout
  | stderr
  deriving DecidableEq, Repr

/-- Where an output writes. -/
inductive Destination where
  | console (stream : Stream)
  | file (path : Path)
  deriving DecidableEq, Repr

namespace Destination

/-- The destination as it is written in a configuration. -/
def text : Destination → Text
  | console .stdout => "stdout"
  | console .stderr => "stderr"
  | file path => path.text

def isConsole : Destination → Bool
  | console _ => true
  | file _ => false

end Destination

/-- How an output writes events. -/
inductive LogFormat where
  | json
  | console
  deriving DecidableEq, Repr

def LogFormat.word : LogFormat → String
  | json => "json"
  | console => "console"

/-- One output of the log. -/
structure LogOutput where
  format : LogFormat
  destination : Destination
  level : Option Log.Level
  deriving DecidableEq, Repr

/-- The settings of the log. -/
structure LoggingConfig where
  level : Log.Level
  outputs : List LogOutput
  deriving DecidableEq, Repr

/-- What the system knows of home directories: that of the user who runs the program, and
that of a user by name. -/
structure Accounts where
  own : Option Text
  named : Text → Option Text

/-- Only the user who runs the program has an account. -/
def Accounts.alone (directory : Text) : Accounts := ⟨some directory, fun _ => none⟩

/-- Where home directories are: the one that the environment gives comes before the one that
the system knows. -/
structure Home where
  directory : Option Text
  accounts : Accounts

namespace Home

/-- A directory without slashes at its end, unless nothing else is left. -/
def withoutSlashes (t : Text) : Text :=
  let rest := (t.reverse.dropWhile (Code.isChar '/')).reverse
  if rest.isEmpty then "/" else rest

/-- The home directory of the user that a part with a leading tilde names, if it is known.  A
name that the system cannot have is not looked up. -/
def ofPart (home : Home) (part : Text) : Except Failure (Option Text) :=
  let name := part.drop 1
  if name.isEmpty then .ok (home.directory <|> home.accounts.own)
  else match Utf8.encodeSystem name with
    | .error fault => .error (.ofSurrogate fault)
    | .ok _ =>
      if name.contains (.scalar '\x00') then .error .nullInPath
      else .ok (home.accounts.named name)

/-- The path with a leading tilde replaced by the directory it stands for. -/
def expand (home : Home) (p : Path) : Except Failure Path :=
  match p.root, p.parts with
  | .relative, part :: rest =>
    if part.head? == some (.scalar '~') then
      match home.ofPart part with
      | .error f => .error f
      | .ok none => .error .noHome
      | .ok (some found) =>
        let directory := withoutSlashes found
        if directory.head? == some (.scalar '~') then .error .noHome
        else .ok ((Path.ofText directory).join ⟨.relative, rest⟩)
    else .ok p
  | _, _ => .ok p

end Home

namespace LogOutput

def default : LogOutput := ⟨.console, .console .stderr, none⟩

/-- A stream of the console, or a file with an absolute path.  An error in the value of the
path is a finding, as everywhere in checks; that there is no home directory is not. -/
def checkDestination (home : Home) (loc : Check.Loc) (d : Datum) : Checked Destination :=
  (Check.text loc d).andThen fun t =>
    if t.isString "stderr" then .valid (.console .stderr)
    else if t.isString "stdout" then .valid (.console .stdout)
    else match home.expand (Path.ofText t) with
      | .error .noHome => .broken .noHome
      | .error f => Check.broken loc f.display d
      | .ok p =>
        if p.isAbsolute then .valid (.file p)
        else Check.broken loc ("File destination must be absolute path: " ++ t) d

def checkLevel (loc : Check.Loc) (d : Datum) : Checked Log.Level :=
  Check.word (Log.Level.all.map fun l => (l.name, l)) loc d

def check (home : Home) (loc : Check.Loc) (es : Entries) : Checked LogOutput :=
  let format := Check.field loc es "format" .console
    (Check.word [("json", LogFormat.json), ("console", LogFormat.console)])
  let destination := Check.field loc es "destination" (.console .stderr) (checkDestination home)
  let level := Check.field loc es "level" none (Check.nullable checkLevel)
  (format.both (destination.both level)).map fun (format, destination, level) =>
    ⟨format, destination, level⟩

def entries (o : LogOutput) : Entries :=
  [(.string "format", .string o.format.word), (.string "destination", .text o.destination.text),
    (.string "level", match o.level with
      | none => .null
      | some l => .string l.name)]

end LogOutput

namespace LoggingConfig

def defaults : LoggingConfig := ⟨.warning, [LogOutput.default]⟩

def check (home : Home) (loc : Check.Loc) (es : Entries) : Checked LoggingConfig :=
  let level := Check.field loc es "level" .warning LogOutput.checkLevel
  let outputs := Check.field loc es "outputs" [LogOutput.default]
    (Check.list (Check.mapping "LogOutputConfig" (LogOutput.check home)))
  (level.both outputs).map fun (level, outputs) => ⟨level, outputs⟩

def entries (c : LoggingConfig) : Entries :=
  [(.string "level", .string c.level.name),
    (.string "outputs", .list (c.outputs.map fun o => .mapping o.entries))]

end LoggingConfig

end EditorLint
