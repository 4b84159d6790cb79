import EditorLint.FileSystem
import EditorLint.Log.Line
import EditorLint.Settings.Logging

/-!
# The setup of the log

The log as it is in force: the level below which nothing is logged, and the channels,
one for each output of the configuration, in its order.  A message goes to every channel
whose threshold it reaches, and the first file among the outputs is remembered, so that
a command that fails can point at it.

Setting the log up opens the files.  If one cannot be opened, the channels before it
stay.

Embedded: `configure_logging`, `_make_handler` (`openDestination`), `_is_console`,
`get_log_file_path` and `failure_message`.
-/

namespace EditorLint.Log

/-- An output in use. -/
structure Channel where
  destination : Destination
  format : LogFormat
  threshold : Level
  deriving DecidableEq, Repr

/-- The log in force. -/
structure Setup where
  root : Level
  channels : List Channel
  file : Option Path
  deriving DecidableEq, Repr

namespace Channel

/-- The line that a message is in a channel. -/
def line (c : Channel) (timestamp : Text) (m : Message) : Text :=
  match c.format with
  | .json => m.jsonLine timestamp
  | .console => m.consoleLine timestamp

end Channel

/-- The level below which the loop that talks to children never logs. -/
def loopLevel : Level := .warning

/-- Whether a logger is that of the loop that talks to children, or below it. -/
def isLoopLogger (logger : Text) : Bool :=
  logger.isString "asyncio" || (Text.ofString "asyncio.").isPrefixOf logger

namespace Setup

def silent (root : Level) : Setup := ⟨root, [], none⟩

/-- Whether a message is logged at all.  Events below the root level are not; the loop
has a level of its own, and everything else that of the root. -/
def passes (s : Setup) (m : Message) : Bool :=
  let own := if isLoopLogger m.logger then loopLevel else s.root
  own.number ≤ m.rank && (m.bare || s.root.number ≤ m.rank)

def receivers (s : Setup) (m : Message) : List Channel :=
  s.channels.filter fun c => c.threshold.number ≤ m.rank

/-- The lines that a message comes to, each with the place where it is written, in the
order of the channels.  Without channels, warnings and worse go to the error stream. -/
def deliveries (s : Setup) (timestamp : Text) (m : Message) : List (Destination × Text) :=
  if !s.passes m then []
  else if s.channels.isEmpty then
    if Level.warning.number ≤ m.rank then [(.console .stderr, m.unroutedLine timestamp ++ "\n")]
    else []
  else (s.receivers m).map fun c => (c.destination, c.line timestamp m ++ "\n")

def addChannel (s : Setup) (c : Channel) : Setup := { s with channels := s.channels ++ [c] }

/-- The setup in which a file is remembered, if it is the first. -/
def noteFile (s : Setup) : Destination → Setup
  | .console _ => s
  | .file path => if s.file.isNone then { s with file := some path } else s

/-- The level from which an output takes messages: its own, or that of the root.  On the
console, everything when it is asked for. -/
def thresholdOf (root : Level) (verbose : Bool) (o : LogOutput) : Level :=
  if verbose && o.destination.isConsole then .debug else o.level.getD root

/-- Opens the place that an output writes to: a file is made, with the directories above
it, and takes the path in which `..` is folded. -/
def openDestination (fs : FileSystem) (cwd : Path) :
    Destination → FileSystem × Except Failure Destination
  | .console stream => (fs, .ok (.console stream))
  | .file path =>
    match fs.provideDirectory cwd path.parent with
    | .error e => (fs, .error e)
    | .ok fs =>
      let place := cwd.resolveLexically path
      match fs.append cwd place [] with
      | .error e => (fs, .error e)
      | .ok fs => (fs, .ok (.file place))

/-- Opens outputs one after the other, up to one that cannot be opened. -/
def openAll (cwd : Path) (verbose : Bool) :
    List LogOutput → FileSystem → Setup → FileSystem × Setup × Except Failure Unit
  | [], fs, s => (fs, s, .ok ())
  | o :: rest, fs, s =>
    let s := s.noteFile o.destination
    match openDestination fs cwd o.destination with
    | (fs, .error e) => (fs, s, .error e)
    | (fs, .ok destination) =>
      openAll cwd verbose rest fs
        (s.addChannel ⟨destination, o.format, thresholdOf s.root verbose o⟩)

/-- Sets the log up as a configuration says; when `verbose`, everything is logged, and
the console shows it all. -/
def configure (fs : FileSystem) (cwd : Path) (c : LoggingConfig) (verbose : Bool) :
    FileSystem × Setup × Except Failure Unit :=
  openAll cwd verbose c.outputs fs (silent (if verbose then .debug else c.level))

/-- What a user is told when linting has failed: why, and where to read more. -/
def failureMessage (s : Setup) (reason : Option Text) : Text :=
  let why : Text := match reason with
    | none | some [] => "unknown error"
    | some t => t
  let more : Text := match s.file with
    | some path => "\nSee " ++ path.text ++ " for details."
    | none => []
  "Lint failed: " ++ why ++ more

end Setup

end EditorLint.Log
