import EditorLint.Command.CommandLine

/-!
# The program

Runs a command on this machine.  A command is a function of the machine that it sees, so
what it may look at is read first, and what it has changed is written back.

No child is started from here.  When a command asks for the linter, the report is read
from the standard input: `eslint --format json a.js | nanolint lint a.js`.
-/

namespace EditorLint.Program

/-- What stands at a path: the bytes of a file, a directory, or nothing. -/
def look (p : Path) : IO (Option Node) := do
  try
    return some (.file (← IO.FS.readBinFile p.toString).toList true)
  catch
    | .inappropriateType .. => return some .directory
    | _ => return none

/-- The files with what stands at a path, and the directories above it. -/
def load (fs : FileSystem) (p : Path) : IO FileSystem := do
  match ← look p, fs.provideDirectory ⟨.slash, []⟩ p.parent with
  | some node, .ok fs => return fs.set p.names node
  | _, _ => return fs

def environment : IO (List (Text × Text)) := do
  let bytes ← try IO.FS.readBinFile "/proc/self/environ" catch _ => pure .empty
  let entries := (Text.ofChars (Utf8.decodeReplacing bytes.toList)).splitOn (Code.isChar '\x00')
  return (entries.filter (!·.isEmpty)).map fun e =>
    let name := e.takeWhile (!·.isChar '=')
    (name, e.drop (name.length + 1))

/-- The users that the system knows, with their numbers and home directories. -/
def users : IO (List (Text × Text × Text)) := do
  let bytes ← try IO.FS.readBinFile "/etc/passwd" catch _ => pure .empty
  let lines := (Text.ofChars (Utf8.decodeReplacing bytes.toList)).splitOn (Code.isChar '\n')
  return lines.filterMap fun line =>
    match line.splitOn (Code.isChar ':') with
    | [name, _, number, _, _, directory, _] => some (name, number, directory)
    | _ => none

/-- The number of the user who runs the program. -/
def ownNumber : IO Text := do
  let bytes ← try IO.FS.readBinFile "/proc/self/status" catch _ => pure .empty
  let lines := (Text.ofChars (Utf8.decodeReplacing bytes.toList)).splitOn (Code.isChar '\n')
  let numbers := lines.filter fun line => ("Uid:\t" : Text).isPrefixOf line
  return ((numbers.headD []).drop 5).takeWhile (!·.isChar '\t')

def accounts : IO Accounts := do
  let users ← users
  let own ← ownNumber
  return {
    own := (users.find? fun (_, number, _) => number == own).map (·.2.2)
    named := fun name => (users.find? fun (known, _, _) => known == name).map (·.2.2) }

def withParents (p : Path) : List Path :=
  (List.range (p.parts.length + 1)).map fun n => ⟨p.root, p.parts.take n⟩

/-- The paths that the words of a command may name. -/
def named (cwd : Path) (words : List Text) : List Path :=
  cwd :: (words.flatMap (Text.splitOn (Code.isChar '='))).map fun t => cwd.resolveLexically (.ofText t)

/-- The machine, as far as a command with these words may look at it. -/
def readMachine (words : List Text) : IO Machine := do
  let cwd := Path.ofString (← IO.currentDir).toString
  let m : Machine := ⟨.empty, cwd, ← environment, ← accounts⟩
  let bases := named cwd words
  let global := (m.home.expand Config.globalFile).toOption.toList
  let search := ((m.getVariable "PATH").getD []).splitOn (Code.isChar ':')
  let programs := search.map fun t => cwd.join (.ofText (Init.candidate "eslint" t))
  let first ← (bases ++ bases.map Config.userFile ++ global ++ programs).foldlM load m.files
  let m := { m with files := first }
  let names := bases.flatMap fun p =>
    match Config.load m (some p) false [] with
    | .ok c => c.linter.configNames
    | .error _ => []
  let directories := bases.flatMap withParents
  let configs := directories.flatMap fun d => (words ++ names ++ Search.defaultNames).map d.child
  return { m with files := ← configs.eraseDups.foldlM load m.files }

partial def readAll (stream : IO.FS.Stream) (seen : ByteArray) : IO ByteArray := do
  let more ← stream.read 65536
  if more.isEmpty then return seen else readAll stream (seen ++ more)

/-- A child that has written a report and ended well. -/
def reporting (report : ByteArray) : Child where
  refusal := none
  reply := .output ⟨some 0, report.toList, []⟩
  answer := .after 0
  exited := true
  lingers := false

/-- Writes the files that have changed, and the directories above them. -/
def writeBack (before after : FileSystem) : IO Unit := do
  for (place, node) in after.nodes do
    if let .file bytes _ := node then
      if before.at? place != some node then
        let path : Path := ⟨.slash, place.map Name.text⟩
        IO.FS.createDirAll path.parent.toString
        IO.FS.writeBinFile path.toString bytes.toByteArray

def run (arguments : List String) : IO UInt32 := do
  let words := arguments.map Text.ofString
  let machine ← readMachine words
  let time := Text.ofNat (← IO.monoMsNow)
  let fresh (children : List Child) := Terminal.fresh machine time children []
  let trial := ((fresh []).run (CommandLine.run words)).2
  let children ← if trial.attempts.isEmpty then pure []
    else pure [reporting (← readAll (← IO.getStdin) .empty)]
  let (result, after) := (fresh children).run (CommandLine.run words)
  writeBack machine.files after.machine.files
  (← IO.getStdout).putStr (String.ofList after.stdout)
  (← IO.getStderr).putStr (String.ofList after.stderr)
  if let .error (.failure f) := result then
    (← IO.getStderr).putStrLn (String.ofList f.display.shown)
  return .ofNat (CommandLine.status result)

end EditorLint.Program

def main (arguments : List String) : IO UInt32 := EditorLint.Program.run arguments
