import EditorLint.Command.Spec

/-!
# Wrong usage

What can be wrong with the arguments of a command, and how the user is told.  Most messages
come after the usage line and a hint at the help; an option whose value is missing or
refused stands alone.
-/

namespace EditorLint

/-- What is wrong with a path on the command line. -/
inductive PathFault where
  | absent
  | isFile
  | isDirectory
  | unreadable
  deriving DecidableEq, Repr

/-- What is wrong with the arguments of a command. -/
inductive UsageError where
  | noSuchOption (name : Text) (similar : List Text)
  | noSuchCommand (name : Text) (similar : List Text)
  | valueMissing (option : Text)
  | valueRefused (option : Text)
  | argumentMissing (name : String)
  | commandMissing
  | wrongPath (parameter : Text) (kind : PathKind) (value : Text) (fault : PathFault)
  | unexpected (words : List Text)
  deriving DecidableEq, Repr

namespace UsageError

/-- The words among the known ones that come close to a word. -/
def similar (word : Text) (known : List Text) : List Text :=
  (Similarity.suggestions word.shown (known.map Text.shown)).map Text.ofChars

def suggestion : List Text → Text
  | [] => []
  | [word] => " Did you mean " ++ Literal.quote word ++ "?"
  | words => " (Did you mean one of: " ++ Text.join ", " (words.map Literal.quote) ++ "?)"

/-- The wording of what is wrong with a path. -/
def pathMessage (kind : PathKind) (value : Text) (fault : PathFault) : Text :=
  let subject := kind.name ++ " " ++ Literal.quote (Text.ofChars value.shown)
  match fault with
  | .absent => subject ++ " does not exist."
  | .isFile => subject ++ " is a file."
  | .isDirectory => subject ++ " is a directory."
  | .unreadable => subject ++ " is not readable."

def message : UsageError → Text
  | noSuchOption name similar => "No such option " ++ Literal.quote name ++ "." ++ suggestion similar
  | noSuchCommand name similar =>
    "No such command " ++ Literal.quote name ++ "." ++ suggestion similar
  | valueMissing option => "Option " ++ Literal.quote option ++ " requires an argument."
  | valueRefused option => "Option " ++ Literal.quote option ++ " does not take a value."
  | argumentMissing name => "Missing argument '" ++ name ++ "'."
  | commandMissing => "Missing command."
  | wrongPath parameter kind value fault =>
    "Invalid value for '" ++ parameter ++ "': " ++ pathMessage kind value fault
  | unexpected words =>
    "Got unexpected extra " ++ (if words.length = 1 then "argument" else "arguments") ++ " ("
      ++ Text.join " " words ++ ")"

def showsUsage : UsageError → Bool
  | valueMissing _ | valueRefused _ => false
  | _ => true

def report (c : CommandSpec) (e : UsageError) : Text :=
  let usage : Text :=
    if e.showsUsage then c.usage ++ "\nTry '" ++ c.call ++ " --help' for help.\n\n" else []
  usage ++ "Error: " ++ e.message

end UsageError

end EditorLint
