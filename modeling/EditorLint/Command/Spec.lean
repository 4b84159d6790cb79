import EditorLint.Datum.Literal
import EditorLint.Text.Similarity

/-!
# What a command understands

A command declares its options and its argument, and everything else follows from that:
how its arguments are taken apart, what is wrong with them, and its help.
-/

namespace EditorLint

/-- What a path on the command line has to lead to. -/
inductive PathKind where
  | any
  | file
  | directory
  deriving DecidableEq, Repr

namespace PathKind

def name : PathKind → String
  | any => "Path"
  | file => "File"
  | directory => "Directory"

end PathKind

/-- What follows an option. -/
inductive Operand where
  | nothing
  | text
  | path (kind : PathKind)
  deriving DecidableEq, Repr

namespace Operand

def word : Operand → Text
  | nothing => []
  | text => "TEXT"
  | path kind => (Text.ofString kind.name).toUpper

end Operand

/-- An option: its names, what follows it, and what it is for. -/
structure OptionSpec where
  names : List String
  operand : Operand
  help : String

namespace OptionSpec

/-- The name that an option is known by: its last one. -/
def key (o : OptionSpec) : String := o.names.getLastD ""

def takesValue (o : OptionSpec) : Bool := o.operand != .nothing

def heading (o : OptionSpec) : Text :=
  let names := Text.join ", " (o.names.map Text.ofString)
  if o.takesValue then names ++ " " ++ o.operand.word else names

end OptionSpec

/-- The argument of a command; one that may be missing stands for the working directory. -/
structure ArgumentSpec where
  name : String
  kind : PathKind
  isOptional : Bool

namespace ArgumentSpec

/-- The argument in usage lines, in brackets if it may be missing. -/
def heading (a : ArgumentSpec) : Text := if a.isOptional then "[" ++ a.name ++ "]" else a.name

end ArgumentSpec

/-- A command: the words that call it, what it is for, its options, its argument, and the
commands below it with their descriptions.  A command with others below it takes options
only before the name of one. -/
structure CommandSpec where
  words : List String
  about : List String
  options : List OptionSpec
  argument : Option ArgumentSpec
  below : List (String × String)

namespace CommandSpec

def isMixed (c : CommandSpec) : Bool := c.below.isEmpty

def option? (c : CommandSpec) (name : Text) : Option OptionSpec :=
  c.options.find? fun o => o.names.any name.isString

/-- Whether a name is a long one, with two dashes. -/
def isLong (name : Text) : Bool := (Text.ofString "--").isPrefixOf name

def longNames (c : CommandSpec) : List Text :=
  (c.options.flatMap fun o => o.names.map Text.ofString).filter isLong

def call (c : CommandSpec) : Text := Text.join " " (c.words.map Text.ofString)

/-- The line that shows how the command is used. -/
def usage (c : CommandSpec) : Text :=
  let operands : List Text := match c.argument with
    | some a => [a.heading]
    | none => ["COMMAND", "[ARGS]..."]
  "Usage: " ++ Text.join " " ([c.call, ("[OPTIONS]" : Text)] ++ operands)

end CommandSpec

end EditorLint
