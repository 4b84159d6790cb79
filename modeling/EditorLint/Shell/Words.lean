import EditorLint.Text.Basic

/-!
# What a shell makes of a command line

How a POSIX shell takes a command line apart when nothing is to be expanded, and which
program it starts for it.

Blanks and tabs separate words.  Between single quotes every code stands for itself; between
double quotes a backslash takes away what a dollar, a back quote, a double quote or another
backslash means; outside quotes a backslash does that for any code.  A backslash before the
end of a line joins it to the next one.  What would make the shell do more than read words,
such as a dollar, a star or a semicolon, is refused.

The first word is read once more.  Where the part before its first quote is a name and an
equals sign, it is an assignment; where none of it is quoted, it may be a word of the shell's
language; and quoted or not, it may name a command that the shell carries out itself.  Shells
differ in the last two (`Dialect`).

Assumed is a shell that is given this one command line behind `-c` and reads no file before it,
so that it has no aliases.  A command line that begins with a sign it takes for more options.
-/

namespace EditorLint.Shell

/-! ## Words -/

/-- Where a reader stands. -/
inductive Mode where
  | plain
  | single
  | double
  deriving DecidableEq, Repr

/-- A word: its codes without the quotes, those that stand before the first quote or backslash,
and whether there is one. -/
structure Word where
  text : Text := []
  bare : Text := []
  quoted : Bool := false
  deriving DecidableEq, Repr

namespace Word

def add (w : Word) (c : Code) : Word :=
  { w with text := w.text ++ [c], bare := if w.quoted then w.bare else w.bare ++ [c] }

def quote (w : Word) : Word := { w with quoted := true }

end Word

def isSeparator (c : Code) : Bool := c.isChar ' ' || c.isChar '\t'

/-- Whether a code outside quotes is an operator, an expansion or a pattern, or may be one
at some place of a word. -/
def isSpecial : Code → Bool
  | .scalar c => "\n|&;<>()$\u0060*?[]#~!\x7b\x7d".toList.contains c
  | .surrogate _ => false

/-- Whether a code keeps its meaning between double quotes. -/
def isActive : Code → Bool
  | .scalar c => c == '$' || c == '\u0060' || c == '\\' || c == '"'
  | .surrogate _ => false

/-- The words from here on; `word` is the one that is being read, if one has begun. -/
def readWords : Mode → (word : Option Word) → Text → Option (List Word)
  | .plain, word, [] => some word.toList
  | .single, _, [] | .double, _, [] => none
  | .plain, word, c :: rest =>
    if isSeparator c then (readWords .plain none rest).map (word.toList ++ ·)
    else if c.isChar '\'' then readWords .single (some (word.getD {}).quote) rest
    else if c.isChar '"' then readWords .double (some (word.getD {}).quote) rest
    else if c.isChar '\\' then
      match rest with
      | [] => none
      | d :: rest =>
        if d.isChar '\n' then readWords .plain word rest
        else readWords .plain (some ((word.getD {}).quote.add d)) rest
    else if isSpecial c then none
    else readWords .plain (some ((word.getD {}).add c)) rest
  | .single, word, c :: rest =>
    if c.isChar '\'' then readWords .plain word rest
    else readWords .single (some ((word.getD {}).add c)) rest
  | .double, word, c :: rest =>
    if c.isChar '"' then readWords .plain word rest
    else if c.isChar '\\' then
      match rest with
      | [] => none
      | d :: rest =>
        if d.isChar '\n' then readWords .double word rest
        else if isActive d then readWords .double (some ((word.getD {}).add d)) rest
        else readWords .double (some (((word.getD {}).add c).add d)) rest
    else if isActive c then none
    else readWords .double (some ((word.getD {}).add c)) rest

/-- The words of a command line, if it is nothing but words. -/
def words? (line : Text) : Option (List Word) := readWords .plain none line

/-! ## The first word -/

/-- Whether a text begins with a sign, as options do. -/
def isSigned (t : Text) : Bool := t.head?.any fun c => c.isChar '-' || c.isChar '+'

/-- Whether a text is a name: letters, digits and underscores, and no digit first. -/
def isName : Text → Bool
  | .scalar c :: rest =>
    (c.isAlpha || c == '_') && rest.all fun
      | .scalar d => d.isAlphanum || d == '_'
      | .surrogate _ => false
  | _ => false

/-- Whether a text begins with a name and an equals sign. -/
def isAssignment (t : Text) : Bool :=
  let name := t.takeWhile (!·.isChar '=')
  isName name && decide (name.length < t.length)

def reservedWords : List Text :=
  (["!", "\x7b", "\x7d", "case", "do", "done", "elif", "else", "esac", "fi", "for", "if", "in",
    "then", "until", "while"] : List String).map Text.ofString

/-- The commands that every shell carries out itself, whatever programs there are. -/
def specialBuiltIns : List Text :=
  (["break", ":", ".", "continue", "eval", "exec", "exit", "export", "readonly", "return", "set",
    "shift", "times", "trap", "unset"] : List String).map Text.ofString

/-- What one shell makes of the first word of a command: the unquoted words that are of its
language or a kind of assignment of its own, and the names of the commands and functions that it
carries out itself.  A path is none of the latter. -/
structure Dialect where
  reserved : Text → Bool
  builtIn : Text → Bool
  reserved_of_mem : ∀ word ∈ reservedWords, reserved word = true
  builtIn_of_mem : ∀ word ∈ specialBuiltIns, builtIn word = true
  builtIn_path : ∀ word : Text, word.any (·.isChar '/') = true → builtIn word = false

namespace Dialect

/-- A shell with no word and no command of its own beyond those of every shell. -/
def posix : Dialect where
  reserved := reservedWords.contains
  builtIn := specialBuiltIns.contains
  reserved_of_mem _ h := List.contains_iff_mem.mpr h
  builtIn_of_mem _ h := List.contains_iff_mem.mpr h
  builtIn_path word h := by
    refine Bool.eq_false_iff.mpr fun hword => ?_
    have hall : ∀ w ∈ specialBuiltIns, w.any (·.isChar '/') = false := by decide
    rw [hall word (List.contains_iff_mem.mp hword)] at h
    cases h

/-- The words that a shell starts a program with, if a command line is one command that does
nothing else. -/
def program? (sh : Dialect) (line : Text) : Option (List Text) :=
  if isSigned line then none
  else match words? line with
    | some (command :: args) =>
      if isAssignment command.bare then none
      else if !command.quoted && sh.reserved command.text then none
      else if sh.builtIn command.text then none
      else some (command.text :: args.map Word.text)
    | _ => none

end Dialect

end EditorLint.Shell
