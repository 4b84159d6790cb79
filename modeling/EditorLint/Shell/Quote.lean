import EditorLint.Text.Basic

/-!
# Quoting for the shell

A word of letters, digits and a few signs that mean nothing to a shell stands as it
is.  Any other word goes between single quotes, where every character but the
single quote stands for itself; a single quote closes the quotes, stands between
double quotes, and opens them again.

Embedded: `quote` and `join` of the library for shells.
-/

namespace EditorLint.Shell

def isPlain : Code → Bool
  | .scalar c => c.isAlphanum || "_@%+=:,./-".toList.contains c
  | .surrogate _ => false

def isBare (word : Text) : Bool := !word.isEmpty && word.all isPlain

def quoteCode (c : Code) : Text := if c.isChar '\'' then "'\"'\"'" else [c]

def quote (word : Text) : Text :=
  if word.isEmpty then "''"
  else if isBare word then word
  else .scalar '\'' :: word.flatMap quoteCode ++ [.scalar '\'']

/-- A command line: the words with blanks between them. -/
def commandLine (words : List Text) : Text := Text.join " " (words.map quote)

end EditorLint.Shell
