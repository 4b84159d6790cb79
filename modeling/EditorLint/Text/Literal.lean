import EditorLint.Text.Printable

/-!
# Quoted literals

The literal of a text stands between single quotes, or between double quotes when
the text has single quotes and no double ones.  The quote and the backslash are
escaped, tab, line feed and carriage return have short escapes, and whatever else
cannot be shown is written by its number with the least of `\xhh`, `\uhhhh` and
`\Uhhhhhhhh` that holds it.  The literal of a byte string is that of its ASCII
characters after a `b`, with every other byte as `\xhh`.
-/

namespace EditorLint.Literal

def quoteFor (t : Text) : Char :=
  if t.contains (.scalar '\'') && !t.contains (.scalar '"') then '"' else '\''

def numbered (n : Nat) : Text :=
  if n < 0x100 then "\\x" ++ Text.hex 2 n
  else if n < 0x10000 then "\\u" ++ Text.hex 4 n
  else "\\U" ++ Text.hex 8 n

/-- One code inside a literal with the given quote. -/
def escape (quote : Char) (c : Code) : Text :=
  if c.isChar quote || c.isChar '\\' then [.scalar '\\', c]
  else if c.isChar '\t' then "\\t"
  else if c.isChar '\n' then "\\n"
  else if c.isChar '\r' then "\\r"
  else if c.isPrintable then [c]
  else numbered c.value

def quote (t : Text) : Text :=
  let q := quoteFor t
  .scalar q :: t.flatMap (escape q) ++ [.scalar q]

def quoteBytes (bytes : List UInt8) : Text :=
  let chars : Text := bytes.map fun b => .scalar (.ofNat b.toNat)
  let q := quoteFor chars
  let body := chars.flatMap fun c => if c.value < 0x80 then escape q c else numbered c.value
  .scalar 'b' :: .scalar q :: body ++ [.scalar q]

end EditorLint.Literal
