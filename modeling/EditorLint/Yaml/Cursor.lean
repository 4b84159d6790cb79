import EditorLint.Yaml.Error

/-!
# Reading characters

A cursor stands between two characters of a document and knows its line and column.
The end of the document reads as U+0000, which no document contains.  Line feeds,
U+0085, U+2028 and U+2029 end a line; a byte order mark has no width.
-/

namespace EditorLint.Yaml

/-- The characters ahead, the place where they begin, and how many characters the
document has: no loop over what is ahead takes more rounds. -/
structure Cursor where
  rest : List Char
  mark : Mark
  size : Nat
  deriving Repr

namespace Cursor

def ofChars (cs : List Char) : Cursor := ⟨cs, ⟨0, 0, 0⟩, cs.length⟩

/-- The character `k` places ahead. -/
def peekAt (c : Cursor) (k : Nat) : Char := c.rest.getD k '\x00'

def peek (c : Cursor) : Char := c.peekAt 0

def column (c : Cursor) : Nat := c.mark.column

def endsLine (ch : Char) : Bool :=
  ch == '\n' || ch == '\x85' || ch == '\u2028' || ch == '\u2029'

/-- The place after a character, which `next` follows. -/
def Mark.after (m : Mark) (ch next : Char) : Mark :=
  if endsLine ch || (ch == '\r' && next != '\n') then ⟨m.index + 1, m.line + 1, 0⟩
  else ⟨m.index + 1, m.line, if ch == '\uFEFF' then m.column else m.column + 1⟩

def forward (c : Cursor) : Cursor :=
  match c.rest with
  | [] => c
  | ch :: rest => { c with rest, mark := Mark.after c.mark ch (rest.headD '\x00') }

/-- The cursor `n` characters further. -/
def advance (c : Cursor) : Nat → Cursor
  | 0 => c
  | n + 1 => advance c.forward n

/-- The leading characters of `p`, and the cursor behind them. -/
def span (c : Cursor) (p : Char → Bool) : List Char × Cursor :=
  let taken := c.rest.takeWhile p
  (taken, c.advance taken.length)

/-- The cursor behind the leading characters of `p`. -/
def skip (c : Cursor) (p : Char → Bool) : Cursor := (c.span p).2

end Cursor

/-! ## Character classes -/

def isBreak (ch : Char) : Bool := ch == '\r' || Cursor.endsLine ch

/-- A line break, or the end of the document. -/
def isBreakOrEnd (ch : Char) : Bool := ch == '\x00' || isBreak ch

/-- A blank, a line break, or the end of the document. -/
def isBlankOrEnd (ch : Char) : Bool := ch == ' ' || isBreakOrEnd ch

/-- A blank, a tab, a line break, or the end of the document. -/
def isSpaceOrEnd (ch : Char) : Bool := ch == '\t' || isBlankOrEnd ch

/-- A letter, a digit, a hyphen or an underscore. -/
def isNameChar (ch : Char) : Bool := ch.isAlphanum || ch == '-' || ch == '_'

def isHex (ch : Char) : Bool :=
  ch.isDigit || ('a' ≤ ch && ch ≤ 'f') || ('A' ≤ ch && ch ≤ 'F')

def isPrintable (ch : Char) : Bool :=
  let n := ch.toNat
  n == 0x9 || n == 0xA || n == 0xD || (0x20 ≤ n && n ≤ 0x7E) || n == 0x85
    || (0xA0 ≤ n && n ≤ 0xFFFD) || 0x10000 ≤ n

namespace Cursor

/-- A line break, if one is ahead: what it counts as, and the cursor behind it. -/
def lineBreak (c : Cursor) : List Char × Cursor :=
  let ch := c.peek
  if ch == '\r' || ch == '\n' || ch == '\x85' then
    if ch == '\r' && c.peekAt 1 == '\n' then (['\n'], c.advance 2) else (['\n'], c.forward)
  else if ch == '\u2028' || ch == '\u2029' then ([ch], c.forward)
  else ([], c)

def atSeparator (c : Cursor) : Bool :=
  ("---".toList.isPrefixOf c.rest || "...".toList.isPrefixOf c.rest) && isSpaceOrEnd (c.peekAt 3)

end Cursor

end EditorLint.Yaml
