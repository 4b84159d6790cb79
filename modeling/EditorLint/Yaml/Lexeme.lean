import EditorLint.Text.Encoding
import EditorLint.Yaml.Cursor
import EditorLint.Yaml.Scalar
import EditorLint.Yaml.Token

/-!
# Directives, names, tags and scalars

How one directive, anchor, tag or scalar is read off the characters of a document.
Every function starts at the first character of what it reads and ends behind the
last one.
-/

namespace EditorLint.Yaml

/-- A fault at the cursor, found while doing something that began at `start`. -/
def faultAt {α : Type} (activity : Activity) (start : Mark) (problem : Problem) (c : Cursor) :
    Except Fault α :=
  .error ⟨some (activity, some start), problem, c.mark⟩

/-- The rest of a line that has to be blank, a comment apart, and its end. -/
def ignoredLine (activity : Activity) (start : Mark) (c : Cursor) : Except Fault Cursor :=
  let c := c.skip (· == ' ')
  let c := if c.peek == '#' then c.skip (!isBreakOrEnd ·) else c
  if isBreakOrEnd c.peek then .ok c.lineBreak.2
  else faultAt activity start (.expectedLineEnd c.peek) c

/-! ## Tags -/

/-- A tag handle: an exclamation mark alone, or a name between two. -/
def tagHandle (activity : Activity) (start : Mark) (c : Cursor) : Except Fault (Text × Cursor) :=
  if c.peek != '!' then faultAt activity start (.expectedTagMark c.peek) c
  else if c.peekAt 1 == ' ' then .ok ("!", c.forward)
  else
    let (name, behind) := c.forward.span isNameChar
    if behind.peek == '!' then .ok (Text.ofChars ('!' :: name ++ ['!']), behind.forward)
    else faultAt activity start (.expectedTagMark behind.peek) behind

/-- Whether a character can stand in an address as itself. -/
def isAddressChar (ch : Char) : Bool :=
  ch.isAlphanum || "-;/?:@&=+$,_.!~*'()[]".toList.contains ch

/-- The bytes of consecutive escapes of an address, with fuel for the escapes. -/
def addressBytes (activity : Activity) (start : Mark) :
    (fuel : Nat) → Cursor → Except Fault (List UInt8 × Cursor)
  | 0, c => .ok ([], c)
  | fuel + 1, c =>
    if c.peek != '%' then .ok ([], c)
    else
      let c := c.forward
      let a := c.peek
      let b := c.peekAt 1
      if !isHex a then faultAt activity start (.expectedAddressEscape a) c
      else if !isHex b then faultAt activity start (.expectedAddressEscape b) c
      else do
        let (bytes, c) ← addressBytes activity start fuel (c.advance 2)
        return (.ofNat ((Numeral.ofDigits? 16 [a, b]).getD 0) :: bytes, c)

def addressPieces (activity : Activity) (start : Mark) :
    (fuel : Nat) → Cursor → Except Fault (Text × Cursor)
  | 0, c => .ok ([], c)
  | fuel + 1, c =>
    if c.peek == '%' then do
      let mark := c.mark
      let (bytes, c) ← addressBytes activity start c.size c
      match Encoding.decodeUtf8 bytes with
      | .error f => .error ⟨some (activity, some start), .undecodableAddress f.display, mark⟩
      | .ok text =>
        let (more, c) ← addressPieces activity start fuel c
        return (text ++ more, c)
    else
      let (piece, c) := c.span isAddressChar
      if piece.isEmpty then .ok ([], c)
      else do
        let (more, c) ← addressPieces activity start fuel c
        return (Text.ofChars piece ++ more, c)

/-- An address that is not empty; `content` says what it is the content of. -/
def address (content escapes : Activity) (start : Mark) (c : Cursor) :
    Except Fault (Text × Cursor) := do
  if c.peek != '%' && !isAddressChar c.peek then faultAt content start (.expectedAddress c.peek) c
  else addressPieces escapes start (c.size + 1) c

/-- Whether the tag ahead has a handle: an exclamation mark before the next blank. -/
def hasHandle (c : Cursor) : Bool :=
  ((c.rest.drop 1).takeWhile (!isBlankOrEnd ·)).contains '!'

/-- A tag: verbatim between angle brackets, an exclamation mark alone, or a handle
and what it is followed by. -/
def tagToken (c : Cursor) : Except Fault (TokenKind × Cursor) := do
  let start := c.mark
  let (kind, c) ←
    if c.peekAt 1 == '<' then do
      let (suffix, c) ← address .tagContent .tag start (c.advance 2)
      if c.peek != '>' then faultAt .tagContent start (.expectedTagEnd c.peek) c
      else pure (TokenKind.tag none suffix, c.forward)
    else if isSpaceOrEnd (c.peekAt 1) then pure (TokenKind.tag none "!", c.forward)
    else do
      let (handle, c) ← if hasHandle c then tagHandle .tag start c else pure ("!", c.forward)
      let (suffix, c) ← address .tagContent .tag start c
      pure (TokenKind.tag (some handle) suffix, c)
  if isBlankOrEnd c.peek then return (kind, c)
  else faultAt .tag start (.expectedBlank c.peek) c

/-! ## Directives -/

def versionNumber (start : Mark) (c : Cursor) : Except Error (Nat × Cursor) :=
  if !c.peek.isDigit then (faultAt .directive start (.expectedDigit c.peek) c).mapError .fault
  else
    let (digits, c) := c.span Char.isDigit
    match integer 10 (Text.ofChars digits) with
    | .ok n => .ok (n.toNat, c)
    | .error e => .error (.scalar e)

/-- The numbers of a version directive; only the first matters. -/
def versionDirective (start : Mark) (c : Cursor) : Except Error (Directive × Cursor) := do
  let refuse {α : Type} (problem : Problem) (c : Cursor) : Except Error α :=
    (faultAt .directive start problem c).mapError .fault
  let (major, c) ← versionNumber start (c.skip (· == ' '))
  if c.peek != '.' then refuse (.expectedDigitOrDot c.peek) c
  else
    let (_, c) ← versionNumber start c.forward
    if isBlankOrEnd c.peek then return (.version major, c)
    else refuse (.expectedDigitOrBlank c.peek) c

/-- The handle and the address of a tag directive. -/
def tagDirective (start : Mark) (c : Cursor) : Except Fault (Directive × Cursor) := do
  let (handle, c) ← tagHandle .directive start (c.skip (· == ' '))
  if c.peek != ' ' then faultAt .directive start (.expectedBlank c.peek) c
  else
    let (whole, c) ← address .directiveTag .directive start (c.skip (· == ' '))
    if isBlankOrEnd c.peek then return (.tag handle whole, c)
    else faultAt .directive start (.expectedBlank c.peek) c

/-- A directive, its line included: the directive, the place behind its value, and
the cursor on the next line. -/
def directiveToken (c : Cursor) : Except Error ((Directive × Mark) × Cursor) := do
  let start := c.mark
  let (name, c) := c.forward.span isNameChar
  if name.isEmpty || !isBlankOrEnd c.peek then
    (faultAt .directive start (.expectedName c.peek) c).mapError .fault
  else
    let (d, stop, c) ←
      if name == "YAML".toList then do
        let (d, c) ← versionDirective start c
        pure (d, c.mark, c)
      else if name == "TAG".toList then do
        let (d, c) ← (tagDirective start c).mapError .fault
        pure (d, c.mark, c)
      else pure (Directive.other, c.mark, c.skip (!isBreakOrEnd ·))
    return ((d, stop), ← (ignoredLine .directive start c).mapError .fault)

/-! ## Anchors and aliases -/

def endsName (ch : Char) : Bool := isSpaceOrEnd ch || "?:,]\x7d%@`".toList.contains ch

/-- The name of an anchor or an alias, from its sign on. -/
def nameToken (activity : Activity) (c : Cursor) : Except Fault (Text × Cursor) :=
  let start := c.mark
  let (name, c) := c.forward.span isNameChar
  if name.isEmpty || !endsName c.peek then faultAt activity start (.expectedName c.peek) c
  else .ok (Text.ofChars name, c)

/-! ## Block scalars -/

/-- What happens to the line breaks at the end of a block scalar. -/
inductive Chomping where
  | strip
  | clip
  | keep
  deriving DecidableEq, Repr

def Chomping.ofSign? (ch : Char) : Option Chomping :=
  if ch == '+' then some .keep else if ch == '-' then some .strip else none

def indentationDigit (start : Mark) (c : Cursor) : Except Fault (Option Nat × Cursor) :=
  if !c.peek.isDigit then .ok (none, c)
  else if c.peek == '0' then faultAt .blockScalar start .zeroIndentation c
  else .ok (some (Numeral.value [c.peek]), c.forward)

/-- The sign and the digit of a block scalar, in either order. -/
def blockIndicators (start : Mark) (c : Cursor) :
    Except Fault ((Chomping × Option Nat) × Cursor) := do
  let (found, c) ←
    match Chomping.ofSign? c.peek with
    | some chomping => do
      let (digit, c) ← indentationDigit start c.forward
      pure ((chomping, digit), c)
    | none => do
      let (digit, c) ← indentationDigit start c
      match digit, Chomping.ofSign? c.peek with
      | some _, some chomping => pure ((chomping, digit), c.forward)
      | _, _ => pure ((.clip, digit), c)
  if isBlankOrEnd c.peek then return (found, c)
  else faultAt .blockScalar start (.expectedIndicators c.peek) c

/-- Empty lines before the first line of a block scalar: their breaks, and the
greatest column that blanks reach; with fuel for the characters. -/
def leadingLines : (fuel : Nat) → (column : Nat) → Cursor → (List Char × Nat) × Cursor
  | 0, column, c => (([], column), c)
  | fuel + 1, column, c =>
    if c.peek == ' ' then
      let c := c.forward
      leadingLines fuel (max column c.column) c
    else if isBreak c.peek then
      let (br, c) := c.lineBreak
      let ((breaks, column), c) := leadingLines fuel column c
      ((br ++ breaks, column), c)
    else (([], column), c)

/-- The cursor behind the blanks up to a column. -/
def indented (indent : Nat) (c : Cursor) : Cursor :=
  let blanks := (c.rest.takeWhile (· == ' ')).length
  c.advance (min blanks (indent - c.column))

/-- Empty lines inside a block scalar, with fuel for them. -/
def emptyLines (indent : Nat) : (fuel : Nat) → Cursor → List Char × Cursor
  | 0, c => ([], indented indent c)
  | fuel + 1, c =>
    let c := indented indent c
    if isBreak c.peek then
      let (br, c) := c.lineBreak
      let (breaks, c) := emptyLines indent fuel c
      (br ++ breaks, c)
    else ([], c)

/-- Whether a character is a blank or a tab. -/
def isSpace (ch : Char) : Bool := ch == ' ' || ch == '\t'

/-- The lines of a block scalar with the empty lines `breaks` before the first of
them: the text up to the last line, the break behind it, and the empty lines after
it; with fuel for the lines. -/
def blockLines (folded : Bool) (indent : Nat) :
    (fuel : Nat) → (breaks : List Char) → Cursor → (List Char × List Char × List Char) × Cursor
  | 0, breaks, c => (([], [], breaks), c)
  | fuel + 1, breaks, c =>
    if c.column != indent || c.peek == '\x00' then (([], [], breaks), c)
    else
      let solid := !isSpace c.peek
      let (line, c) := c.span (!isBreakOrEnd ·)
      let (br, c) := c.lineBreak
      let (after, c) := emptyLines indent c.size c
      if c.column == indent && c.peek != '\x00' then
        let joint :=
          if folded && br == ['\n'] && solid && !isSpace c.peek then
            (if after.isEmpty then [' '] else [])
          else br
        let ((text, last, tail), c) := blockLines folded indent fuel after c
        ((breaks ++ line ++ joint ++ text, last, tail), c)
      else ((breaks ++ line, br, after), c)

/-- A block scalar inside a block of the given indentation. -/
def blockScalar (folded : Bool) (parent : Int) (c : Cursor) : Except Fault (Text × Cursor) := do
  let start := c.mark
  let ((chomping, digit), c) ← blockIndicators start c.forward
  let c ← ignoredLine .blockScalar start c
  let least := max (parent + 1).toNat 1
  let ((breaks, indent), c) :=
    match digit with
    | none =>
      let ((breaks, column), c) := leadingLines c.size 0 c
      ((breaks, max least column), c)
    | some n =>
      let indent := least + n - 1
      let (breaks, c) := emptyLines indent c.size c
      ((breaks, indent), c)
  let ((text, last, tail), c) := blockLines folded indent (c.size + 1) breaks c
  let ending := match chomping with
    | .strip => []
    | .clip => last
    | .keep => last ++ tail
  return (Text.ofChars (text ++ ending), c)

/-! ## Quoted scalars -/

def shortEscapes : List (Char × Char) :=
  [('0', '\x00'), ('a', '\x07'), ('b', '\x08'), ('t', '\t'), ('\t', '\t'), ('n', '\n'),
    ('v', '\x0b'), ('f', '\x0c'), ('r', '\r'), ('e', '\x1b'), (' ', ' '), ('"', '"'),
    ('\\', '\\'), ('/', '/'), ('N', '\x85'), ('_', '\xa0'), ('L', '\u2028'), ('P', '\u2029')]

def escapeDigits? (ch : Char) : Option Nat :=
  if ch == 'x' then some 2 else if ch == 'u' then some 4 else if ch == 'U' then some 8 else none

def numberedCode (n : Nat) : Except Error Code :=
  match Code.ofNat? n with
  | some code => .ok code
  | none => .error (.scalar (if n < 0x80000000 then .codePoint else .codePointSize))

/-- Breaks and blanks between the lines of a quoted scalar, with fuel for the lines. -/
def quotedBreaks (start : Mark) : (fuel : Nat) → Cursor → Except Error (List Char × Cursor)
  | 0, c => .ok ([], c)
  | fuel + 1, c =>
    if c.atSeparator then .error (.fault ⟨some (.quoted, some start), .unexpectedSeparator, c.mark⟩)
    else
      let c := c.skip isSpace
      if isBreak c.peek then do
        let (br, c) := c.lineBreak
        let (breaks, c) ← quotedBreaks start fuel c
        return (br ++ breaks, c)
      else .ok ([], c)

/-- What a line break and the empty lines after it stand for: a blank, or the breaks
after the first. -/
def fold (br breaks : List Char) : List Char :=
  if br != ['\n'] then br ++ breaks
  else if breaks.isEmpty then [' '] else breaks

/-- The blanks ahead in a quoted scalar, and what they stand for. -/
def quotedSpaces (start : Mark) (c : Cursor) : Except Error (List Char × Cursor) := do
  let (spaces, c) := c.span isSpace
  if c.peek == '\x00' then throw (.fault ⟨some (.quoted, some start), .unexpectedEnd, c.mark⟩)
  else if isBreak c.peek then
    let (br, c) := c.lineBreak
    let (breaks, c) ← quotedBreaks start (c.size + 1) c
    return (fold br breaks, c)
  else return (spaces, c)

/-- An escape of a double-quoted scalar, from behind its backslash. -/
def escape (start : Mark) (c : Cursor) : Except Error (Text × Cursor) := do
  let ch := c.peek
  let refuse {α : Type} (problem : Problem) (c : Cursor) : Except Error α :=
    .error (.fault ⟨some (.doubleQuoted, some start), problem, c.mark⟩)
  match shortEscapes.lookup ch with
  | some d => return ([.scalar d], c.forward)
  | none =>
    match escapeDigits? ch with
    | some n =>
      let c := c.forward
      let digits := (List.range n).map c.peekAt
      match digits.find? (!isHex ·) with
      | some bad => refuse (.expectedHex n bad) c
      | none =>
        let code ← numberedCode ((Numeral.ofDigits? 16 digits).getD 0)
        return ([code], c.advance n)
    | none =>
      if isBreak ch then
        let (breaks, c) ← quotedBreaks start (c.size + 1) c.lineBreak.2
        return (Text.ofChars breaks, c)
      else refuse (.unknownEscape ch) c

/-- Whether a character interrupts a run of plain characters in a quoted scalar. -/
def interruptsQuoted (ch : Char) : Bool :=
  ch == '\'' || ch == '"' || ch == '\\' || isSpaceOrEnd ch

/-- The rest of a quoted scalar and its closing quote, with fuel for its pieces. -/
def quotedRest (double : Bool) (start : Mark) :
    (fuel : Nat) → Cursor → Except Error (Text × Cursor)
  | 0, c => .error (.fault ⟨some (.quoted, some start), .unexpectedEnd, c.mark⟩)
  | fuel + 1, c => do
    let ch := c.peek
    let (piece, behind) ←
      if !interruptsQuoted ch then
        let (run, c) := c.span (!interruptsQuoted ·)
        pure (some (Text.ofChars run), c)
      else if !double && ch == '\'' && c.peekAt 1 == '\'' then pure (some "'", c.advance 2)
      else if (double && ch == '"') || (!double && ch == '\'') then pure (none, c.forward)
      else if double && ch == '\\' then do
        let (t, c) ← escape start c.forward
        pure (some t, c)
      else if ch == '\'' || ch == '"' || ch == '\\' then pure (some [.scalar ch], c.forward)
      else do
        let (spaces, c) ← quotedSpaces start c
        pure (some (Text.ofChars spaces), c)
    match piece with
    | none => return ([], behind)
    | some t =>
      let (more, c) ← quotedRest double start fuel behind
      return (t ++ more, c)

/-- A quoted scalar, from its opening quote on. -/
def quotedScalar (double : Bool) (c : Cursor) : Except Error (Text × Cursor) :=
  quotedRest double c.mark (c.size + 1) c.forward

/-! ## Plain scalars -/

/-- Whether a plain scalar ends at the character `ch`, which `next` follows. -/
def endsPlain (inFlow : Bool) (ch next : Char) : Bool :=
  isSpaceOrEnd ch
    || (ch == ':' && (isSpaceOrEnd next || (inFlow && ",[]\x7b\x7d".toList.contains next)))
    || (inFlow && ",?[]\x7b\x7d".toList.contains ch)

def plainRun (inFlow : Bool) : List Char → List Char
  | [] => []
  | ch :: rest =>
    if endsPlain inFlow ch (rest.headD '\x00') then [] else ch :: plainRun inFlow rest

/-- Empty lines after a line of a plain scalar, or nothing when a line follows that
separates documents; with fuel for the characters. -/
def plainBreaks : (fuel : Nat) → Cursor → Option (List Char) × Cursor
  | 0, c => (some [], c)
  | fuel + 1, c =>
    if c.peek == ' ' then plainBreaks fuel c.forward
    else if isBreak c.peek then
      let (br, c) := c.lineBreak
      if c.atSeparator then (none, c)
      else
        let (breaks, c) := plainBreaks fuel c
        (breaks.map (br ++ ·), c)
    else (some [], c)

/-- What separates two pieces of a plain scalar: blanks, or line breaks. -/
structure PlainGap where
  text : List Char
  broken : Bool

/-- The gap ahead in a plain scalar; nothing when a line follows that separates
documents. -/
def plainGap (c : Cursor) : Option PlainGap × Bool × Cursor :=
  let (blanks, c) := c.span (· == ' ')
  if isBreak c.peek then
    let (br, c) := c.lineBreak
    if c.atSeparator then (none, true, c)
    else
      let (breaks, c) := plainBreaks c.size c
      (breaks.map fun breaks => ⟨fold br breaks, true⟩, true, c)
  else (some ⟨blanks, false⟩, false, c)

/-- A plain scalar: its text, where it ends, whether a line ended in or behind it,
and the cursor behind the gap that follows it. -/
structure Plain where
  text : List Char
  stop : Mark
  broken : Bool
  behind : Cursor

/-- The pieces of a plain scalar after the gap `gap`, with fuel for the pieces. -/
def plainPieces (inFlow : Bool) (indent : Nat) :
    (fuel : Nat) → (gap : List Char) → (soFar : Plain) → Plain
  | 0, _, soFar => soFar
  | fuel + 1, gap, soFar =>
    let c := soFar.behind
    let run := plainRun inFlow c.rest
    if c.peek == '#' || run.isEmpty then soFar
    else
      let c := c.advance run.length
      let stop := c.mark
      let (next, broken, c) := plainGap c
      let soFar : Plain := ⟨soFar.text ++ gap ++ run, stop, broken, c⟩
      match next with
      | none => soFar
      | some next =>
        if next.text.isEmpty || c.peek == '#' || (!inFlow && c.column < indent) then soFar
        else plainPieces inFlow indent fuel next.text soFar

/-- A plain scalar inside a block of the given indentation. -/
def plainScalar (inFlow : Bool) (parent : Int) (c : Cursor) : Plain :=
  plainPieces inFlow (parent + 1).toNat (c.size + 1) [] ⟨[], c.mark, false, c⟩

end EditorLint.Yaml
