import EditorLint.Yaml.Input
import EditorLint.Yaml.Lexeme

/-!
# From characters to tokens

A document as a list of tokens.  Indentation becomes the beginnings and ends of
blocks, and a scalar that turns out to be followed by a colon gets the tokens of a key
put in front of it.  Such a scalar is a *candidate*: it has to end on its line and
within 1024 characters, and until it is decided the tokens from it on are held back.
A candidate that begins a line at the indentation of the block has to become a key.

The tokens that come before a fault are delivered, so a reader that stops earlier
never sees the fault.
-/

namespace EditorLint.Yaml

/-- A token that a colon can make a key: which token it is, counted from the
beginning, whether it has to become one, and where it begins. -/
structure Candidate where
  number : Nat
  required : Bool
  mark : Mark
  deriving DecidableEq, Repr

/-- What is known between two tokens: the characters ahead, the tokens that are held
back, how many were delivered, the columns of the open blocks, the nesting of
brackets, and the candidates by nesting. -/
structure Lexer where
  cursor : Cursor
  held : List Token
  delivered : Nat
  indent : Int
  outer : List Int
  nesting : Nat
  keyAllowed : Bool
  candidates : List (Nat × Candidate)
  done : Bool

namespace Lexer

def ofChars (cs : List Char) : Lexer where
  cursor := .ofChars cs
  held := [⟨.streamStart, ⟨0, 0, 0⟩, ⟨0, 0, 0⟩⟩]
  delivered := 0
  indent := -1
  outer := []
  nesting := 0
  keyAllowed := true
  candidates := []
  done := false

def mark (l : Lexer) : Mark := l.cursor.mark

def push (l : Lexer) (t : Token) : Lexer := { l with held := l.held ++ [t] }

/-- A token of `n` characters. -/
def pushAhead (l : Lexer) (kind : TokenKind) (n : Nat) : Lexer :=
  let c := l.cursor.advance n
  { l with cursor := c, held := l.held ++ [⟨kind, l.mark, c.mark⟩] }

def pushHere (l : Lexer) (kind : TokenKind) : Lexer := l.push ⟨kind, l.mark, l.mark⟩

/-- A fault here, found while doing nothing in particular. -/
def refuse {α : Type} (l : Lexer) (problem : Problem) : Except Error α :=
  .error (.fault ⟨none, problem, l.mark⟩)

/-! ## Candidates -/

/-- A candidate that has to become a key and cannot any more. -/
def missed {α : Type} (l : Lexer) (k : Candidate) : Except Error α :=
  .error (.fault ⟨some (.simpleKey, some k.mark), .missingColon, l.mark⟩)

/-- Whether a candidate is out of reach of a colon here. -/
def isStale (l : Lexer) (k : Candidate) : Bool :=
  k.mark.line != l.mark.line || l.mark.index - k.mark.index > 1024

/-- The lexer without the candidates that are out of reach. -/
def dropStale (l : Lexer) : Except Error Lexer :=
  match l.candidates.find? fun (_, k) => l.isStale k && k.required with
  | some (_, k) => l.missed k
  | none => .ok { l with candidates := l.candidates.filter fun (_, k) => !l.isStale k }

def candidate? (l : Lexer) : Option Candidate := l.candidates.lookup l.nesting

/-- The lexer without the candidate at the present nesting, which cannot become a key
any more. -/
def giveUp (l : Lexer) : Except Error Lexer :=
  match l.candidate? with
  | none => .ok l
  | some k =>
    if k.required then l.missed k
    else .ok { l with candidates := l.candidates.filter fun (n, _) => n != l.nesting }

/-- The next token becomes a candidate, where a key is allowed. -/
def propose (l : Lexer) : Except Error Lexer :=
  if !l.keyAllowed then .ok l
  else do
    let required := l.nesting == 0 && l.indent == (l.cursor.column : Int)
    let l ← l.giveUp
    return { l with
      candidates := l.candidates ++ [(l.nesting, ⟨l.delivered + l.held.length, required, l.mark⟩)] }

/-! ## Indentation -/

/-- Closes the blocks that stand further right than `column`; there are `outer` of
them at most. -/
def unwindTo (column : Int) : List Int → Lexer → Lexer
  | [], l => l
  | i :: rest, l =>
    if l.indent > column then
      unwindTo column rest { l.pushHere .blockEnd with indent := i, outer := rest }
    else l

/-- Closes the blocks that stand further right than `column`, outside brackets. -/
def unwind (l : Lexer) (column : Int) : Lexer :=
  if l.nesting > 0 then l else unwindTo column l.outer l

/-- Opens a block at a column, if none is open there: whether it did. -/
def openBlock (l : Lexer) (column : Nat) : Bool × Lexer :=
  if l.indent < column then (true, { l with indent := column, outer := l.indent :: l.outer })
  else (false, l)

/-! ## Tokens -/

/-- The blanks, comments and line ends ahead, with fuel for the lines. -/
def skipBlanks : (fuel : Nat) → Lexer → Lexer
  | 0, l => l
  | fuel + 1, l =>
    let c := l.cursor.skip (· == ' ')
    let c := if c.peek == '#' then c.skip (!isBreakOrEnd ·) else c
    if isBreak c.peek then
      skipBlanks fuel { l with cursor := c.lineBreak.2, keyAllowed := l.keyAllowed || l.nesting == 0 }
    else { l with cursor := c }

/-- The lexer behind everything that is no token; a mark at the very beginning is no
token either. -/
def skipToToken (l : Lexer) : Lexer :=
  let c := l.cursor
  let c := if c.mark.index == 0 && c.peek == '\uFEFF' then c.forward else c
  skipBlanks (c.size + 1) { l with cursor := c }

def endStream (l : Lexer) : Except Error Lexer := do
  let l ← (l.unwind (-1)).giveUp
  return { l.pushHere .streamEnd with keyAllowed := false, candidates := [], done := true }

def directive (l : Lexer) : Except Error Lexer := do
  let l ← (l.unwind (-1)).giveUp
  let ((d, stop), c) ← directiveToken l.cursor
  return { l.push ⟨.directive d, l.mark, stop⟩ with keyAllowed := false, cursor := c }

def documentMark (l : Lexer) (kind : TokenKind) : Except Error Lexer := do
  let l ← (l.unwind (-1)).giveUp
  return { l.pushAhead kind 3 with keyAllowed := false }

def openBracket (l : Lexer) (kind : TokenKind) : Except Error Lexer := do
  let l ← l.propose
  return { l.pushAhead kind 1 with nesting := l.nesting + 1, keyAllowed := true }

def closeBracket (l : Lexer) (kind : TokenKind) : Except Error Lexer := do
  let l ← l.giveUp
  return { l.pushAhead kind 1 with nesting := l.nesting - 1, keyAllowed := false }

def comma (l : Lexer) : Except Error Lexer := do
  let l ← { l with keyAllowed := true }.giveUp
  return l.pushAhead .flowEntry 1

/-- Opens a block at the present column, if none is open there. -/
def openBlockHere (l : Lexer) (kind : TokenKind) : Lexer :=
  let (opened, l) := l.openBlock l.cursor.column
  if opened then l.pushHere kind else l

def entry (l : Lexer) : Except Error Lexer := do
  let l ←
    if l.nesting > 0 then pure l
    else if !l.keyAllowed then l.refuse .entryNotAllowed
    else pure (l.openBlockHere .blockSequenceStart)
  let l ← { l with keyAllowed := true }.giveUp
  return l.pushAhead .blockEntry 1

def explicitKey (l : Lexer) : Except Error Lexer := do
  let l ←
    if l.nesting > 0 then pure l
    else if !l.keyAllowed then l.refuse .keyNotAllowed
    else pure (l.openBlockHere .blockMappingStart)
  let l ← { l with keyAllowed := l.nesting == 0 }.giveUp
  return l.pushAhead .key 1

/-- The candidate becomes a key: tokens are put in front of it. -/
def settleKey (l : Lexer) (k : Candidate) : Lexer :=
  let place := k.number - l.delivered
  let at' (kind : TokenKind) : Token := ⟨kind, k.mark, k.mark⟩
  let l := { l with candidates := l.candidates.filter fun (n, _) => n != l.nesting }
  let (opened, l) := if l.nesting > 0 then (false, l) else l.openBlock k.mark.column
  let front := if opened then [at' .blockMappingStart, at' .key] else [at' .key]
  { l with held := l.held.take place ++ front ++ l.held.drop place, keyAllowed := false }

def value (l : Lexer) : Except Error Lexer := do
  let l ←
    match l.candidate? with
    | some k => pure (l.settleKey k)
    | none =>
      let l ←
        if l.nesting > 0 then pure l
        else if !l.keyAllowed then l.refuse .valueNotAllowed
        else pure (l.openBlockHere .blockMappingStart)
      { l with keyAllowed := l.nesting == 0 }.giveUp
  return l.pushAhead .value 1

/-- A token that may begin a key and after which none may begin. -/
def keyable (l : Lexer) (read : Cursor → Except Error (TokenKind × Cursor)) : Except Error Lexer := do
  let l ← l.propose
  let (kind, c) ← read l.cursor
  return { l.push ⟨kind, l.mark, c.mark⟩ with cursor := c, keyAllowed := false }

def plain (l : Lexer) : Except Error Lexer := do
  let l ← l.propose
  let p := plainScalar (l.nesting > 0) l.indent l.cursor
  return { l.push ⟨.scalar (Text.ofChars p.text) true, l.mark, p.stop⟩ with
    cursor := p.behind, keyAllowed := p.broken }

def block (l : Lexer) (folded : Bool) : Except Error Lexer := do
  let l ← { l with keyAllowed := true }.giveUp
  let (text, c) ← (blockScalar folded l.indent l.cursor).mapError .fault
  return { l.push ⟨.scalar text false, l.mark, c.mark⟩ with cursor := c }

def isIndicator (ch : Char) : Bool := "-?:,[]\x7b\x7d#&*!|>'\"%@`".toList.contains ch

def startsPlain (l : Lexer) : Bool :=
  let ch := l.cursor.peek
  !(isSpaceOrEnd ch || isIndicator ch)
    || (!isSpaceOrEnd (l.cursor.peekAt 1) && (ch == '-' || (l.nesting == 0 && (ch == '?' || ch == ':'))))

/-- The next token, and whatever has to stand in front of it. -/
def fetch (l : Lexer) : Except Error Lexer := do
  let l ← l.skipToToken.dropStale
  let l := l.unwind l.cursor.column
  let c := l.cursor
  let ch := c.peek
  let spaced := isSpaceOrEnd (c.peekAt 1)
  let inFlow := l.nesting > 0
  if c.rest.isEmpty then l.endStream
  else if ch == '%' && c.column == 0 then l.directive
  else if ch == '-' && c.column == 0 && c.atSeparator then l.documentMark .documentStart
  else if ch == '.' && c.column == 0 && c.atSeparator then l.documentMark .documentEnd
  else if ch == '[' then l.openBracket .flowSequenceStart
  else if ch == '\x7b' then l.openBracket .flowMappingStart
  else if ch == ']' then l.closeBracket .flowSequenceEnd
  else if ch == '\x7d' then l.closeBracket .flowMappingEnd
  else if ch == ',' then l.comma
  else if ch == '-' && spaced then l.entry
  else if ch == '?' && (inFlow || spaced) then l.explicitKey
  else if ch == ':' && (inFlow || spaced) then l.value
  else if ch == '*' then
    l.keyable fun c => ((nameToken .reference c).map fun (n, c) => (.reference n, c)).mapError .fault
  else if ch == '&' then
    l.keyable fun c => ((nameToken .anchor c).map fun (n, c) => (.anchor n, c)).mapError .fault
  else if ch == '!' then l.keyable fun c => (tagToken c).mapError .fault
  else if ch == '|' && !inFlow then l.block false
  else if ch == '>' && !inFlow then l.block true
  else if ch == '\'' then l.keyable fun c => (quotedScalar false c).map fun (t, c) => (.scalar t false, c)
  else if ch == '"' then l.keyable fun c => (quotedScalar true c).map fun (t, c) => (.scalar t false, c)
  else if l.startsPlain then l.plain
  else .error (.fault ⟨some (.nextToken, none), .cannotStart ch, l.mark⟩)

/-- Whether the first token that is held back cannot be delivered yet. -/
def isHeldBack (l : Lexer) : Bool :=
  l.candidates.any fun (_, k) => k.number == l.delivered

/-- The lexer behind the next token.  A token that ends where the readable text does, and
a fault that stands there, give way to `ending`: the text goes on behind it. -/
def step (ending : Option Error) (l : Lexer) : Except Error Lexer :=
  match ending, l.fetch with
  | none, result => result
  | some e, .ok l' => if l'.cursor.rest.isEmpty then .error e else .ok l'
  | some e, .error (.fault f) =>
    .error (if l.cursor.size ≤ f.mark.index then e else .fault f)
  | some _, .error e => .error e

/-- The tokens of a document, and the fault that ends them if one does; with fuel for
the tokens that are read and delivered. -/
def run (ending : Option Error) : (fuel : Nat) → Lexer → List Token × Option Error
  | 0, _ => ([], none)
  | fuel + 1, l =>
    if l.done then (l.held, none)
    else match l.held with
      | [] =>
        match l.step ending with
        | .ok l => run ending fuel l
        | .error e => ([], some e)
      | t :: rest =>
        match l.dropStale with
        | .error e => ([], some e)
        | .ok l =>
          if l.isHeldBack then
            match l.step ending with
            | .ok l => run ending fuel l
            | .error e => ([], some e)
          else
            let (ts, e) := run ending fuel { l with held := rest, delivered := l.delivered + 1 }
            (t :: ts, e)

end Lexer

/-- The tokens of a document, and the fault that ends them if one does. -/
def tokens (input : Input) : List Token × Option Error :=
  (Lexer.ofChars input.chars).run input.ending (16 * (input.chars.length + 4))

end EditorLint.Yaml
