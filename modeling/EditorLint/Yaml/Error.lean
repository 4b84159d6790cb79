import EditorLint.Text.Literal
import EditorLint.Text.Utf8
import EditorLint.Yaml.ScalarError

/-!
# Faults of YAML documents

A fault says what was wrong and where, and often what was being read and where that
began.  The second place is left out of the wording when it is the first one.
-/

namespace EditorLint.Yaml

/-- A place in a document: the characters, lines and columns before it. -/
structure Mark where
  index : Nat
  line : Nat
  column : Nat
  deriving DecidableEq, Repr, Inhabited

/-- The kinds of nodes. -/
inductive NodeKind where
  | scalar
  | sequence
  | mapping
  deriving DecidableEq, Repr

def NodeKind.word : NodeKind → String
  | scalar => "scalar"
  | sequence => "sequence"
  | mapping => "mapping"

/-- What was being read when a fault was found. -/
inductive Activity where
  | nextToken
  | simpleKey
  | directive
  | directiveTag
  | reference
  | anchor
  | tag
  | tagContent
  | blockScalar
  | doubleQuoted
  | quoted
  | node
  | blockNode
  | flowNode
  | blockCollection
  | blockMapping
  | flowSequence
  | flowMapping
  | singleDocument
  | duplicateAnchor (name : Text)
  | mappingValue
  | orderedMap
  | pairs
  deriving DecidableEq, Repr

def Activity.text : Activity → Text
  | nextToken => "while scanning for the next token"
  | simpleKey => "while scanning a simple key"
  | directive => "while scanning a directive"
  | directiveTag => "while parsing a directive"
  | reference => "while scanning an alias"
  | anchor => "while scanning an anchor"
  | tag => "while scanning a tag"
  | tagContent => "while parsing a tag"
  | blockScalar => "while scanning a block scalar"
  | doubleQuoted => "while scanning a double-quoted scalar"
  | quoted => "while scanning a quoted scalar"
  | node => "while parsing a node"
  | blockNode => "while parsing a block node"
  | flowNode => "while parsing a flow node"
  | blockCollection => "while parsing a block collection"
  | blockMapping => "while parsing a block mapping"
  | flowSequence => "while parsing a flow sequence"
  | flowMapping => "while parsing a flow mapping"
  | singleDocument => "expected a single document in the stream"
  | duplicateAnchor name => "found duplicate anchor " ++ Literal.quote name ++ "; first occurrence"
  | mappingValue => "while constructing a mapping"
  | orderedMap => "while constructing an ordered map"
  | pairs => "while constructing pairs"

/-- What was wrong.  A character that ended what was expected is given as it was
found, U+0000 standing for the end of the document. -/
inductive Problem where
  | cannotStart (found : Char)
  | missingColon
  | entryNotAllowed
  | keyNotAllowed
  | valueNotAllowed
  | expectedName (found : Char)
  | expectedDigitOrDot (found : Char)
  | expectedDigitOrBlank (found : Char)
  | expectedDigit (found : Char)
  | expectedBlank (found : Char)
  | expectedLineEnd (found : Char)
  | expectedTagEnd (found : Char)
  | expectedTagMark (found : Char)
  | expectedAddress (found : Char)
  | expectedAddressEscape (found : Char)
  | undecodableAddress (message : Text)
  | zeroIndentation
  | expectedIndicators (found : Char)
  | expectedHex (count : Nat) (found : Char)
  | unknownEscape (found : Char)
  | unexpectedEnd
  | unexpectedSeparator
  | duplicateVersion
  | incompatibleVersion
  | duplicateHandle (handle : Text)
  | undefinedHandle (handle : Text)
  | expectedDocumentStart (found : String)
  | expectedContent (found : String)
  | expectedBlockEnd (found : String)
  | expectedSequenceSeparator (found : String)
  | expectedMappingSeparator (found : String)
  | anotherDocument
  | undefinedAlias (name : Text)
  | secondOccurrence
  | undefinedTag (tag : Text)
  | expectedKind (expected found : NodeKind)
  | unhashableKey
  | cannotMerge (found : NodeKind)
  | cannotMergeItem (found : NodeKind)
  | expectedItems (found : NodeKind)
  | expectedSingleton (found : NodeKind)
  | notSingle (count : Nat)
  | notBase64Text (message : Text)
  | notBase64 (message : Text)
  deriving DecidableEq, Repr

def foundChar (c : Char) : Text := Literal.quote [.scalar c]

def foundToken (id : String) : Text := Literal.quote id

def Problem.text : Problem → Text
  | cannotStart c => "found character " ++ foundChar c ++ " that cannot start any token"
  | missingColon => "could not find expected ':'"
  | entryNotAllowed => "sequence entries are not allowed here"
  | keyNotAllowed => "mapping keys are not allowed here"
  | valueNotAllowed => "mapping values are not allowed here"
  | expectedName c => "expected alphabetic or numeric character, but found " ++ foundChar c
  | expectedDigitOrDot c => "expected a digit or '.', but found " ++ foundChar c
  | expectedDigitOrBlank c => "expected a digit or ' ', but found " ++ foundChar c
  | expectedDigit c => "expected a digit, but found " ++ foundChar c
  | expectedBlank c => "expected ' ', but found " ++ foundChar c
  | expectedLineEnd c => "expected a comment or a line break, but found " ++ foundChar c
  | expectedTagEnd c => "expected '>', but found " ++ foundChar c
  | expectedTagMark c => "expected '!', but found " ++ foundChar c
  | expectedAddress c => "expected URI, but found " ++ foundChar c
  | expectedAddressEscape c =>
    "expected URI escape sequence of 2 hexadecimal numbers, but found " ++ foundChar c
  | undecodableAddress message => message
  | zeroIndentation => "expected indentation indicator in the range 1-9, but found 0"
  | expectedIndicators c => "expected chomping or indentation indicators, but found " ++ foundChar c
  | expectedHex n c =>
    "expected escape sequence of " ++ Text.ofNat n ++ " hexadecimal numbers, but found " ++ foundChar c
  | unknownEscape c => "found unknown escape character " ++ foundChar c
  | unexpectedEnd => "found unexpected end of stream"
  | unexpectedSeparator => "found unexpected document separator"
  | duplicateVersion => "found duplicate YAML directive"
  | incompatibleVersion => "found incompatible YAML document (version 1.* is required)"
  | duplicateHandle handle => "duplicate tag handle " ++ Literal.quote handle
  | undefinedHandle handle => "found undefined tag handle " ++ Literal.quote handle
  | expectedDocumentStart id => "expected '<document start>', but found " ++ foundToken id
  | expectedContent id => "expected the node content, but found " ++ foundToken id
  | expectedBlockEnd id => "expected <block end>, but found " ++ foundToken id
  | expectedSequenceSeparator id => "expected ',' or ']', but got " ++ foundToken id
  | expectedMappingSeparator id => "expected ',' or '\x7d', but got " ++ foundToken id
  | anotherDocument => "but found another document"
  | undefinedAlias name => "found undefined alias " ++ Literal.quote name
  | secondOccurrence => "second occurrence"
  | undefinedTag tag => "could not determine a constructor for the tag " ++ Literal.quote tag
  | expectedKind expected found =>
    "expected a " ++ expected.word ++ " node, but found " ++ found.word
  | unhashableKey => "found unhashable key"
  | cannotMerge found =>
    "expected a mapping or list of mappings for merging, but found " ++ found.word
  | cannotMergeItem found => "expected a mapping for merging, but found " ++ found.word
  | expectedItems found => "expected a sequence, but found " ++ found.word
  | expectedSingleton found => "expected a mapping of length 1, but found " ++ found.word
  | notSingle count => "expected a single mapping item, but found " ++ Text.ofNat count ++ " items"
  | notBase64Text message => "failed to convert base64 data into ascii: " ++ message
  | notBase64 message => "failed to decode base64 data: " ++ message

/-- What was wrong and where, and what was being read and where that began. -/
structure Fault where
  context : Option (Activity × Option Mark)
  problem : Problem
  mark : Mark
  deriving DecidableEq, Repr

/-- A place as a line of a message about a document with a name. -/
def Mark.text (name : Text) (m : Mark) : Text :=
  "  in \"" ++ name ++ "\", line " ++ Text.ofNat (m.line + 1) ++ ", column "
    ++ Text.ofNat (m.column + 1)

/-- The wording of a fault in a document with a name. -/
def Fault.text (name : Text) (f : Fault) : Text :=
  let context : List Text := match f.context with
    | none => []
    | some (activity, none) => [activity.text]
    | some (activity, some mark) =>
      if mark.line = f.mark.line ∧ mark.column = f.mark.column then [activity.text]
      else [activity.text, mark.text name]
  Text.join "\n" (context ++ [f.problem.text, f.mark.text name])

/-- Why a document has no value: a fault of the document, a character that no document
contains, bytes that are no characters, an escape or a scalar that stands for nothing,
or collections that stand too deep inside one another. -/
inductive Error where
  | fault (f : Fault)
  | unprintable (c : Char) (position : Nat)
  | undecodable (f : Utf8.DecodeFault)
  | scalar (e : ScalarError)
  | tooDeep
  deriving DecidableEq, Repr

/-- The wording of an error in a document with a name. -/
def Error.text (name : Text) : Error → Text
  | fault f => f.text name
  | unprintable c position =>
    "unacceptable character #x" ++ Text.hex 4 c.toNat ++ ": special characters are not allowed\n  in \""
      ++ name ++ "\", position " ++ Text.ofNat position
  | undecodable f => f.reason.message
  | scalar e => e.message
  | tooDeep => "collections stand too deep inside one another"

end EditorLint.Yaml
