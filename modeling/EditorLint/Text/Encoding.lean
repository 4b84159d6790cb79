import EditorLint.Failure

/-!
# Encodings of documents

The encodings that a document can be opened with: UTF-8, UTF-8 with a byte order
mark in front, Latin-1 and ASCII.  Decoding and encoding fail where the encoding has
nothing for a byte or a code.
-/

namespace EditorLint

/-- An encoding of text files. -/
inductive Encoding where
  | utf8
  | markedUtf8
  | latin1
  | ascii
  deriving DecidableEq, Repr

namespace Encoding

def names : List (String × Encoding) :=
  [("utf-8", utf8), ("utf8", utf8), ("u8", utf8), ("utf-8-sig", markedUtf8),
    ("latin-1", latin1), ("latin1", latin1), ("latin", latin1), ("l1", latin1),
    ("iso-8859-1", latin1), ("iso8859-1", latin1), ("8859", latin1), ("cp819", latin1),
    ("ascii", ascii), ("us-ascii", ascii), ("646", ascii)]

/-- The encoding with a name; case does not matter, and an underscore is a hyphen. -/
def ofName? (name : Text) : Option Encoding :=
  let plain : Text := name.toLower.map fun c => if c.isChar '_' then .scalar '-' else c
  (names.find? fun (n, _) => plain.isString n).map (·.2)

/-- The text of bytes of which each is a character below `limit`. -/
def decodeBytes (encoding : String) (limit : Nat) (bytes : List UInt8) : Except Failure Text :=
  let before := bytes.takeWhile (·.toNat < limit)
  match bytes.drop before.length with
  | [] => .ok (bytes.map fun b => .scalar (.ofNat b.toNat))
  | b :: _ =>
    .error (.undecodable encoding [b] before.length
      ("ordinal not in range(" ++ toString limit ++ ")"))

/-- The bytes of a text whose codes are all below `limit`. -/
def encodeBytes (encoding : String) (limit : Nat) (t : Text) : Except Failure (List UInt8) :=
  let before := t.takeWhile (·.value < limit)
  let faulty := (t.drop before.length).takeWhile fun c => limit ≤ c.value
  match faulty with
  | [] => .ok (t.map fun c => .ofNat c.value)
  | c :: _ =>
    .error (.unencodable encoding ⟨c, before.length, before.length + faulty.length⟩
      ("ordinal not in range(" ++ toString limit ++ ")"))

/-- The text of bytes in UTF-8. -/
def decodeUtf8 (bytes : List UInt8) : Except Failure Text :=
  match Utf8.decode bytes with
  | .ok cs => .ok (Text.ofChars cs)
  | .error f => .error (.ofUtf8 f)

/-- The bytes of a text in UTF-8. -/
def encodeUtf8 (t : Text) : Except Failure (List UInt8) := (Utf8.encode t).mapError .ofSurrogate

/-- The text of bytes.  A mark at the beginning, or a beginning of one that is all
there is, is dropped where the encoding has a mark. -/
def decode : Encoding → List UInt8 → Except Failure Text
  | utf8, bytes => decodeUtf8 bytes
  | markedUtf8, bytes =>
    if Utf8.mark.isPrefixOf bytes then decodeUtf8 (bytes.drop 3)
    else if bytes.isPrefixOf Utf8.mark then .ok []
    else decodeUtf8 bytes
  | latin1, bytes => decodeBytes "latin-1" 256 bytes
  | ascii, bytes => decodeBytes "ascii" 128 bytes

def encode : Encoding → Text → Except Failure (List UInt8)
  | utf8, t => encodeUtf8 t
  | markedUtf8, t => (encodeUtf8 t).map (Utf8.mark ++ ·)
  | latin1, t => encodeBytes "latin-1" 256 t
  | ascii, t => encodeBytes "ascii" 128 t

end Encoding

end EditorLint
