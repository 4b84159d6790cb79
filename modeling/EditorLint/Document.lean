import EditorLint.Text.Encoding
import EditorLint.TextFile

/-!
# Documents on disk

A file document is a file that has been read into memory.  Edits change the text in
memory only; saving writes it back.  Line ends and byte order marks are neither added
nor taken away.

Embedded: `FileDocument`, with its constructor as `openFile`, `replace_text` and `save`.
-/

namespace EditorLint

/-- A file and the text that is being edited. -/
structure FileDocument where
  path : Path
  encoding : Encoding
  text : Text
  deriving Repr

namespace FileDocument

def openFile (fs : FileSystem) (cwd path : Path) (encoding : Text) : Except Failure FileDocument := do
  let path := cwd.join path
  let bytes ← fs.read cwd path
  match Encoding.ofName? encoding with
  | none => throw (.unknownEncoding encoding)
  | some encoding => return ⟨path, encoding, ← encoding.decode bytes⟩

def replaceText (d : FileDocument) (text : Text) : FileDocument := { d with text }

/-- Writes the text back.  The file is emptied first, so it stays empty when the text
cannot be encoded. -/
def save (d : FileDocument) (cwd : Path) (fs : FileSystem) : FileSystem × Except Failure Unit :=
  TextFile.write fs cwd d.path d.encoding.encode d.text

end FileDocument

end EditorLint
