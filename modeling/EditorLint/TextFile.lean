import EditorLint.FileSystem

/-!
# Text files

Writing a text to a file.  The file is emptied before the text is encoded, so it stays
empty when the encoding has nothing for a code.

Embedded: `write_text`, and opening a file for writing.
-/

namespace EditorLint.TextFile

/-- The file system with a text in the file at a path, and whether that went well. -/
def write (fs : FileSystem) (cwd path : Path) (encode : Text → Except Failure (List UInt8))
    (text : Text) : FileSystem × Except Failure Unit :=
  match fs.write cwd path [] with
  | .error e => (fs, .error e)
  | .ok emptied =>
    match encode text with
    | .error e => (emptied, .error e)
    | .ok bytes =>
      match emptied.write cwd path bytes with
      | .error e => (emptied, .error e)
      | .ok fs => (fs, .ok ())

end EditorLint.TextFile
