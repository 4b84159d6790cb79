import EditorLint.Document

/-!
# Open documents

A document that is open in the editor: a buffer of the editor, which may refuse to be
changed or saved and counts how often that happened, or a file on disk.  A proposed text
replaces the whole body, as one edit, and only if it differs from what is there.

Embedded: what the requests use of `EditorDocument`, and `FileDocument` as one kind of it.
Assumed of a buffer of the editor: it holds the text that it was given, or refuses.
-/

namespace EditorLint

/-- A buffer of the editor. -/
structure Buffer where
  path : Path
  text : Text
  replaceFailure : Option Failure
  saveFailure : Option Failure
  edits : Nat
  saves : Nat

/-- An open document. -/
inductive OpenDocument where
  | buffer (b : Buffer)
  | file (d : FileDocument)

namespace OpenDocument

def path : OpenDocument → Path
  | buffer b => b.path
  | file d => d.path

def text : OpenDocument → Text
  | buffer b => b.text
  | file d => d.text

def typed (text : Text) : OpenDocument → OpenDocument
  | buffer b => buffer { b with text }
  | file d => file (d.replaceText text)

def replaceText (text : Text) : OpenDocument → Except Failure OpenDocument
  | buffer b =>
    match b.replaceFailure with
    | some f => .error f
    | none => .ok (buffer { b with text, edits := b.edits + 1 })
  | file d => .ok (file (d.replaceText text))

def save (fs : FileSystem) (cwd : Path) : OpenDocument → FileSystem × Except Failure OpenDocument
  | buffer b =>
    match b.saveFailure with
    | some f => (fs, .error f)
    | none => (fs, .ok (buffer { b with saves := b.saves + 1 }))
  | file d =>
    let (fs, result) := d.save cwd fs
    (fs, result.map fun _ => file d)

/-- Puts a proposed text in the place of the document's, if there is one and it differs:
the changed document, or nothing. -/
def applyFix (d : OpenDocument) (fix : Option Text) : Except Failure (Option OpenDocument) :=
  match fix with
  | none => .ok none
  | some text => if text = d.text then .ok none else (d.replaceText text).map some

end OpenDocument

end EditorLint
