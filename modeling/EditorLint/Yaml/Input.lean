import EditorLint.Text.Blocks
import EditorLint.Yaml.Cursor

/-!
# The text of a document

A document is read bit by bit, and what keeps the rest of it from being read matters
only when reading comes to it.  Characters come in blocks, the first one twice as long
as the others, and a block with a character that no document contains is not read.
-/

namespace EditorLint.Yaml

/-- The characters of a document that can be read, and what keeps the rest from it. -/
structure Input where
  chars : List Char
  ending : Option Error

namespace Input

def blockSize : Nat := 4096

/-- How many of `n` characters stand in complete blocks. -/
def complete (n : Nat) : Nat :=
  let blocks := n / blockSize
  if blocks < 2 then 0 else blocks * blockSize

/-- The characters before the first one that no document contains. -/
def ofChars (cs : List Char) (ending : Option Error) : Input :=
  match cs.find? (!isPrintable ·) with
  | none => ⟨cs, ending⟩
  | some c =>
    let position := (cs.takeWhile isPrintable).length
    ⟨cs.take (complete position), some (.unprintable c position)⟩

def ofBytes (bytes : List UInt8) : Input :=
  match Blocks.decode bytes with
  | (cs, none) => ofChars cs none
  | (cs, some f) => ofChars (cs.take (complete cs.length)) (some (.undecodable f))

end Input

end EditorLint.Yaml
