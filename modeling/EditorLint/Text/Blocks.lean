import EditorLint.Text.Newline
import EditorLint.Text.Utf8

/-!
# Text files read in blocks

A reader that does not need the whole file takes its bytes in blocks, and decodes each
block as it comes.  A character that is cut by the end of a block waits for the next
one.  So a fault is told by its place in its own block, counted from the beginning of
the character that waited, and the characters before that block can be read.
-/

namespace EditorLint.Blocks

def byteCount : Nat := 8192

/-- The characters of a file up to the first block with a fault, and the fault; `waiting`
are the bytes left over from the blocks before.  With fuel for the blocks. -/
def decodeAfter : (fuel : Nat) → (waiting bytes : List UInt8) → List Char × Option Utf8.DecodeFault
  | 0, _, _ => ([], none)
  | fuel + 1, waiting, bytes =>
    let block := waiting ++ bytes.take byteCount
    let rest := bytes.drop byteCount
    match Utf8.decode block with
    | .ok cs =>
      if rest.isEmpty then (cs, none)
      else
        let (more, fault) := decodeAfter fuel [] rest
        (cs ++ more, fault)
    | .error f =>
      if f.reason = .ended && !bytes.isEmpty then
        let (more, fault) := decodeAfter fuel (block.drop f.start) rest
        (((Utf8.decode (block.take f.start)).toOption.getD []) ++ more, fault)
      else ([], some f)

/-- The characters of a file up to the first block with a fault, every line end as a line
feed, and the fault. -/
def decode (bytes : List UInt8) : List Char × Option Utf8.DecodeFault :=
  let (cs, fault) := decodeAfter (bytes.length / byteCount + 2) [] bytes
  (Newline.normalize cs, fault)

end EditorLint.Blocks
