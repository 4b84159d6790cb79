import EditorLint.Text.Basic

/-!
# Line ends

Reading a text file turns each of the line ends CR LF and CR into LF.
-/

namespace EditorLint.Newline

def normalize : List Char → List Char
  | '\r' :: '\n' :: rest => '\n' :: normalize rest
  | '\r' :: rest => '\n' :: normalize rest
  | c :: rest => c :: normalize rest
  | [] => []

end EditorLint.Newline
