import EditorLint.Command.Spec

/-!
# Help

The help of a command on lines of at most 78 codes: how it is used, what it is for, its
options, and the commands below it.  Text is filled line by line with as many words as
fit; in a table the descriptions stand in a column of their own.
-/

namespace EditorLint.Help

def width : Nat := 78

/-- Lines filled with words, the first of them begun already. -/
def fillFrom (width : Nat) : Text → List Text → List Text
  | line, [] => [line]
  | line, word :: rest =>
    if line.length + 1 + word.length ≤ width then fillFrom width (line ++ " " ++ word) rest
    else line :: fillFrom width word rest

def fill (width : Nat) (t : Text) : List Text :=
  match (t.splitOn (Code.isChar ' ')).filter (!·.isEmpty) with
  | [] => []
  | word :: rest => fillFrom width word rest

def indented (n : Nat) (line : Text) : Text := List.replicate n (.scalar ' ') ++ line

def paragraph (t : Text) : List Text := (fill (width - 2) t).map (indented 2)

/-- One row of a table whose left column has `column` codes. -/
def row (column : Nat) (left right : Text) : List Text :=
  match fill (width - column - 4) right with
  | [] => [indented 2 left]
  | first :: rest =>
    indented 2 (Text.padRight (column + 2) left ++ first) :: rest.map (indented (column + 4))

/-- A table with a title, its left column as wide as it has to be. -/
def table (title : Text) (rows : List (Text × Text)) : List Text :=
  let column := (rows.map fun (left, _) => left.length).foldl max 0
  title :: rows.flatMap fun (left, right) => row column left right

def lines (c : CommandSpec) : List Text :=
  let about := c.about.flatMap fun (t : String) => paragraph t ++ [[]]
  let options := table "Options:" (c.options.map fun o => (o.heading, Text.ofString o.help))
  let below : List Text := if c.below.isEmpty then [] else
    [] :: table "Commands:" (c.below.map fun (name, help) => (Text.ofString name, Text.ofString help))
  [c.usage, []] ++ about ++ options ++ below

def text (c : CommandSpec) : Text := Text.join "\n" (lines c)

end EditorLint.Help
