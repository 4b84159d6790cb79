import EditorLint.Text.Basic

/-!
# Paths

A path is a root and a list of parts.  Reading one drops empty parts and parts
that are a single dot, and keeps `..`; two leading slashes, and exactly two, are
a root of their own.  `normalize` also folds `..` into the part before it, without
a look at the file system.
-/

namespace EditorLint

/-- Where a path starts. -/
inductive Root where
  | relative
  | slash
  | doubleSlash
  deriving DecidableEq, Repr

/-- A path: its root and its parts. -/
structure Path where
  root : Root
  parts : List Text
  deriving DecidableEq, Repr

namespace Path

def rootOf : Text → Root
  | .scalar '/' :: .scalar '/' :: .scalar '/' :: _ => .slash
  | .scalar '/' :: .scalar '/' :: _ => .doubleSlash
  | .scalar '/' :: _ => .slash
  | _ => .relative

/-- The parts of a path's text, without the empty ones and single dots. -/
def partsOf (t : Text) : List Text :=
  (t.splitOn (Code.isChar '/')).filter fun part => !part.isEmpty && !part.isString "."

def ofText (t : Text) : Path := ⟨rootOf t, partsOf t⟩

def ofString (s : String) : Path := ofText s

def rootText : Root → Text
  | .relative => []
  | .slash => "/"
  | .doubleSlash => "//"

/-- The text of a path; an empty relative path is a dot. -/
def text (p : Path) : Text :=
  match p.root, p.parts with
  | .relative, [] => "."
  | root, parts => rootText root ++ Text.join "/" parts

/-- The path as a string, to print it. -/
def toString (p : Path) : String := String.ofList p.text.shown

def isAbsolute (p : Path) : Bool := p.root != .relative

/-- The path `q` as seen from `p`. -/
def join (p q : Path) : Path :=
  if q.isAbsolute then q else ⟨p.root, p.parts ++ q.parts⟩

/-- The path of a name below `p`. -/
def child (p : Path) (name : Text) : Path := p.join (ofText name)

/-- The path without its last part; a path without parts is its own parent. -/
def parent (p : Path) : Path := ⟨p.root, p.parts.dropLast⟩

def name (p : Path) : Text := p.parts.getLastD []

/-- One more part after folded ones: `..` takes the last of them away, unless that
is itself a `..` that nothing could take away.  At a root it does nothing. -/
def foldPart (rooted : Bool) (done : List Text) (part : Text) : List Text :=
  if part.isString ".." then
    if done.isEmpty then (if rooted then [] else [part])
    else if (done.getLastD []).isString ".." then done ++ [part]
    else done.dropLast
  else done ++ [part]

/-- The path with every `..` folded into the part before it. -/
def normalize (p : Path) : Path := ⟨p.root, p.parts.foldl (foldPart p.isAbsolute) []⟩

def resolveLexically (cwd p : Path) : Path := (cwd.join p).normalize

end Path

end EditorLint
