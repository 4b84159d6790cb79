import EditorLint.Failure
import EditorLint.Path

/-!
# Configuration search

The configuration that applies to a document is the nearest one: the search tries
every name in a directory before it goes on to the parent, so a closer directory
always beats an earlier name.  It ends at the root, which is tried once, or after
a bounded number of steps upward.

The search sees the file system only through `probe`, which says whether something
is at a path and may fail.

Embedded: `build_search_spec` (`spec`), `locate`, `locate_with_spec` (`locateBy`) and
`_normalize`, which folds `..` without looking at links.
-/

namespace EditorLint

/-- The names that are tried in each directory, in order, and the most steps upward. -/
structure SearchSpec where
  names : List Text
  maxDepth : Int
  deriving DecidableEq, Repr

namespace Search

def defaultNames : List Text :=
  ["eslint.config.js", "eslint.config.mjs", "eslint.config.cjs", "eslint.config.ts",
    "eslint.config.mts", "eslint.config.cts"]

/-- The most steps upward unless the caller says otherwise. -/
def defaultDepth : Int := 100

/-- A list with each element where it came first. -/
def distinct (names : List Text) : List Text :=
  names.foldl (fun seen name => if seen.contains name then seen else seen ++ [name]) []

/-- The names of the user first, then the default ones, each once. -/
def spec (names : List Text) (maxDepth : Int) : SearchSpec :=
  ⟨distinct (names ++ defaultNames), maxDepth⟩

/-- The first of the names that is in the directory. -/
def inDirectory (probe : Path → Except Failure Bool) (directory : Path) :
    List Text → Except Failure (Option Path)
  | [] => .ok none
  | name :: rest => do
    if ← probe (directory.child name) then return some (directory.child name)
    else inDirectory probe directory rest

/-- Searches at most `levels` directories, from `directory` upward. -/
def upward (probe : Path → Except Failure Bool) (names : List Text) :
    (levels : Nat) → (directory : Path) → Except Failure (Option Path)
  | 0, _ => .ok none
  | levels + 1, directory => do
    match ← inDirectory probe directory names with
    | some hit => return some hit
    | none =>
      if directory.parent == directory then return none
      else upward probe names levels directory.parent

/-- The nearest of the names, from `start` upward, as a normalized absolute path. -/
def locate (probe : Path → Except Failure Bool) (cwd start : Path) (names : List Text)
    (maxDepth : Int) : Except Failure (Option Path) :=
  return (← upward probe names (maxDepth + 1).toNat (cwd.resolveLexically start)).map
    cwd.resolveLexically

def locateBy (probe : Path → Except Failure Bool) (cwd start : Path) (spec : SearchSpec) :
    Except Failure (Option Path) :=
  locate probe cwd start spec.names spec.maxDepth

end Search

end EditorLint
