import EditorLint.Diagnostic

/-!
# Published issues

The diagnostics that are on show, for each document path.  Publishing replaces
what was on show for the path and leaves every other path alone.

Embedded: `IssueCollection`, which copies the lists that it takes and gives.
-/

namespace EditorLint

/-- The diagnostics on show. -/
structure IssueStore where
  entries : List (Path × List Diagnostic)
  deriving Repr

namespace IssueStore

def empty : IssueStore := ⟨[]⟩

def get (s : IssueStore) (path : Path) : List Diagnostic :=
  match s.entries.find? fun (p, _) => p == path with
  | some (_, ds) => ds
  | none => []

/-- The store with `ds` on show for a path. -/
def set (s : IssueStore) (path : Path) (ds : List Diagnostic) : IssueStore :=
  ⟨(path, ds) :: s.entries.filter fun (p, _) => p != path⟩

theorem get_set_self (s : IssueStore) (path : Path) (ds : List Diagnostic) :
    (s.set path ds).get path = ds := by
  simp [get, set]

theorem get_set (s : IssueStore) (path other : Path) (ds : List Diagnostic) :
    (s.set path ds).get other = if path = other then ds else s.get other := by
  split
  · rename_i h
    rw [← h, get_set_self]
  · rename_i h
    have hf : (s.entries.filter fun (p, _) => p != path).find? (fun (p, _) => p == other) =
        s.entries.find? fun (p, _) => p == other := by
      rw [List.find?_filter]
      congr 1
      funext ⟨p, _⟩
      by_cases hp : p = other
      · simp [hp, Ne.symm h]
      · simp [hp]
    simp [get, set, h, hf]

end IssueStore

end EditorLint
