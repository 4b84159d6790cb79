import EditorLint.Yaml.Node

/-!
# Merge keys

A mapping with merge keys takes over the entries of other mappings.  They are put in
front of its own, so that its own prevail; of a list of mappings the last comes first,
so that the first one's entries prevail.  What is merged is merged into itself first.

A mapping is changed in the graph, where every alias of it sees the change.  Each merge
key is taken out before the mapping behind it is looked at, so mappings that merge one
another, or themselves, come to an end.
-/

namespace EditorLint.Yaml

def mergeTag : Text := standardTag "merge"

/-- The tag of the key that stands for a mapping as a whole. -/
def valueTag : Text := standardTag "value"

namespace Node

def fault {α : Type} (n : Node) (problem : Problem) : Except Error α :=
  .error (.fault ⟨none, problem, n.mark⟩)

/-- A fault at the beginning of a node, found in a collection that begins at `start`. -/
def faultIn {α : Type} (n : Node) (activity : Activity) (start : Mark) (problem : Problem) :
    Except Error α := .error (.fault ⟨some (activity, some start), problem, n.mark⟩)

end Node

namespace Graph

/-- The entries of a mapping before its first merge key, what that key merges, and the
entries after it. -/
def splitMerge (g : Graph) (i : Nat) : Option (List (Nat × Nat) × Nat × List (Nat × Nat)) :=
  let isPlain : Nat × Nat → Bool := fun (key, _) => (g.node key).tag != mergeTag
  let entries := (g.node i).entries
  match entries.dropWhile isPlain with
  | [] => none
  | (_, value) :: rest => some (entries.takeWhile isPlain, value, rest)

def entryCount (g : Graph) : Nat := g.foldl (fun n node => n + node.entries.length) 0

/-- A mapping whose keys that stand for mappings as a whole are texts. -/
def plainKeys (g : Graph) (i : Nat) : Graph :=
  (g.node i).entries.foldl (fun g (key, _) =>
    if (g.node key).tag == valueTag then g.change key (.withTag (standardTag "str")) else g) g

mutual

/-- Merges what a mapping has merge keys for into it; with fuel for the merge keys. -/
def merge : (fuel : Nat) → Graph → Nat → Except Error Graph
  | 0, g, _ => .ok g
  | fuel + 1, g, i => do
    let (g, front) ← merged fuel g i
    let g := g.change i fun n => n.withEntries (front ++ n.entries)
    return g.plainKeys i

/-- Takes the merge keys out of a mapping: the entries that they merge. -/
def merged : (fuel : Nat) → Graph → Nat → Except Error (Graph × List (Nat × Nat))
  | 0, g, _ => .ok (g, [])
  | fuel + 1, g, i =>
    match g.splitMerge i with
    | none => .ok (g, [])
    | some (before, value, after) => do
      let start := (g.node i).mark
      let g := g.change i (.withEntries (before ++ after))
      let (g, front) ←
        match g.node value with
        | .mapping _ _ _ => do
          let g ← merge fuel g value
          pure (g, (g.node value).entries)
        | .sequence _ items _ => mergedItems fuel start g items
        | n => n.faultIn .mappingValue start (.cannotMerge n.kind)
      let (g, more) ← merged fuel g i
      return (g, front ++ more)

/-- The entries of a list of mappings to merge, those of the last one first. -/
def mergedItems : (fuel : Nat) → Mark → Graph → List Nat → Except Error (Graph × List (Nat × Nat))
  | 0, _, g, _ => .ok (g, [])
  | _ + 1, _, g, [] => .ok (g, [])
  | fuel + 1, start, g, item :: rest =>
    match g.node item with
    | .mapping _ _ _ => do
      let g ← merge fuel g item
      let own := (g.node item).entries
      let (g, others) ← mergedItems fuel start g rest
      return (g, others ++ own)
    | n => n.faultIn .mappingValue start (.cannotMergeItem n.kind)

end

/-- More steps than there are to merge: each merge key is taken out once, and brings at
most the items of one sequence. -/
def mergeFuel (g : Graph) : Nat :=
  let items := g.foldl (fun n node => n + node.items.length) 0
  (g.entryCount + 1) * (items + 3)

/-- Merges what a mapping has merge keys for into it. -/
def flatten (g : Graph) (i : Nat) : Except Error Graph :=
  match g.splitMerge i with
  | none => .ok (g.plainKeys i)
  | some _ => merge g.mergeFuel g i

end Graph

end EditorLint.Yaml
