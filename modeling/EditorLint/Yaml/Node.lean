import EditorLint.Yaml.Lexer
import EditorLint.Yaml.Scalar

/-!
# Nodes of YAML documents

A document is a graph of scalars, sequences and mappings, each with a tag.  Its nodes
are numbered in the order in which they begin, and a collection lists the numbers of
the nodes inside it.  An alias is one more way to the node that its anchor names, which
may be a collection around the alias.  A node without a tag gets the tag of its kind, a
plain scalar that of its form.

The graph is read off the tokens.  Reading stops at the first token that does not fit;
what the tokens after it are, or whether there are any, does not matter then.
-/

namespace EditorLint.Yaml

/-- A node and the place where it begins. -/
inductive Node where
  | scalar (tag text : Text) (mark : Mark)
  | sequence (tag : Text) (items : List Nat) (mark : Mark)
  | mapping (tag : Text) (entries : List (Nat × Nat)) (mark : Mark)
  deriving DecidableEq, Repr

namespace Node

def mark : Node → Mark
  | scalar _ _ m | sequence _ _ m | mapping _ _ m => m

def kind : Node → NodeKind
  | scalar _ _ _ => .scalar
  | mapping _ _ _ => .mapping
  | sequence _ _ _ => .sequence

def tag : Node → Text
  | scalar t _ _ | sequence t _ _ | mapping t _ _ => t

def withTag (t : Text) : Node → Node
  | scalar _ text m => scalar t text m
  | sequence _ items m => sequence t items m
  | mapping _ entries m => mapping t entries m

def items : Node → List Nat
  | sequence _ items _ => items
  | _ => []

def entries : Node → List (Nat × Nat)
  | mapping _ entries _ => entries
  | _ => []

def withItems (items : List Nat) : Node → Node
  | sequence t _ m => sequence t items m
  | n => n

def withEntries (entries : List (Nat × Nat)) : Node → Node
  | mapping t _ m => mapping t entries m
  | n => n

/-- The empty scalar that stands where a node is left out. -/
def empty (m : Mark) : Node := scalar (standardTag "null") [] m

instance : Inhabited Node := ⟨empty default⟩

end Node

abbrev Graph := Array Node

def Graph.node (g : Graph) (i : Nat) : Node := g.getD i default

/-- The graph with another node in the place of one. -/
def Graph.change (g : Graph) (i : Nat) (f : Node → Node) : Graph := g.modify i f

/-! ## Reading tokens -/

/-- The tokens ahead and what ends them, the tag handles, the nodes so far, and the
nodes that anchors name. -/
structure Source where
  tokens : List Token
  ending : Option Error
  handles : List (Text × Text)
  nodes : Graph
  anchors : List (Text × Nat)

abbrev Reader := StateT Source (Except Error)

namespace Reader

def standardHandles : List (Text × Text) := [("!", "!"), ("!!", "tag:yaml.org,2002:")]

def peek : Reader Token := do
  let s ← get
  match s.tokens with
  | t :: _ => return t
  | [] => throw (s.ending.getD (.fault ⟨none, .unexpectedEnd, default⟩))

def pass : Reader Unit := modify fun s => { s with tokens := s.tokens.drop 1 }

def take : Reader Token := do
  let t ← peek
  pass
  return t

def refuse {α : Type} (context : Option (Activity × Option Mark)) (problem : Problem) (mark : Mark) :
    Reader α := throw (.fault ⟨context, problem, mark⟩)

/-- A fault found while doing something that began at `start`. -/
def refuseWhile {α : Type} (activity : Activity) (start : Mark) (problem : Problem) (mark : Mark) :
    Reader α := refuse (some (activity, some start)) problem mark

def add (n : Node) : Reader Nat := do
  let i := (← get).nodes.size
  modify fun s => { s with nodes := s.nodes.push n }
  return i

def change (i : Nat) (f : Node → Node) : Reader Unit :=
  modify fun s => { s with nodes := s.nodes.change i f }

/-! ## Properties -/

/-- The anchor and the tag of a node, and where they begin. -/
structure Properties where
  anchor : Option Text
  tag : Option (Option Text × Text)
  tagMark : Mark
  start : Option Mark

def anchor? : Reader (Option (Text × Mark)) := do
  let t ← peek
  match t.kind with
  | .anchor name =>
    pass
    return some (name, t.start)
  | _ => return none

def tag? : Reader (Option ((Option Text × Text) × Mark)) := do
  let t ← peek
  match t.kind with
  | .tag handle suffix =>
    pass
    return some ((handle, suffix), t.start)
  | _ => return none

/-- An anchor and a tag, in either order. -/
def properties : Reader Properties := do
  match ← anchor? with
  | some (name, start) =>
    match ← tag? with
    | some (tag, mark) => return ⟨some name, some tag, mark, some start⟩
    | none => return ⟨some name, none, default, some start⟩
  | none =>
    match ← tag? with
    | none => return ⟨none, none, default, none⟩
    | some (tag, mark) =>
      match ← anchor? with
      | some (name, _) => return ⟨some name, some tag, mark, some mark⟩
      | none => return ⟨none, some tag, mark, some mark⟩

/-- The tag that the properties name, with its handle replaced. -/
def fullTag (p : Properties) : Reader (Option Text) := do
  match p.tag with
  | none => return none
  | some (none, suffix) => return some suffix
  | some (some handle, suffix) =>
    match (← get).handles.lookup handle with
    | some start => return some (start ++ suffix)
    | none => refuseWhile .node (p.start.getD default) (.undefinedHandle handle) p.tagMark

/-- One more node, with an anchor that must be new: its number. -/
def announce (anchor : Option Text) (n : Node) : Reader Nat := do
  match anchor with
  | none => add n
  | some name =>
    let s ← get
    match s.anchors.lookup name with
    | some first =>
      refuseWhile (.duplicateAnchor name) (s.nodes.node first).mark .secondOccurrence n.mark
    | none =>
      let i ← add n
      modify fun s => { s with anchors := (name, i) :: s.anchors }
      return i

def aliased (name : Text) (mark : Mark) : Reader Nat := do
  match (← get).anchors.lookup name with
  | some i => return i
  | none => refuse none (.undefinedAlias name) mark

/-- The tag of a sequence or a mapping that names none. -/
def tagOr (tag : Option Text) (name : String) : Text :=
  match tag with
  | none => standardTag name
  | some t => if t.isString "!" then standardTag name else t

/-- The tag of a scalar: the one it names, or that of its form, or text. -/
def scalarTag (tag : Option Text) (plain : Bool) (text : Text) : Text :=
  match tag with
  | none => if plain then resolve text else standardTag "str"
  | some t => if t.isString "!" then resolve text else t

/-! ## Nodes -/

/-- Whether a kind of token is one of some. -/
def isOneOf (kind : TokenKind) (kinds : List TokenKind) : Bool := kinds.contains kind

/-- The part of an entry that `mark` introduces: left out when one of `ends` follows. -/
def part (node : Reader Nat) (ends : List TokenKind) (introduced : Mark) : Reader Nat := do
  if isOneOf (← peek).kind ends then add (.empty introduced) else node

/-- The value of an entry, left out when no colon is ahead or one of `ends` follows it. -/
def valuePart (node : Reader Nat) (ends : List TokenKind) : Reader Nat := do
  let t ← peek
  if t.kind = .value then
    pass
    part node ends t.stop
  else add (.empty t.start)

/-- A sequence, which is numbered before its items. -/
def sequence (anchor tag : Option Text) (start : Mark) (items : Reader (List Nat)) : Reader Nat := do
  let i ← announce anchor (.sequence (tagOr tag "seq") [] start)
  let is ← items
  change i (.withItems is)
  return i

/-- A mapping, which is numbered before its entries. -/
def mapping (anchor tag : Option Text) (start : Mark) (entries : Reader (List (Nat × Nat))) :
    Reader Nat := do
  let i ← announce anchor (.mapping (tagOr tag "map") [] start)
  let es ← entries
  change i (.withEntries es)
  return i

/-- A node of which nothing but its properties is there. -/
def content (p : Properties) (tag : Option Text) (start : Mark) (block : Bool) (t : Token) :
    Reader Nat := do
  if p.start.isSome then announce p.anchor (.scalar (scalarTag tag true []) [] start)
  else
    refuseWhile (if block then .blockNode else .flowNode) start (.expectedContent t.kind.id) t.start

/-- How deep collections may stand inside one another.  Each is composed by two calls inside the
calls for those around it, of which there may be a thousand on the stack; forty are left for the
callers and for what a collection itself needs. -/
def maxDepth : Nat := 480

mutual

/-- A node with `depth` collections around it.  Block collections begin only when
`block`, and a sequence that is not indented only when `flat`. -/
def node : (fuel : Nat) → (depth : Nat) → (block flat : Bool) → Reader Nat
  | 0, _, _, _ => refuse none .unexpectedEnd default
  | fuel + 1, depth, block, flat => do
    let t ← peek
    match t.kind with
    | .reference name =>
      pass
      aliased name t.start
    | _ =>
      let p ← properties
      let tag ← fullTag p
      let t ← peek
      let start := p.start.getD t.start
      if depth > maxDepth then throw .tooDeep
      match t.kind with
      | .blockEntry =>
        if flat then sequence p.anchor tag start (flatItems fuel depth)
        else content p tag start block t
      | .scalar text plain =>
        pass
        announce p.anchor (.scalar (scalarTag tag plain text) text start)
      | .flowSequenceStart => sequence p.anchor tag start (pass *> flowItems fuel depth true t.start)
      | .flowMappingStart => mapping p.anchor tag start (pass *> flowEntries fuel depth true t.start)
      | .blockSequenceStart =>
        if block then sequence p.anchor tag start (pass *> blockItems fuel depth t.start)
        else content p tag start block t
      | .blockMappingStart =>
        if block then mapping p.anchor tag start (pass *> blockEntries fuel depth t.start)
        else content p tag start block t
      | _ => content p tag start block t

/-- The items of a sequence at the indentation of the mapping around it. -/
def flatItems : (fuel : Nat) → (depth : Nat) → Reader (List Nat)
  | 0, _ => return []
  | fuel + 1, depth => do
    let t ← peek
    if t.kind = .blockEntry then
      pass
      let item ← part (node fuel (depth + 1) true false) [.blockEntry, .key, .value, .blockEnd] t.stop
      return item :: (← flatItems fuel depth)
    else return []

def blockItems : (fuel : Nat) → (depth : Nat) → (start : Mark) → Reader (List Nat)
  | 0, _, _ => return []
  | fuel + 1, depth, start => do
    let t ← peek
    if t.kind = .blockEntry then
      pass
      let item ← part (node fuel (depth + 1) true false) [.blockEntry, .blockEnd] t.stop
      return item :: (← blockItems fuel depth start)
    else if t.kind = .blockEnd then
      pass
      return []
    else refuseWhile .blockCollection start (.expectedBlockEnd t.kind.id) t.start

def blockEntries : (fuel : Nat) → (depth : Nat) → (start : Mark) → Reader (List (Nat × Nat))
  | 0, _, _ => return []
  | fuel + 1, depth, start => do
    let t ← peek
    if t.kind = .key then
      pass
      let ends : List TokenKind := [.key, .value, .blockEnd]
      let key ← part (node fuel (depth + 1) true true) ends t.stop
      let value ← valuePart (node fuel (depth + 1) true true) ends
      return (key, value) :: (← blockEntries fuel depth start)
    else if t.kind = .blockEnd then
      pass
      return []
    else refuseWhile .blockMapping start (.expectedBlockEnd t.kind.id) t.start

def flowItems : (fuel : Nat) → (depth : Nat) → (first : Bool) → (start : Mark) → Reader (List Nat)
  | 0, _, _, _ => return []
  | fuel + 1, depth, first, start => do
    let t ← peek
    if t.kind = .flowSequenceEnd then
      pass
      return []
    else
      if !first then
        if t.kind = .flowEntry then pass
        else refuseWhile .flowSequence start (.expectedSequenceSeparator t.kind.id) t.start
      let t ← peek
      if t.kind = .key then
        let item ← mapping none none t.start do
          pass
          let key ← part (node fuel (depth + 2) false false) [.value, .flowEntry, .flowSequenceEnd] t.stop
          let value ← valuePart (node fuel (depth + 2) false false) [.flowEntry, .flowSequenceEnd]
          return [(key, value)]
        return item :: (← flowItems fuel depth false start)
      else if t.kind = .flowSequenceEnd then
        pass
        return []
      else
        let item ← node fuel (depth + 1) false false
        return item :: (← flowItems fuel depth false start)

def flowEntries : (fuel : Nat) → (depth : Nat) → (first : Bool) → (start : Mark) →
    Reader (List (Nat × Nat))
  | 0, _, _, _ => return []
  | fuel + 1, depth, first, start => do
    let t ← peek
    if t.kind = .flowMappingEnd then
      pass
      return []
    else
      if !first then
        if t.kind = .flowEntry then pass
        else refuseWhile .flowMapping start (.expectedMappingSeparator t.kind.id) t.start
      let t ← peek
      if t.kind = .key then
        pass
        let key ← part (node fuel (depth + 1) false false) [.value, .flowEntry, .flowMappingEnd] t.stop
        let value ← valuePart (node fuel (depth + 1) false false) [.flowEntry, .flowMappingEnd]
        return (key, value) :: (← flowEntries fuel depth false start)
      else if t.kind = .flowMappingEnd then
        pass
        return []
      else
        let key ← node fuel (depth + 1) false false
        let value ← add (.empty (← peek).start)
        return (key, value) :: (← flowEntries fuel depth false start)

end

/-! ## Documents -/

/-- The directives ahead: whether a version was among them, and the handles. -/
def directives : (fuel : Nat) → (versioned : Bool) → (handles : List (Text × Text)) →
    Reader (List (Text × Text))
  | 0, _, handles => return handles
  | fuel + 1, versioned, handles => do
    let t ← peek
    match t.kind with
    | .directive d =>
      pass
      match d with
      | .version major =>
        if versioned then refuse none .duplicateVersion t.start
        else if major ≠ 1 then refuse none .incompatibleVersion t.start
        else directives fuel true handles
      | .tag handle start =>
        if (handles.lookup handle).isSome then refuse none (.duplicateHandle handle) t.start
        else directives fuel versioned ((handle, start) :: handles)
      | .other => directives fuel versioned handles
    | _ => return handles

def skipEnds : (fuel : Nat) → Reader Unit
  | 0 => return
  | fuel + 1 => do
    if (← peek).kind = .documentEnd then
      pass
      skipEnds fuel

/-- The directives of a document and the line that ends them. -/
def explicitStart (fuel : Nat) : Reader Unit := do
  let handles ← directives fuel false []
  let t ← peek
  if t.kind ≠ .documentStart then
    refuse none (.expectedDocumentStart t.kind.id) t.start
  else
    pass
    modify fun s => { s with handles := handles ++ standardHandles }

/-- What is left behind a document: nothing, or the start of another one. -/
def singleDocument (fuel : Nat) (first : Mark) : Reader Unit := do
  skipEnds fuel
  let t ← peek
  if t.kind ≠ .streamEnd then
    explicitStart fuel
    refuseWhile .singleDocument first .anotherDocument t.start

/-- The root of a document that nothing but its end may follow. -/
def alone (fuel root : Nat) : Reader (Option Nat) := do
  skipEnds 1
  singleDocument fuel ((← get).nodes.node root).mark
  return some root

/-- The root of the only document, if there is a document. -/
def document (fuel : Nat) : Reader (Option Nat) := do
  pass
  let t ← peek
  match t.kind with
  | .streamEnd => return none
  | .directive _ | .documentStart =>
    explicitStart fuel
    let t ← peek
    let root ←
      match t.kind with
      | .documentStart | .documentEnd | .streamEnd | .directive _ => add (.empty t.start)
      | _ => node fuel 0 true false
    alone fuel root
  | _ =>
    alone fuel (← node fuel 0 true false)

end Reader

/-- The graph of the only document of a text and the number of its root, if there is a
document. -/
def readGraph (input : Input) : Except Error (Option (Graph × Nat)) := do
  let (ts, ending) := tokens input
  let source : Source := ⟨ts, ending, Reader.standardHandles, #[], []⟩
  let (root, source) ← (Reader.document (4 * ts.length + 8)).run source
  return root.map fun i => (source.nodes, i)

end EditorLint.Yaml
