import EditorLint.Text.Base64
import EditorLint.Text.Encoding
import EditorLint.Yaml.Merge

/-!
# Values of documents

What the nodes of a document stand for.  The tag decides: a scalar tag takes a text, a
collection tag takes the parts of a sequence or of a mapping.  Each node has one value,
however many ways lead to it.

A scalar is read when a collection around it is, and a collection after everything that
was met before it, so of two faults the one nearer to the root comes first.  A
collection is met before it is read, and so may stand inside itself.

The values refer to one another by the numbers of their nodes.  `Values.datum` puts them
together: where no way leads in a circle they are plain data, and the others become the
parts of a datum that contains itself.

Embedded: `safe_load` of the library for YAML; its reader, scanner, parser and composer are in
the modules below this one.
-/

namespace EditorLint.Yaml

/-- The collections that a tag can name. -/
inductive Collection where
  | list
  | mapping
  | set
  | pairs (activity : Activity)
  deriving DecidableEq, Repr

/-- The scalars that a tag can name. -/
inductive ScalarType where
  | null
  | bool
  | int
  | float
  | binary
  | stamp
  | text
  deriving DecidableEq, Repr

/-- What a tag calls for. -/
inductive Shape where
  | scalar (type : ScalarType)
  | collection (c : Collection)
  deriving DecidableEq, Repr

/-- The tags of the standard set that have values. -/
def shapes : List (String × Shape) :=
  [("null", .scalar .null), ("bool", .scalar .bool), ("int", .scalar .int),
    ("float", .scalar .float), ("binary", .scalar .binary), ("timestamp", .scalar .stamp),
    ("omap", .collection (.pairs .orderedMap)), ("pairs", .collection (.pairs .pairs)),
    ("set", .collection .set), ("str", .scalar .text), ("seq", .collection .list),
    ("map", .collection .mapping)]

/-- What a tag calls for, if it has values. -/
def shape? (tag : Text) : Option Shape :=
  (shapes.find? fun (name, _) => tag == standardTag name).map (·.2)

namespace Graph

/-! ## Scalars -/

/-- The text of a scalar, or of the value that stands for a mapping as a whole; with fuel
for the values inside one another, which end unless they lead in a circle. -/
def scalarText (g : Graph) : (fuel : Nat) → Nat → Except Error Text
  | 0, _ => .error (.scalar .endless)
  | fuel + 1, i =>
    match g.node i with
    | .scalar _ text _ => .ok text
    | .mapping tag entries mark =>
      match entries.find? fun (key, _) => (g.node key).tag == valueTag with
      | some (_, value) => g.scalarText fuel value
      | none => (Node.mapping tag entries mark).fault (.expectedKind .scalar .mapping)
    | n => n.fault (.expectedKind .scalar n.kind)

end Graph

/-- The bytes that the text of a node encodes in base64. -/
def binaryValue (n : Node) (text : Text) : Except Error Datum :=
  match Encoding.ascii.encode text with
  | .error f => n.fault (.notBase64Text f.display)
  | .ok _ =>
    match Base64.decode text.shown with
    | .ok bytes => .ok (.bytes bytes)
    | .error problem => n.fault (.notBase64 problem.message)

def stampOf : Node → Text → Except ScalarError Datum
  | .scalar _ _ _, text => stampValue text
  | _, _ => .error .collection

/-- What a node stands for, with the numbers of the nodes inside it.  `noNumber` is what
the word for no number names: always the same value, unlike others that are no number. -/
inductive Value where
  | plain (d : Datum)
  | noNumber
  | list (items : List Nat)
  | pairs (entries : List (Nat × Nat))
  | set (members : List Nat)
  | mapping (entries : List (Nat × Nat))

namespace Value

def isHashable : Value → Bool
  | plain _ | noNumber => true
  | _ => false

def sameKey : Value → Value → Bool
  | plain d, plain e => d.sameKey e
  | noNumber, noNumber => true
  | _, _ => false

def unread : Collection → Value
  | .list => list []
  | .mapping => mapping []
  | .set => set []
  | .pairs _ => pairs []

def ofScalar (type : ScalarType) (n : Node) (text : Text) : Except Error Value :=
  match type with
  | .null => .ok (plain .null)
  | .bool => ((truthValue text).mapError .scalar).map fun b => plain (.bool b)
  | .int => ((intValue text).mapError .scalar).map fun i => plain (.int i)
  | .float =>
    ((floatValue text).mapError .scalar).map fun
      | some x => plain (.float x)
      | none => noNumber
  | .binary => (binaryValue n text).map plain
  | .stamp => ((stampOf n text).mapError .scalar).map plain
  | .text => .ok (plain (.text text))

/-- The datum of a value, where those of the values inside it are known. -/
def datum? (inner : Nat → Option Datum) : Value → Option Datum
  | plain d => some d
  | noNumber => some (.float (0.0 / 0.0))
  | list items => (items.mapM inner).map .list
  | set members => (members.mapM inner).map .set
  | pairs entries =>
    (entries.mapM fun (k, v) => do return Datum.pair (← inner k) (← inner v)).map .list
  | mapping entries =>
    (entries.mapM fun (k, v) => do return (← inner k, ← inner v)).map .mapping

end Value

/-! ## Reading -/

abbrev Values := Array (Option Value)

/-- The graph, the values so far, and the collections that were met, in order. -/
structure Construction where
  graph : Graph
  values : Values
  met : Array Nat

abbrev Construct := StateT Construction (Except Error)

namespace Construct

def node (i : Nat) : Construct Node := do return (← get).graph.node i

def value? (i : Nat) : Construct (Option Value) := do return (← get).values.getD i none

def assign (i : Nat) (v : Value) : Construct Unit :=
  modify fun s => { s with values := s.values.setIfInBounds i (some v) }

/-- Meets a node: a scalar has to have a value, a collection is read later. -/
def meet (i : Nat) : Construct Unit := do
  match ← value? i with
  | some _ => return
  | none =>
    let n ← node i
    match shape? n.tag with
    | none => n.fault (α := Unit) (.undefinedTag n.tag)
    | some (.scalar type) =>
      let g := (← get).graph
      assign i (← Value.ofScalar type n (← g.scalarText (g.size + 1) i))
    | some (.collection c) =>
      assign i (.unread c)
      modify fun s => { s with met := s.met.push i }

/-- Entries with a value at a key, in place if the key is there.  A node is the same key
as itself, and as any node with the same value. -/
def put (values : Values) (key value : Nat) : List (Nat × Nat) → List (Nat × Nat)
  | [] => [(key, value)]
  | (k, v) :: rest =>
    let same := k == key
      || match values.getD k none, values.getD key none with
        | some x, some y => x.sameKey y
        | _, _ => false
    if same then (k, value) :: rest else (k, v) :: put values key value rest

/-- Meets the keys and the values of entries, and puts them one by one. -/
def readEntries (start : Mark) (done : List (Nat × Nat)) :
    List (Nat × Nat) → Construct (List (Nat × Nat))
  | [] => return done
  | (key, value) :: rest => do
    meet key
    if !((← value? key).any Value.isHashable) then
      (← node key).faultIn (α := Unit) .mappingValue start .unhashableKey
    meet value
    readEntries start (put (← get).values key value done) rest

/-- The entries of a mapping, what it merges included. -/
def mappingEntries (i : Nat) : Construct (List (Nat × Nat)) := do
  match ← node i with
  | .mapping _ _ start =>
    let g ← (← get).graph.flatten i
    modify fun s => { s with graph := g }
    readEntries start [] (g.node i).entries
  | n => n.fault (.expectedKind .mapping n.kind)

/-- The entry of a mapping that is an item of a list of pairs and has no other. -/
def singleton (activity : Activity) (start : Mark) (n : Node) : Except Error (Nat × Nat) :=
  match n with
  | .mapping _ [entry] _ => .ok entry
  | .mapping _ entries _ => n.faultIn activity start (.notSingle entries.length)
  | n => n.faultIn activity start (.expectedSingleton n.kind)

/-- The pairs in the items of a list of them. -/
def readPairs (activity : Activity) (start : Mark) : List Nat → Construct (List (Nat × Nat))
  | [] => return []
  | item :: rest => do
    let (key, value) ← singleton activity start (← node item)
    meet key
    meet value
    return (key, value) :: (← readPairs activity start rest)

def read (i : Nat) : Construct Unit := do
  let n ← node i
  match shape? n.tag, n with
  | some (.collection .list), .sequence _ items _ =>
    items.forM meet
    assign i (.list items)
  | some (.collection .list), n => n.fault (.expectedKind .sequence n.kind)
  | some (.collection (.pairs activity)), .sequence _ items start =>
    assign i (.pairs (← readPairs activity start items))
  | some (.collection (.pairs activity)), n =>
    n.faultIn activity n.mark (.expectedItems n.kind)
  | some (.collection .mapping), _ => assign i (.mapping (← mappingEntries i))
  | some (.collection .set), _ => assign i (.set ((← mappingEntries i).map (·.1)))
  | _, _ => return

/-- Reads the collections that were met, from the one with number `next` in their order
on; those that are met meanwhile come after them.  With fuel for the collections. -/
def readFrom : (fuel : Nat) → (next : Nat) → Construct Unit
  | 0, _ => return
  | fuel + 1, next => do
    match (← get).met[next]? with
    | none => return
    | some i =>
      read i
      readFrom fuel (next + 1)

end Construct

/-- The values of the nodes that can be reached from a root. -/
def Graph.values (g : Graph) (root : Nat) : Except Error Values := do
  let start : Construction := ⟨g, Array.replicate g.size none, #[]⟩
  let ((), s) ← (do Construct.meet root; Construct.readFrom (g.size + 1) 0 : Construct Unit).run start
  return s.values

/-! ## Putting values together -/

namespace Values

/-- The data that are known, and those of the values of which all that is inside is known;
later nodes first. -/
def settleOnce (vs : Values) (known : Array (Option Datum)) : Array (Option Datum) :=
  (List.range vs.size).foldr (fun i known =>
    match known.getD i none, vs.getD i none with
    | none, some v => known.setIfInBounds i (v.datum? fun j => known.getD j none)
    | _, _ => known) known

def count (known : Array (Option Datum)) : Nat := known.foldl (fun n d => if d.isSome then n + 1 else n) 0

/-- The data of all values from which no way leads in a circle; with fuel for the rounds. -/
def settle (vs : Values) : (fuel : Nat) → Array (Option Datum) → Array (Option Datum)
  | 0, known => known
  | fuel + 1, known =>
    let more := vs.settleOnce known
    if count more = count known then known else vs.settle fuel more

/-- The datum of a node.  Unless it is plain, it is a part among all the values that are
not. -/
def datum (vs : Values) (root : Nat) : Datum :=
  let known := vs.settle (vs.size + 1) (Array.replicate vs.size none)
  match known.getD root none with
  | some d => d
  | none =>
    let circle := (List.range vs.size).filter fun i =>
      (known.getD i none).isNone && (vs.getD i none).isSome
    let inner (j : Nat) : Option Datum := known.getD j none <|> some (.part (circle.idxOf j))
    .circular (circle.map fun i => ((vs.getD i none).bind (Value.datum? inner)).getD .null)
      (circle.idxOf root)

end Values

/-- The value of the only document of a text; that of an empty text is null. -/
def readValue (input : Input) : Except Error Datum := do
  match ← readGraph input with
  | none => return .null
  | some (g, root) => return (← g.values root).datum root

end EditorLint.Yaml
