import EditorLint.Failure
import EditorLint.Path

/-!
# File systems

A file system is a table from places to nodes: directories, files, and symbolic
links.  A place is the list of names from the root, with every link already
followed, and a name is the bytes by which the system knows it: the text of a path
is encoded to look it up, and one that stands for no bytes leads nowhere.

Looking a path up follows links, gives up after forty of them, and tells apart what
is there, what could be made there, and why neither holds.  It is what the calls of
the system do (`stat`, `open`, `mkdir`, `unlink`, `realpath`), and the embedded
functions are those of the library that stand on them: `exists`, `is_dir`, `resolve`,
`read_bytes`, opening for writing and for appending, `mkdir` with parents, `which`.
Writing happens in two steps, as opening a file for writing empties it before
anything else can go wrong.

Assumed: one user, who may read what he may write, and search the directories that
he may read; nothing else changes the files or the rights to them during an
operation; no quota and no full disk.
-/

namespace EditorLint

/-- A name in a directory, as the system knows it. -/
structure Name where
  bytes : List UInt8
  deriving DecidableEq, Repr

namespace Name

/-- The name that a part of a path stands for.  A code that stands for no byte is left out:
a path with one leads nowhere in any case. -/
def ofText (part : Text) : Name := ⟨part.flatMap fun c => (Utf8.systemBytes? c).getD []⟩

instance : Coe String Name := ⟨fun s => ofText (Text.ofString s)⟩

def text (name : Name) : Text := Utf8.decodeSystem name.bytes

def dot : Name := "."

/-- The name by which a directory knows the one above it. -/
def dots : Name := ".."

/-- The names in a text as the system reads it.  A slash at the end leads to a directory
only, as a dot after it would. -/
def along (t : Text) : List Name :=
  let pieces := t.splitOn (Code.isChar '/')
  let last := if (pieces.getLastD []).isEmpty then [dot] else []
  (pieces.filter (!·.isEmpty)).map ofText ++ last

end Name

def Path.names (p : Path) : List Name := p.parts.map Name.ofText

/-- What a place holds.  A link leads along names, from the root or from where it is. -/
inductive Node where
  | directory
  | file (bytes : List UInt8) (executable : Bool)
  | link (rooted : Bool) (names : List Name)
  deriving DecidableEq, Repr

def Node.linkTo (target : Text) : Node :=
  .link (Path.rootOf target != .relative) (Name.along target)

abbrev Place := List Name

/-- A table of places; the places that the user may not read (directories among them may not be
searched), and those that he may read and not write. -/
structure FileSystem where
  nodes : List (Place × Node)
  closed : List Place
  locked : List Place
  deriving Repr

namespace FileSystem

/-- A table of places where the user may do everything. -/
def ofNodes (nodes : List (Place × Node)) : FileSystem := ⟨nodes, [], []⟩

def empty : FileSystem := ofNodes [([], .directory)]

def at? (fs : FileSystem) (place : Place) : Option Node :=
  (fs.nodes.find? fun (p, _) => p == place).map (·.2)

/-- Whether the user may read a file, or search a directory. -/
def mayRead (fs : FileSystem) (place : Place) : Bool := !fs.closed.contains place

/-- Whether the user may write a file, or change what is in a directory. -/
def mayWrite (fs : FileSystem) (place : Place) : Bool :=
  fs.mayRead place && !fs.locked.contains place

/-- The file system with a node at a place.  What is new is the user's own. -/
def set (fs : FileSystem) (place : Place) (node : Node) : FileSystem :=
  if fs.nodes.any fun (p, _) => p == place then
    { fs with nodes := fs.nodes.map fun (p, n) => if p == place then (p, node) else (p, n) }
  else
    ⟨fs.nodes ++ [(place, node)], fs.closed.filter (· != place), fs.locked.filter (· != place)⟩

def erase (fs : FileSystem) (place : Place) : FileSystem :=
  { fs with nodes := fs.nodes.filter fun (p, _) => p != place }

/-! ## Looking up -/

/-- Why a path leads nowhere. -/
inductive Obstacle where
  | notFound
  | notDirectory
  | denied
  | tooLong
  | loop
  | null
  | unencodable (fault : Utf8.EncodeFault)
  deriving DecidableEq, Repr

/-- Where a path leads: to a node, to a free name in a directory, or nowhere. -/
inductive Target where
  | found (place : Place) (node : Node)
  | free (place : Place)
  | blocked (why : Obstacle)
  deriving Repr

/-- The most links on the way of one path. -/
def maxLinks : Nat := 40

def maxName : Nat := 255

def maxPath : Nat := 4095

/-- Walks names from the place `here`, which holds a directory.  A dot stays, two dots go
up, and a link at the end is followed only when `follow`.  `jump` goes on where a link is
followed. -/
def walkFrom (fs : FileSystem) (follow : Bool) (jump : Place → List Name → Target) :
    (here : Place) → (names : List Name) → Target
  | here, [] =>
    match fs.at? here with
    | some node => .found here node
    | none => .blocked .notFound
  | here, name :: rest =>
    if !fs.mayRead here then .blocked .denied
    else if name = .dot then walkFrom fs follow jump here rest
    else if name = .dots then walkFrom fs follow jump here.dropLast rest
    else if name.bytes.length > maxName then .blocked .tooLong
    else
      let place := here ++ [name]
      match fs.at? place with
      | none => if rest.isEmpty then .free place else .blocked .notFound
      | some .directory => walkFrom fs follow jump place rest
      | some (.file bytes executable) =>
        if rest.isEmpty then .found place (.file bytes executable) else .blocked .notDirectory
      | some (.link rooted aim) =>
        if rest.isEmpty && !follow then .found place (.link rooted aim)
        else jump (if rooted then [] else here) (aim ++ rest)

/-- Walks names with at most `links` links on the way. -/
def walk (fs : FileSystem) (follow : Bool) : (links : Nat) → Place → List Name → Target
  | 0 => walkFrom fs follow fun _ _ => .blocked .loop
  | links + 1 => walkFrom fs follow (walk fs follow links)

/-- Walks names from a place, which has to hold a directory. -/
def walkDirectory (fs : FileSystem) (follow : Bool) (start : Place) (names : List Name) : Target :=
  if fs.at? start = some .directory then walk fs follow maxLinks start names
  else .blocked .notFound

/-- Where names lead from the place `start`, for a path that is written `text`. -/
def lookUpNames (fs : FileSystem) (text : Text) (start : Place) (names : List Name)
    (follow : Bool) : Target :=
  match Utf8.encodeSystem text with
  | .error fault => .blocked (.unencodable fault)
  | .ok bytes =>
    if text.contains (.scalar '\x00') then .blocked .null
    else if bytes.length > maxPath then .blocked .tooLong
    else walkDirectory fs follow start names

/-- The place where the names of a path begin: the root, or the working directory, of which
the system knows the place and not the way there. -/
def start (cwd : Path) : Root → Place
  | .relative => cwd.names
  | .slash | .doubleSlash => []

/-- Where a path leads, seen from the working directory. -/
def lookUp (fs : FileSystem) (cwd p : Path) : Target :=
  lookUpNames fs p.text (start cwd p.root) p.names true

/-- Where a path leads when a link at its end is not followed. -/
def lookUpSelf (fs : FileSystem) (cwd p : Path) : Target :=
  lookUpNames fs p.text (start cwd p.root) p.names false

/-- Where a text leads, as it stands: an empty one nowhere, and one that ends in a
slash only to a directory. -/
def lookUpText (fs : FileSystem) (cwd : Path) (t : Text) : Target :=
  if t.isEmpty then .blocked .notFound
  else lookUpNames fs t (start cwd (Path.rootOf t)) (Name.along t) true

/-- The failure that an obstacle on the way to a path ends in. -/
def Obstacle.failure (p : Path) : Obstacle → Failure
  | .notFound => .system (.notFound p.text)
  | .notDirectory => .system (.notDirectory p.text)
  | .denied => .system (.denied p.text)
  | .tooLong => .system (.nameTooLong p.text)
  | .loop => .system (.linkLoop p.text)
  | .null => .nullInPath
  | .unencodable fault => .ofSurrogate fault

/-- Whether something is at a path, links followed.  Only a name that is too long and a
directory that may not be searched are errors. -/
def contains (fs : FileSystem) (cwd p : Path) : Except Failure Bool :=
  match fs.lookUp cwd p with
  | .found _ _ => .ok true
  | .blocked .tooLong => .error (.system (.nameTooLong p.text))
  | .blocked .denied => .error (.system (.denied p.text))
  | _ => .ok false

/-- Whether a directory is at a path, links followed. -/
def hasDirectory (fs : FileSystem) (cwd p : Path) : Bool :=
  match fs.lookUp cwd p with
  | .found _ .directory => true
  | _ => false

/-- The path with its links followed as far as it leads; the rest as it stands. -/
def follow (fs : FileSystem) (cwd p : Path) : Path :=
  match fs.lookUp cwd p with
  | .found place _ | .free place => ⟨.slash, place.map Name.text⟩
  | .blocked _ => cwd.resolveLexically p

/-! ## Reading and writing -/

def read (fs : FileSystem) (cwd p : Path) : Except Failure (List UInt8) :=
  match fs.lookUp cwd p with
  | .found place node =>
    if !fs.mayRead place then .error (.system (.denied p.text))
    else match node with
      | .file bytes _ => .ok bytes
      | .directory | .link _ _ => .error (.system (.isDirectory p.text))
  | .free _ => .error (.system (.notFound p.text))
  | .blocked why => .error (why.failure p)

/-- Puts a file with the bytes that `change` makes of the old ones at a path, a new file if need
be. -/
def alter (fs : FileSystem) (cwd p : Path) (change : List UInt8 → List UInt8) :
    Except Failure FileSystem :=
  match fs.lookUp cwd p with
  | .found place (.file bytes executable) =>
    if fs.mayWrite place then .ok (fs.set place (.file (change bytes) executable))
    else .error (.system (.denied p.text))
  | .found _ _ => .error (.system (.isDirectory p.text))
  | .free place =>
    if fs.mayWrite place.dropLast then .ok (fs.set place (.file (change []) false))
    else .error (.system (.denied p.text))
  | .blocked why => .error (why.failure p)

/-- The file system with the file at a path holding `bytes`. -/
def write (fs : FileSystem) (cwd p : Path) (bytes : List UInt8) : Except Failure FileSystem :=
  fs.alter cwd p fun _ => bytes

/-- The file system with `bytes` added at the end of the file at a path. -/
def append (fs : FileSystem) (cwd p : Path) (bytes : List UInt8) : Except Failure FileSystem :=
  fs.alter cwd p (· ++ bytes)

/-- The file system without what is at a path; links at its end are not followed. -/
def remove (fs : FileSystem) (cwd p : Path) : Except Failure FileSystem :=
  match fs.lookUpSelf cwd p with
  | .found _ .directory => .error (.system (.isDirectory p.text))
  | .found place _ =>
    if fs.mayWrite place.dropLast then .ok (fs.erase place)
    else .error (.system (.denied p.text))
  | .free _ => .error (.system (.notFound p.text))
  | .blocked why => .error (why.failure p)

/-- Makes one directory, unless one is there already. -/
def makeDirectory (fs : FileSystem) (cwd p : Path) : Except SystemError FileSystem :=
  match fs.lookUpSelf cwd p with
  | .found _ _ =>
    match fs.lookUp cwd p with
    | .found _ .directory => .ok fs
    | .blocked .denied => .error (.denied p.text)
    | .blocked .tooLong => .error (.nameTooLong p.text)
    | _ => .error (.alreadyExists p.text)
  | .free place =>
    if fs.mayWrite place.dropLast then .ok (fs.set place .directory)
    else .error (.denied p.text)
  | .blocked .notFound => .error (.notFound p.text)
  | .blocked .denied => .error (.denied p.text)
  | .blocked .tooLong => .error (.nameTooLong p.text)
  | .blocked .loop => .error (.linkLoop p.text)
  | .blocked _ => .error (.notDirectory p.text)

/-- Makes a directory and those above it that are missing, with fuel for the parts
of the path. -/
def makeDirectories (cwd : Path) : (fuel : Nat) → FileSystem → Path → Except SystemError FileSystem
  | 0, fs, p => fs.makeDirectory cwd p
  | fuel + 1, fs, p =>
    match fs.makeDirectory cwd p with
    | .ok fs => .ok fs
    | .error e =>
      if e.kind == .notFound && p.parent != p then do
        let fs ← makeDirectories cwd fuel fs p.parent
        fs.makeDirectory cwd p
      else .error e

/-- Makes the directory at a path and those above it, those that are there already
apart. -/
def provideDirectory (fs : FileSystem) (cwd p : Path) : Except Failure FileSystem :=
  match fs.lookUpSelf cwd p with
  | .blocked .null => .error .nullInPath
  | .blocked (.unencodable fault) => .error (Obstacle.failure p (.unencodable fault))
  | _ => (makeDirectories cwd p.parts.length fs p).mapError .system

/-- Whether an executable regular file is at a path. -/
def hasExecutable (fs : FileSystem) (cwd p : Path) : Bool :=
  match fs.lookUp cwd p with
  | .found _ (.file _ executable) => executable
  | _ => false

end FileSystem

end EditorLint
