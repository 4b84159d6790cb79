import EditorLint.Command.UsageError

/-!
# Arguments

The arguments of a command, taken apart into options and other words.  A word that begins
with a dash is an option, a single dash alone apart, and after two dashes nothing is one.
A long option may have its value after an equals sign, a short one directly behind it, and
either in the next word, whatever that is.  Short options may share one dash.
-/

namespace EditorLint

/-- Arguments taken apart: the options with their values, in order, and the other words. -/
structure Arguments where
  options : List (String × Text)
  words : List Text

namespace Arguments

def has (a : Arguments) (key : String) : Bool := a.options.any fun (k, _) => k == key

def values (a : Arguments) (key : String) : List Text :=
  (a.options.filter fun (k, _) => k == key).map (·.2)

/-- The value of an option: the last one holds. -/
def value? (a : Arguments) (key : String) : Option Text := (a.values key).getLast?

/-- What one word says: some options, and perhaps one more, as it is written, that takes
the next word for its value. -/
structure Reading where
  options : List (String × Text)
  due : Option (String × Text)

def isOption (word : Text) : Bool := word.head? == some (.scalar '-') && word.length > 1

/-- The name of a long option, and the value after the equals sign if there is one. -/
def splitValue (word : Text) : Text × Option Text :=
  let name := word.takeWhile (!·.isChar '=')
  match word.drop name.length with
  | [] => (name, none)
  | _ :: value => (name, some value)

def readLong (c : CommandSpec) (word : Text) : Except UsageError Reading :=
  let (name, attached) := splitValue word
  match c.option? name, attached with
  | none, _ => .error (.noSuchOption name (UsageError.similar name c.longNames))
  | some o, some value =>
    if o.takesValue then .ok ⟨[(o.key, value)], none⟩ else .error (.valueRefused name)
  | some o, none => .ok (if o.takesValue then ⟨[], some (o.key, name)⟩ else ⟨[(o.key, [])], none⟩)

def readShort (c : CommandSpec) : Text → Except UsageError Reading
  | [] => .ok ⟨[], none⟩
  | letter :: rest =>
    let name : Text := [.scalar '-', letter]
    match c.option? name with
    | none => .error (.noSuchOption name [])
    | some o =>
      if !o.takesValue then
        (readShort c rest).map fun r => { r with options := (o.key, []) :: r.options }
      else if rest.isEmpty then .ok ⟨[], some (o.key, name)⟩
      else .ok ⟨[(o.key, rest)], none⟩

def read (c : CommandSpec) (word : Text) : Except UsageError Reading :=
  if CommandSpec.isLong word then readLong c word else readShort c word.tail

def after (options : List (String × Text)) (a : Arguments) : Arguments :=
  { a with options := options ++ a.options }

def scan (c : CommandSpec) : List Text → Except UsageError Arguments
  | [] => .ok ⟨[], []⟩
  | word :: rest =>
    if word.isString "--" then .ok ⟨[], rest⟩
    else if isOption word then
      match read c word, rest with
      | .error e, _ => .error e
      | .ok ⟨options, none⟩, rest => (scan c rest).map (after options)
      | .ok ⟨_, some (_, name)⟩, [] => .error (.valueMissing name)
      | .ok ⟨options, some (key, _)⟩, value :: rest =>
        (scan c rest).map (after (options ++ [(key, value)]))
    else if c.isMixed then (scan c rest).map fun a => { a with words := word :: a.words }
    else .ok ⟨[], word :: rest⟩

end Arguments

end EditorLint
