import EditorLint.Decimal.Binary
import EditorLint.Text.Basic

/-!
# Data

The values that reports, configuration files and callers hand to the library:
what JSON and YAML can write down.  A mapping keeps its entries in the order in
which the keys first came, and a key that comes again replaces the value in
place.

Keys are equal by value: an integer, a floating-point number and a boolean are the
same key when they are the same number, so `1`, `1.0` and `true` share one entry, and
two moments with offsets are the same key when they are the same instant.

A list or a mapping may contain itself.  Such a value is one of several `parts` that are
given by their contents, where `part i` stands for the part with number `i`.
-/

namespace EditorLint

/-- A day of the calendar. -/
structure Date where
  year : Nat
  month : Nat
  day : Nat
  deriving DecidableEq, Repr

/-- A day and a time of day, in some unstated zone or at an offset from UTC in
minutes. -/
structure Moment where
  date : Date
  hour : Nat
  minute : Nat
  second : Nat
  microsecond : Nat
  offset : Option Int
  deriving DecidableEq, Repr

/-- Days from a fixed day to a day of the calendar, which repeats every 400 years.
Years are counted from March on, so that a day that is added to a year is its last. -/
def Date.count (d : Date) : Nat :=
  let months := (d.month + 9) % 12
  let year := if d.month ≤ 2 then d.year - 1 else d.year
  365 * year + year / 4 - year / 100 + year / 400 + (153 * months + 2) / 5 + d.day

/-- Microseconds from a fixed moment to another one, where both have an offset. -/
def Moment.instant? (m : Moment) : Option Int :=
  m.offset.map fun offset =>
    let minutes : Int := (m.date.count * 24 + m.hour) * 60 + m.minute - offset
    (minutes * 60 + m.second) * 1000000 + m.microsecond

/-- Whether two moments are the same: the same instant if both have an offset. -/
def Moment.same (m n : Moment) : Bool :=
  match m.instant?, n.instant? with
  | some x, some y => x == y
  | _, _ => m == n

/-- A value of a report or a configuration. -/
inductive Datum where
  | null
  | bool (b : Bool)
  | int (n : Int)
  | float (x : Float)
  | text (t : Text)
  | bytes (bs : List UInt8)
  | date (d : Date)
  | moment (m : Moment)
  | list (items : List Datum)
  | pair (first second : Datum)
  | set (members : List Datum)
  | mapping (entries : List (Datum × Datum))
  | circular (parts : List Datum) (index : Nat)
  | part (index : Nat)

instance : Inhabited Datum := ⟨.null⟩

abbrev Entries := List (Datum × Datum)

namespace Datum

def string (s : String) : Datum := .text s

/-- The number that a key stands for, where it is an integer. -/
def asInt? : Datum → Option Int
  | bool b => some (if b then 1 else 0)
  | int n => some n
  | _ => none

/-- Whether two keys are the same key.  Lists and mappings are never keys. -/
def sameKey : Datum → Datum → Bool
  | null, null => true
  | text s, text t => s == t
  | bytes s, bytes t => s == t
  | date d, date e => d == e
  | moment m, moment n => m.same n
  | float x, float y => Float.sameNumber x y
  | float x, d | d, float x =>
    match d.asInt?, Binary.ofFloat? x with
    | some n, some b => b.isInt n
    | _, _ => false
  | d, e =>
    match d.asInt?, e.asInt? with
    | some n, some m => n == m
    | _, _ => false

/-- Whether the value counts as something: not null, false, zero, or empty. -/
def isTruthy : Datum → Bool
  | null => false
  | bool b => b
  | int n => n != 0
  | float x => !Float.sameNumber x 0
  | text t => !t.isEmpty
  | bytes bs => !bs.isEmpty
  | date _ | moment _ | pair _ _ | circular _ _ | part _ => true
  | list items => !items.isEmpty
  | set members => !members.isEmpty
  | mapping entries => !entries.isEmpty

def isHashable : Datum → Bool
  | list _ | set _ | mapping _ | circular _ _ | part _ => false
  | pair a b => a.isHashable && b.isHashable
  | _ => true

/-- A value inside one of some parts, where it stands on its own. -/
def outside (parts : List Datum) : Datum → Datum
  | part i => circular parts i
  | pair a b => pair (outside parts a) (outside parts b)
  | d => d

/-- A value with its contents laid open, also when it contains itself. -/
def opened : Datum → Datum
  | circular parts i =>
    match parts.getD i null with
    | list items => list (items.map (outside parts))
    | mapping entries => mapping (entries.map fun (k, v) => (k, outside parts v))
    | d => d
  | d => d

/-- The name of the kind of a value that does not contain itself. -/
def plainKind : Datum → String
  | null => "NoneType"
  | bool _ => "bool"
  | int _ => "int"
  | float _ => "float"
  | text _ => "str"
  | bytes _ => "bytes"
  | date _ => "datetime.date"
  | moment _ => "datetime.datetime"
  | list _ => "list"
  | pair _ _ => "tuple"
  | set _ => "set"
  | mapping _ | circular _ _ | part _ => "dict"

def kind (d : Datum) : String := d.opened.plainKind

def text? : Datum → Option Text
  | text t => some t
  | _ => none

end Datum

namespace Entries

def get? (key : Datum) : Entries → Option Datum
  | [] => none
  | (k, v) :: rest => if k.sameKey key then some v else get? key rest

/-- The value at a text key, null where there is none. -/
def field (name : String) (es : Entries) : Datum := (get? (.string name) es).getD .null

/-- The entries with `key` set to `value`: in place where the key stands, at the
end where it does not. -/
def insert (key value : Datum) : Entries → Entries
  | [] => [(key, value)]
  | (k, v) :: rest => if k.sameKey key then (k, value) :: rest else (k, v) :: insert key value rest

def ofAssignments (es : Entries) : Entries :=
  es.foldl (fun acc (k, v) => insert k v acc) []

def has (key : Datum) (es : Entries) : Bool := (get? key es).isSome

end Entries

end EditorLint
