import EditorLint.Failure

/-!
# Log records

What the program tells about itself: an event with a level, the part of the program
that it comes from, the request it belongs to, and fields.  A computation that logs
and may fail is `Logged`: its records stand whether or not it fails.

Embedded: `_level_number` (`Level.number`), and the calls of a logger.
-/

namespace EditorLint

namespace Log

/-- How important an event is. -/
inductive Level where
  | debug
  | info
  | warning
  | error
  | critical
  deriving DecidableEq, Repr

namespace Level

def all : List Level := [debug, info, warning, error, critical]

def number : Level → Nat
  | debug => 10
  | info => 20
  | warning => 30
  | error => 40
  | critical => 50

def name : Level → String
  | debug => "DEBUG"
  | info => "INFO"
  | warning => "WARNING"
  | error => "ERROR"
  | critical => "CRITICAL"

def word : Level → String
  | debug => "debug"
  | info => "info"
  | warning => "warning"
  | error => "error"
  | critical => "critical"

def ofName? (t : Text) : Option Level := all.find? fun l => t.isString l.name

end Level

/-- An event.  `raised` is the failure that the event reports, if it reports one. -/
structure Record where
  level : Level
  logger : String
  event : Text
  fields : Entries
  requestId : Option Text
  raised : Option Failure

namespace Record

/-- An event of no request that reports no failure. -/
def plain (level : Level) (logger event : String) (fields : Entries) : Record :=
  ⟨level, logger, event, fields, none, none⟩

/-- An event, of level error, that reports a failure. -/
def ofFailure (logger event : String) (fields : Entries) (failure : Failure) : Record :=
  ⟨.error, logger, event, fields, none, some failure⟩

def forRequest (id : Option Text) (r : Record) : Record := { r with requestId := id }

end Record

def field (name : String) (value : Datum) : Datum × Datum := (.string name, value)

end Log

/-- What a computation logs, and what it ends with. -/
structure Logged (α : Type) where
  records : List Log.Record
  result : Except Failure α

namespace Logged

def ofExcept {α : Type} (r : Except Failure α) : Logged α := ⟨[], r⟩

def tell (r : Log.Record) : Logged Unit := ⟨[r], .ok ()⟩

/-- The second computation after the first, unless that failed. -/
def bind {α β : Type} (x : Logged α) (f : α → Logged β) : Logged β :=
  match x.result with
  | .ok a => ⟨x.records ++ (f a).records, (f a).result⟩
  | .error e => ⟨x.records, .error e⟩

instance : Monad Logged where
  pure a := ⟨[], .ok a⟩
  bind := bind

end Logged

end EditorLint
