import EditorLint.Fault
import EditorLint.Text.Utf8
import EditorLint.Yaml.ScalarError

/-!
# Failures

A failure is any error that an operation of the library ends with.  Some are the
library's own faults; the others come from the machine (files, processes), from
text that cannot be encoded or decoded, from numbers out of range, from values
of the wrong shape, or from a collaborator such as a document.  Each cause is a
constructor; the wording and the name that a log shows are functions of it.

Embedded: the exceptions that the embedded functions can meet, by the name of their class
and the text that `str` makes of them.  Tracebacks and causes are left out.
-/

namespace EditorLint

/-- The kinds of errors that the operating system reports. -/
inductive SystemErrorKind where
  | general
  | blocking
  | childProcess
  | connectionAborted
  | connectionRefused
  | connectionReset
  | brokenPipe
  | exists
  | notFound
  | interrupted
  | isDirectory
  | notDirectory
  | denied
  | processLookup
  | timedOut
  deriving DecidableEq, Repr

namespace SystemErrorKind

def ofNumber (n : Int) : SystemErrorKind :=
  if n = 1 ∨ n = 13 then denied
  else if n = 2 then notFound
  else if n = 3 then processLookup
  else if n = 4 then interrupted
  else if n = 10 then childProcess
  else if n = 11 ∨ n = 114 ∨ n = 115 then blocking
  else if n = 17 then .exists
  else if n = 20 then notDirectory
  else if n = 21 then isDirectory
  else if n = 32 ∨ n = 108 then brokenPipe
  else if n = 103 then connectionAborted
  else if n = 104 then connectionReset
  else if n = 110 then timedOut
  else if n = 111 then connectionRefused
  else general

def name : SystemErrorKind → String
  | general => "OSError"
  | blocking => "BlockingIOError"
  | childProcess => "ChildProcessError"
  | connectionAborted => "ConnectionAbortedError"
  | connectionRefused => "ConnectionRefusedError"
  | connectionReset => "ConnectionResetError"
  | brokenPipe => "BrokenPipeError"
  | .exists => "FileExistsError"
  | notFound => "FileNotFoundError"
  | interrupted => "InterruptedError"
  | isDirectory => "IsADirectoryError"
  | notDirectory => "NotADirectoryError"
  | denied => "PermissionError"
  | processLookup => "ProcessLookupError"
  | timedOut => "TimeoutError"

end SystemErrorKind

/-- An error that the operating system reports. -/
structure SystemError where
  kind : SystemErrorKind
  number : Option Int
  message : Text
  path : Option Text
  deriving DecidableEq, Repr

namespace SystemError

/-- An error with a number, its usual wording, and the path that it is about. -/
def ofNumber (n : Int) (message : String) (path : Text) : SystemError :=
  ⟨.ofNumber n, some n, message, some path⟩

def notFound (path : Text) : SystemError := ofNumber 2 "No such file or directory" path

/-- The user lacks a right on the way to the path. -/
def denied (path : Text) : SystemError := ofNumber 13 "Permission denied" path

def alreadyExists (path : Text) : SystemError := ofNumber 17 "File exists" path

def notDirectory (path : Text) : SystemError := ofNumber 20 "Not a directory" path

def isDirectory (path : Text) : SystemError := ofNumber 21 "Is a directory" path

/-- A part of the path, or the whole, is too long. -/
def nameTooLong (path : Text) : SystemError := ofNumber 36 "File name too long" path

def linkLoop (path : Text) : SystemError := ofNumber 40 "Too many levels of symbolic links" path

def display (e : SystemError) : Text :=
  match e.number with
  | none => e.message
  | some n =>
    let head := "[Errno " ++ Text.ofInt n ++ "] " ++ e.message
    match e.path with
    | none => head
    | some p => head ++ ": " ++ Literal.quote p

end SystemError

/-- One finding of a check of values: its type, where the value stands, the
wording, and the value. -/
structure Issue where
  kind : String
  loc : List Text
  message : Text
  input : Datum

/-- The kinds of errors that a collaborator raises outside this list. -/
inductive RaisedKind where
  | runtime
  | value
  deriving DecidableEq, Repr

/-- An error that an operation ends with. -/
inductive Failure where
  | fault (f : Fault)
  | invalid (issues : List Issue)
  | system (e : SystemError)
  | raised (kind : RaisedKind) (message : Text)
  | undecodable (encoding : String) (bytes : List UInt8) (start : Nat) (reason : String)
  | unencodable (encoding : String) (f : Utf8.EncodeFault) (reason : String)
  | unknownEncoding (name : Text)
  | nullInPath
  | infiniteInteger
  | nanInteger
  | tooManyDigits (count : Nat)
  | longInteger
  | nestedTooDeep (object : Bool)
  | tooDeep
  | unknownMember (value : Datum) (what : String)
  | textKeysOnly
  | unhashable (kind : String)
  | missingOperation (kind operation : String)
  | listIndex
  | notAssignable (kind : String)
  | notSubscriptable (kind : String)
  | variableUnreadable (field : String)
  | noHome
  | scalar (e : ScalarError)

namespace Failure

/-- A fault of UTF-8 as a failure. -/
def ofUtf8 (f : Utf8.DecodeFault) : Failure :=
  undecodable "utf-8" f.bytes f.start f.reason.message

/-- A lone surrogate, which UTF-8 cannot encode, as a failure. -/
def ofSurrogate (f : Utf8.EncodeFault) : Failure := unencodable "utf-8" f "surrogates not allowed"

def undecodableMessage (encoding : String) (bytes : List UInt8) (start : Nat) (reason : String) :
    Text :=
  let place : Text := match bytes with
    | [b] => "byte 0x" ++ Text.hex 2 b.toNat ++ " in position " ++ Text.ofNat start
    | bs => "bytes in position " ++ Text.ofNat start ++ "-" ++ Text.ofNat (start + bs.length - 1)
  "'" ++ encoding ++ "' codec can't decode " ++ place ++ ": " ++ reason

def unencodableMessage (encoding : String) (f : Utf8.EncodeFault) (reason : String) : Text :=
  let place : Text :=
    if f.stop = f.start + 1 then
      "character '" ++ Literal.numbered f.code.value ++ "' in position " ++ Text.ofNat f.start
    else "characters in position " ++ Text.ofNat f.start ++ "-" ++ Text.ofNat (f.stop - 1)
  "'" ++ encoding ++ "' codec can't encode " ++ place ++ ": " ++ reason

/-- The name that a log shows for a failure. -/
def name : Failure → String
  | fault f => match f.family with
    | .general => "NanoLintError"
    | .config => "ConfigError"
    | .lint => "LintError"
    | .internal => "InternalError"
  | invalid _ => "ValidationError"
  | system e => e.kind.name
  | raised .runtime _ | noHome => "RuntimeError"
  | raised .value _ | nullInPath | nanInteger | tooManyDigits _ | longInteger | unknownMember _ _ =>
    "ValueError"
  | scalar e => e.name
  | undecodable _ _ _ _ => "UnicodeDecodeError"
  | unencodable _ _ _ => "UnicodeEncodeError"
  | unknownEncoding _ => "LookupError"
  | infiniteInteger => "OverflowError"
  | nestedTooDeep _ | tooDeep => "RecursionError"
  | textKeysOnly | unhashable _ | listIndex | notAssignable _ | notSubscriptable _ => "TypeError"
  | missingOperation _ _ => "AttributeError"
  | variableUnreadable _ => "SettingsError"

def display : Failure → Text
  | fault f => f.display
  | invalid issues => Text.join "\n" (issues.map (·.message))
  | system e => e.display
  | raised _ message => message
  | undecodable encoding bytes start reason => undecodableMessage encoding bytes start reason
  | unencodable encoding f reason => unencodableMessage encoding f reason
  | unknownEncoding name => "unknown encoding: " ++ name
  | nullInPath => "embedded null byte"
  | infiniteInteger => "cannot convert float infinity to integer"
  | nanInteger => "cannot convert float NaN to integer"
  | tooManyDigits count =>
    "Exceeds the limit (4300 digits) for integer string conversion: value has "
      ++ Text.ofNat count ++ " digits; use sys.set_int_max_str_digits() to increase the limit"
  | longInteger =>
    "Exceeds the limit (4300 digits) for integer string conversion; use "
      ++ "sys.set_int_max_str_digits() to increase the limit"
  | nestedTooDeep object =>
    "maximum recursion depth exceeded while decoding a JSON "
      ++ (if object then "object" else "array") ++ " from a unicode string"
  | tooDeep => "maximum recursion depth exceeded while calling a Python object"
  | unknownMember value what => value.literal ++ " is not a valid " ++ what
  | textKeysOnly => "keywords must be strings"
  | unhashable kind => "unhashable type: '" ++ kind ++ "'"
  | missingOperation kind operation => "'" ++ kind ++ "' object has no attribute '" ++ operation ++ "'"
  | listIndex => "list indices must be integers or slices, not str"
  | notAssignable kind => "'" ++ kind ++ "' object does not support item assignment"
  | notSubscriptable kind => "'" ++ kind ++ "' object is not subscriptable"
  | variableUnreadable field =>
    "error parsing value for field \"" ++ field ++ "\" from source \"EnvSettingsSource\""
  | noHome => "Could not determine home directory."
  | scalar e => e.message

def isSystem : Failure → Bool
  | system _ => true
  | _ => false

/-- Whether the failure is a time limit that ran out. -/
def isTimeout : Failure → Bool
  | system e => e.kind == .timedOut
  | _ => false

/-- The name that the last line of a logged failure begins with: a fault is named
together with the part of the program that defines it. -/
def qualifiedName : Failure → String
  | fault f => "nanolint.core.errors." ++ name (.fault f)
  | f => f.name

end Failure

theorem bind_eq_ok {ε α β : Type} {x : Except ε α} {g : α → Except ε β} {b : β} :
    x >>= g = .ok b ↔ ∃ a, x = .ok a ∧ g a = .ok b := by
  cases x with
  | ok a =>
    show g a = .ok b ↔ _
    simp
  | error f =>
    show Except.error f = .ok b ↔ _
    simp

theorem ok_of_toOption {ε α : Type} {x : Except ε α} {a : α} (h : x.toOption = some a) :
    x = .ok a := by
  cases x with
  | ok b => exact congrArg Except.ok (Option.some.inj h)
  | error f => cases h

/-- What is computed from a result is computed from what a computation gives. -/
theorem exists_ok_of_toOption {ε α β : Type} {x : Except ε α} {f : α → β} {b : β}
    (h : x.toOption.map f = some b) : ∃ a, x = .ok a ∧ f a = b := by
  obtain ⟨a, ha, hb⟩ := Option.map_eq_some_iff.mp h
  exact ⟨a, ok_of_toOption ha, hb⟩

end EditorLint
