import EditorLint.Datum.Literal
import EditorLint.Text.Blank

/-!
# Faults

A fault is an error of the linter itself: it has a numbered code, a message, and
details for logs and callbacks.  Codes from 2000 are about configuration, from
3000 about running the linter, from 9000 about everything unforeseen.

Embedded: `ErrorCode`, `NanoLintError` with `error_name`, `to_dict` and its text, and the
constructors of `ConfigError`, `LintError` and `InternalError`.
-/

namespace EditorLint

/-- What went wrong. -/
inductive FaultCode where
  | configParse
  | configValue
  | configMissing
  | processFailed
  | spawnFailed
  | timeout
  | reportUnreadable
  | unexpected
  deriving DecidableEq, Repr

namespace FaultCode

/-- All codes, in the order of their numbers. -/
def all : List FaultCode :=
  [configParse, configValue, configMissing, processFailed, spawnFailed, timeout, reportUnreadable,
    unexpected]

def number : FaultCode → Nat
  | configParse => 2001
  | configValue => 2002
  | configMissing => 2003
  | processFailed => 3001
  | spawnFailed => 3002
  | timeout => 3003
  | reportUnreadable => 3004
  | unexpected => 9001

def name : FaultCode → String
  | configParse => "CONFIG_PARSE_ERROR"
  | configValue => "CONFIG_INVALID_VALUE"
  | configMissing => "CONFIG_MISSING_REQUIRED"
  | processFailed => "LINT_PROCESS_FAILED"
  | spawnFailed => "LINT_SPAWN_FAILED"
  | timeout => "LINT_TIMEOUT"
  | reportUnreadable => "LINT_PARSE_ERROR"
  | unexpected => "INTERNAL_ERROR"

def ofNumber? (d : Datum) : Option FaultCode := all.find? fun c => (Datum.int c.number).sameKey d

end FaultCode

/-- The part of the program that a fault belongs to. -/
inductive FaultFamily where
  | general
  | config
  | lint
  | internal
  deriving DecidableEq, Repr

/-- An error with its context. -/
structure Fault where
  family : FaultFamily
  code : FaultCode
  message : Text
  retryable : Bool
  details : Entries

namespace Fault

/-- The fault on one line, code and name first. -/
def display (f : Fault) : Text :=
  "[" ++ Text.ofNat f.code.number ++ "] " ++ f.code.name ++ ": " ++ f.message

def detail (key : String) (value : Datum) : Datum × Datum := (.string key, value)

/-- A configuration file that cannot be read as one. -/
def configParse (path reason : Text) : Fault where
  family := .config
  code := .configParse
  message := "Failed to parse config at " ++ path ++ ": " ++ reason
  retryable := false
  details := [detail "path" (.text path), detail "reason" (.text reason)]

/-- A setting with a value that it cannot have. -/
def configValue (field : Text) (value : Datum) (reason : Text) : Fault where
  family := .config
  code := .configValue
  message := "Invalid value for '" ++ field ++ "': " ++ reason
  retryable := false
  details :=
    [detail "field" (.text field), detail "value" (.text value.display), detail "reason" (.text reason)]

/-- A setting that has to be made and is not. -/
def configMissing (field : Text) : Fault where
  family := .config
  code := .configMissing
  message := "Missing required config field: " ++ field
  retryable := false
  details := [detail "field" (.text field)]

def processFailed (command : Text) (status : Datum) (stderr : Text) : Fault where
  family := .lint
  code := .processFailed
  message := "Lint command '" ++ command ++ "' exited with code " ++ status.display ++ ": "
    ++ stderr.strip
  retryable := false
  details :=
    [detail "command" (.text command), detail "returncode" status, detail "stderr" (.text stderr)]

/-- A command that could not be started or talked to. -/
def spawnFailed (command reason : Text) : Fault where
  family := .lint
  code := .spawnFailed
  message := "Could not start lint command '" ++ command ++ "': " ++ reason
  retryable := false
  details := [detail "command" (.text command), detail "reason" (.text reason)]

def timeout (command : Text) (seconds : Datum) : Fault where
  family := .lint
  code := .timeout
  message := "Lint command '" ++ command ++ "' did not finish within " ++ seconds.display ++ "s"
  retryable := true
  details := [detail "command" (.text command), detail "timeout_sec" seconds]

def reportUnreadable (command reason : Text) : Fault where
  family := .lint
  code := .reportUnreadable
  message := "Could not parse output of '" ++ command ++ "': " ++ reason
  retryable := false
  details := [detail "command" (.text command), detail "reason" (.text reason)]

/-- Anything unforeseen, with details of the caller's choice. -/
def unexpected (reason : Text) (details : Entries) : Fault where
  family := .internal
  code := .unexpected
  message := "Internal error: " ++ reason
  retryable := false
  details := details

end Fault

end EditorLint
