import EditorLint.Report.Read

/-!
# Outcomes

What a lint or fix request ends with.  *Ok* has something to show, *empty* has
nothing to show (no configuration, or a report of nothing), *failed* says why the
linter could not be run or understood, and *stale* stands for a result that a newer
request has overtaken.

Embedded: `LintOutcome` with `has_errors`, `from_parse` (`ofReport`), `empty`, `failed` and
`stale`.
-/

namespace EditorLint

/-- The end of a request; every kind names the configuration, where one was found. -/
inductive Outcome where
  | ok (diagnostics : List Diagnostic) (fix : Option Text) (config : Option Path)
  | empty (config : Option Path)
  | failed (reason : Text) (config : Option Path)
  | stale (config : Option Path)

namespace Outcome

def status : Outcome → String
  | ok _ _ _ => "ok"
  | empty _ => "empty"
  | failed _ _ => "failed"
  | stale _ => "stale"

def diagnostics : Outcome → List Diagnostic
  | ok ds _ _ => ds
  | _ => []

def fix : Outcome → Option Text
  | ok _ fix _ => fix
  | _ => none

def error : Outcome → Option Text
  | failed reason _ => some reason
  | _ => none

def config : Outcome → Option Path
  | ok _ _ c | empty c | failed _ c | stale c => c

/-- Whether a diagnostic of severity error is among those to show. -/
def hasErrors (o : Outcome) : Bool := o.diagnostics.any fun d => d.severity == .error

/-- The outcome of a readable report: empty when it neither finds nor proposes
anything. -/
def ofReport (diagnostics : List Diagnostic) (fix : Option Text) (config : Option Path) : Outcome :=
  if diagnostics.isEmpty && fix.isNone then empty config else ok diagnostics fix config

end Outcome

def Report.outcome (r : Report) (config : Option Path) : Outcome :=
  .ofReport r.diagnostics r.fix config

end EditorLint
