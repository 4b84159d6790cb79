import EditorLint.OpenDocument
import EditorLint.Request

/-!
# Applying fixes

The linter proposes a text for the whole document.  It is compared with the text that the
document has when the proposal is there, not with the one that the linter was given, and
it replaces the body only if the two differ.

Embedded: `apply_fix` with `FixResult.differs_from`, and the part of `_fix` that follows a run
(`amend`).
-/

namespace EditorLint.Fix

def logger : String := "nanolint.lint.fix"

/-- The record of a document that has been fixed. -/
def appliedRecord (path : Path) : Log.Record :=
  .plain .info logger "fix_applied" [Request.pathField path]

/-- A document that refuses to be changed: logged and told to the host. -/
def refused (h : Handler) (path : Path) (f : Failure) : Action Unit := do
  Action.log (.ofFailure Request.logger "fix_apply_failed" [Request.pathField path] f)
  h.report (.unexpected ("applying fix failed: " ++ f.display) (Request.pathDetail path))

/-- The document with the text that an outcome proposes; nothing if it stays as it is. -/
def amend (h : Handler) (d : OpenDocument) (o : Outcome) : Action (Option OpenDocument) :=
  match d.applyFix o.fix with
  | .error f => do
    refused h d.path f
    return none
  | .ok none => return none
  | .ok (some fixed) => do
    Action.log (appliedRecord d.path)
    return some fixed

end EditorLint.Fix
