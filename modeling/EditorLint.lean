import EditorLint.Main
import EditorLint.Proofs.Sequencer
import EditorLint.Session.Step
import EditorLint.Shell.Words
import EditorLint.Proofs.Stages
import EditorLint.Proofs.Course
import EditorLint.Proofs.Refresh
import EditorLint.Proofs.LiveText
import EditorLint.Proofs.Files
import EditorLint.Proofs.Saving
import EditorLint.Proofs.Checks
import EditorLint.Proofs.Loading
import EditorLint.Proofs.Overlay
import EditorLint.Proofs.Precedence
import EditorLint.Proofs.Containment
import EditorLint.Proofs.Lifecycle
import EditorLint.Proofs.Returning
import EditorLint.Proofs.FixCourse
import EditorLint.Proofs.Decoding
import EditorLint.Proofs.RoundTrip
import EditorLint.Proofs.Timeline
import EditorLint.Proofs.DeferredSaves
import EditorLint.Proofs.Telling
import EditorLint.Proofs.Correlation
import EditorLint.Proofs.Reaping
import EditorLint.Proofs.Growth
import EditorLint.Proofs.Quoting
import EditorLint.Proofs.Agreement
import EditorLint.Proofs.LintOutput
import EditorLint.Proofs.Fixing
import EditorLint.Proofs.Ascent
import EditorLint.Proofs.Verdicts
import EditorLint.Proofs.Bounds
import EditorLint.Proofs.Routing
import EditorLint.Proofs.Defeats
import EditorLint.Proofs.CommandWords
import EditorLint.Proofs.Tokens
import EditorLint.Proofs.Reopening
import EditorLint.Proofs.BareNames
import EditorLint.Proofs.ChildCourse
import EditorLint.Proofs.OverlayObjects
import EditorLint.Proofs.UnsetUser
import EditorLint.Proofs.ResaveLoop
import EditorLint.Proofs.ReportShapes
import EditorLint.Proofs.WellFormed
