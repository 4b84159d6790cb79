import EditorLint.Proofs.Findings
import EditorLint.Proofs.Frames
import EditorLint.Proofs.Outcomes

/-!
# Linting on the command line

Linting a file that can be opened shows the outcome of a request for it (`Lint.exists_shown`),
and ends with the status that the outcome stands for.  As JSON an outcome can always be shown
(`Lint.run_shown_json`), and for a reader where there are no lone surrogates in its lines
(`Lint.run_shown_lines`).

So the status tells what has become of the linter, unless the file cannot be opened or is not in
UTF-8, or a diagnostic cannot be printed (`lint_ends_well_iff`): then the command ends in a way
that nobody has foreseen, and its status is that of errors.  A diagnostic cannot be printed if
there is a lone surrogate in it, or in the path of the file, where that has bytes in it that are
not UTF-8.
-/

namespace EditorLint

open Command

/-! ## What is shown -/

/-- A diagnostic without lone surrogates. -/
structure Diagnostic.IsWhole (d : Diagnostic) : Prop where
  message : d.message.IsWhole
  code : ∀ code ∈ d.code, code.IsWhole

theorem Diagnostic.isWhole_render (path : Path) (d : Diagnostic) :
    (d.render path).IsWhole ↔ path.text.IsWhole ∧ d.IsWhole := by
  have hnumber (n : Int) : (Text.ofInt n).IsWhole := (Text.isPlain_ofInt n).isWhole
  have hliteral (s : String) : (Text.ofString s).IsWhole := Text.isWhole_ofChars _
  have hhead : (path.text ++ ":" ++ Text.ofInt d.line ++ ":" ++ Text.ofInt d.column ++ ": "
      ++ d.severity.word ++ ": " ++ d.message).IsWhole ↔
        path.text.IsWhole ∧ d.message.IsWhole := by
    simp only [Text.isWhole_append, hnumber, hliteral, and_true]
  have hall : d.IsWhole ↔ d.message.IsWhole ∧ ∀ code ∈ d.code, code.IsWhole :=
    ⟨fun h => ⟨h.message, h.code⟩, fun h => ⟨h.1, h.2⟩⟩
  unfold render
  dsimp only
  rw [hall]
  split
  · rename_i hcode
    rw [hhead, hcode]
    exact and_congr_right fun _ => ⟨fun h => ⟨h, fun _ hc => nomatch hc⟩, fun h => h.1⟩
  · rename_i hcode
    rw [hhead, hcode]
    refine and_congr_right fun _ => ⟨fun h => ⟨h, ?_⟩, fun h => h.1⟩
    rintro _ ⟨⟩ c hc
    cases hc
  · rename_i code _ hcode
    rw [hcode]
    simp only [Text.isWhole_append, hhead, hliteral, and_true, and_assoc]
    exact and_congr_right fun _ => and_congr_right fun _ =>
      ⟨fun h _ hc => (Option.some.inj hc) ▸ h, fun h => h code rfl⟩

namespace Lint

def ending (o : Outcome) : Except Halt Unit :=
  if status o ≠ 0 then .error (.exit (status o)) else .ok ()

theorem status_ending (o : Outcome) : CommandLine.status (ending o) = status o := by
  unfold ending
  split
  · rfl
  · rename_i h
    exact (Decidable.not_not.mp h).symm

theorem ending_ne_failure (o : Outcome) (f : Failure) : ending o ≠ .error (.failure f) := by
  unfold ending
  split <;> rintro ⟨⟩

theorem run_ending (o : Outcome) (t : Terminal) :
    t.run (if status o ≠ 0 then Command.exit (status o) else pure () : Command Unit) =
      (ending o, t) := by
  unfold ending
  split <;> rfl

theorem isPlain_json (path : Path) (o : Outcome) : (json path o).IsPlain := Json.isPlain_write _

/-- An outcome can always be shown as JSON. -/
theorem run_shown_json (path : Path) (o : Outcome) (t : Terminal) :
    t.run (shown true path o) = (ending o, t.shows (json path o).printed) := by
  show t.run (print (json path o) >>= fun _ =>
    (if status o ≠ 0 then Command.exit (status o) else pure () : Command Unit)) = _
  rw [run_bind_ok (run_print (isPlain_json path o).isWhole t), run_ending]

/-- The lines for a reader: one for each diagnostic. -/
def lines (path : Path) (o : Outcome) : List Char :=
  o.diagnostics.flatMap fun d => (d.render path).printed

/-- For a reader, what can be printed is. -/
theorem run_shown_lines {path : Path} {o : Outcome}
    (hwhole : ∀ d ∈ o.diagnostics, (d.render path).IsWhole)
    (hconfig : o.diagnostics ≠ [] → o.config.isSome = true) (t : Terminal) :
    ∃ t', t.run (shown false path o) = (ending o, t') ∧
      t'.stdout = t.stdout ++ lines path o ∧ t'.dealt = t.dealt := by
  have hdisplay : ∃ t', t.run (display path o) = (.ok (), t') ∧
      t'.stdout = t.stdout ++ lines path o ∧ t'.dealt = t.dealt := by
    cases o with
    | failed reason config => exact ⟨_, rfl, (List.append_nil _).symm, rfl⟩
    | empty config =>
      cases config with
      | none => exact ⟨_, rfl, (List.append_nil _).symm, rfl⟩
      | some config => exact ⟨_, rfl, (List.append_nil _).symm, rfl⟩
    | stale config =>
      cases config with
      | none => exact ⟨_, rfl, (List.append_nil _).symm, rfl⟩
      | some config => exact ⟨_, rfl, (List.append_nil _).symm, rfl⟩
    | ok diagnostics fix config =>
      cases config with
      | none =>
        cases diagnostics with
        | nil => exact ⟨_, rfl, (List.append_nil _).symm, rfl⟩
        | cons d diagnostics => cases hconfig (List.cons_ne_nil _ _)
      | some config => exact ⟨_, run_printAll hwhole t, rfl, rfl⟩
  obtain ⟨t', hrun, hstdout, hdealt⟩ := hdisplay
  refine ⟨t', ?_, hstdout, hdealt⟩
  show t.run (display path o >>= fun _ =>
    (if status o ≠ 0 then Command.exit (status o) else pure () : Command Unit)) = _
  rw [run_bind_ok hrun, run_ending]

/-- What cannot be printed ends the command in a way that nobody has foreseen. -/
theorem failure_of_shown_lines {path config : Path} {o : Outcome} (hconfig : o.config = some config)
    (hwhole : ¬∀ d ∈ o.diagnostics, (d.render path).IsWhole) (t : Terminal) :
    ∃ f t', t.run (shown false path o) = (.error (.failure f), t') := by
  obtain ⟨f, t', hrun⟩ := failure_of_printAll hwhole t
  have hdisplay : display path o = o.diagnostics.forM fun d => print (d.render path) := by
    cases o with
    | ok diagnostics fix config' =>
      cases hconfig
      rfl
    | empty | failed | stale => exact absurd (fun d hd => nomatch hd) hwhole
  refine ⟨f, t', ?_⟩
  show t.run (display path o >>= fun _ =>
    (if status o ≠ 0 then Command.exit (status o) else pure () : Command Unit)) = _
  rw [hdisplay, run_bind, hrun]

end Lint

/-! ## From the report to the status -/

namespace Request

variable {m : Machine} {s : LinterSettings} {path : Path} {child : Child} {o : Outcome}

/-- The linter was started for a document, and a message of severity error stands in the report
that it has answered with. -/
inductive FindsError (m : Machine) (s : LinterSettings) (path : Path) (child : Child) : Prop where
  | of_message {config : Path} {output : ProcessOutput} {message : Entries}
    (search : located m s path = .ok (some config)) (starts : child.refusal = none)
    (answers : child.talk s.timeout = .replied (.output output))
    (holds : Report.Holds (Utf8.decodeReplacing output.stdout) message)
    (grave : Report.severity (message.field "severity") = .error)

/-- The linter could not be run for a document, or its report cannot be used. -/
inductive Misses (m : Machine) (s : LinterSettings) (path : Path) (child : Child) : Prop where
  | unsearched {f : Failure} (search : located m s path = .error f)
  | undelivered {config : Path} (search : located m s path = .ok (some config))
    (fails : ∀ diagnostics fix, ¬child.Serves s.timeout diagnostics fix)

theorem Comes.config_of_diagnostics (hc : Comes m s path child o) (hsome : o.diagnostics ≠ []) :
    o.config.isSome = true := by
  obtain ⟨config, diagnostics, fix, -, -, rfl⟩ := hc.located_of_diagnostics hsome
  rw [Outcome.config_ofReport]
  rfl

/-- The status is 1 only if the linter has reported an error. -/
theorem Comes.findsError (hc : Comes m s path child o) (h : Lint.status o = 1) :
    FindsError m s path child := by
  have herror : o.hasErrors = true := by
    unfold Lint.status at h
    split at h
    · cases h
    · split at h
      · assumption
      · cases h
  obtain ⟨d, hd, hgrave⟩ := List.any_eq_true.mp herror
  obtain ⟨config, diagnostics, fix, search, serves, rfl⟩ :=
    hc.located_of_diagnostics (List.ne_nil_of_mem hd)
  rw [Outcome.diagnostics_ofReport] at hd
  obtain ⟨starts, delivers⟩ := serves
  generalize htalk : child.talk s.timeout = e at delivers
  cases delivers with
  | of_report _ accepted =>
    obtain ⟨message, hholds, hkept⟩ := Report.origin accepted hd
    have hseverity := (Report.kept_of_mapObject hkept).1
    exact .of_message search starts htalk hholds (hseverity ▸ beq_iff_eq.mp hgrave)

theorem Comes.status_of_misses (hc : Comes m s path child o) (h : Misses m s path child) :
    Lint.status o = 2 := by
  cases hc with
  | unlocated search =>
    cases h with
    | unsearched search' | undelivered search' =>
      rw [search] at search'
      cases search'
  | delivered search serves =>
    cases h with
    | unsearched search' =>
      rw [search] at search'
      cases search'
    | undelivered _ fails => exact absurd serves (fails _ _)
  | undelivered | unsearched => rfl

end Request

/-! ## Linting a file -/

section Run

variable {t : Terminal} {verbose : Bool} {workspace : Option Path} {c : Config}
  {files : FileSystem} {log : Log.Setup}
  (hlog : Log.Setup.configure t.machine.files t.machine.cwd c.logging verbose =
    (files, log, .ok ()))
  (hload : Config.load t.machine workspace true [] = .ok c) {p : Path}
include hlog hload

/-- A file that cannot be opened ends the command in a way that nobody has foreseen. -/
theorem Lint.failure_of_unopened {f : Failure}
    (hopen : FileDocument.openFile files t.machine.cwd p "utf-8" = .error f) (asJson : Bool) :
    (t.run (Lint.run verbose p asJson workspace)).1 = .error (.failure f) := by
  have hdocument := run_openDocument_error (t := t.prepared files log) hopen
  unfold Lint.run
  rw [run_bind_ok (run_configuration hload hlog), run_bind, hdocument]

/-- A file that can be opened is linted: the command shows the outcome of a request for the
document, and what the log has written on the output stream stands before that. -/
theorem Lint.exists_shown {d : FileDocument}
    (hopen : FileDocument.openFile files t.machine.cwd p "utf-8" = .ok d) :
    let m : Machine := { t.machine with files }
    let child := t.children.headD .absent
    ∃ (o : Outcome) (told : Terminal),
      (Request.run .none m (.ok c.linter) .diagnose d.path d.text child).result = .ok o ∧
        Request.Comes m c.linter d.path child o ∧ (log.SparesOutput → told.stdout = t.stdout) ∧
          ∀ asJson, t.run (Lint.run verbose p asJson workspace) =
            told.run (shown asJson d.path o) := by
  intro m child
  obtain ⟨id, correlation, hrun⟩ := Lint.run_file hlog hload hopen
  let t' : Terminal := { t.prepared files log with correlation }
  obtain ⟨o, hresult, hcomes⟩ : ∃ o,
      (Request.run .none m (.ok c.linter) .diagnose d.path d.text child).result = .ok o ∧
        Request.Comes m c.linter d.path child o :=
    Request.exists_comes Handler.calm_none (fun h => nomatch h) fun h => nomatch h
  have hperformed := run_perform ((Action.result_forRequest id _).trans hresult) t'
  exact ⟨o, _, hresult, hcomes, fun hspares => Terminal.stdout_undergoes (t := t') hspares _,
    fun asJson => (hrun asJson).trans (run_bind_ok hperformed _)⟩

end Run

theorem Lint.run_commandLine {t : Terminal} (verbose : Bool) {words : List Text} {a : Arguments}
    {file : Text} (hscan : Arguments.scan Lint.spec words = .ok a) (hname : a.Names file)
    (hworkspace : ∀ w ∈ a.value? "--workspace", t.machine.files.Shows t.machine.cwd w .directory)
    {bytes : List UInt8} {executable : Bool}
    (hfile : t.machine.files.Shows t.machine.cwd file (.file bytes executable)) :
    t.run (CommandLine.run (CommandLine.flags verbose ++ ("lint" : Text) :: words)) =
      (CommandLine.opened t verbose).run (Lint.run verbose (.ofText file) (a.has "--json")
        ((a.value? "--workspace").map Path.ofText)) :=
  (CommandLine.run_command (fun _ => rfl)
    (rfl : CommandLine.command? ("lint" : Text) = some Lint.call) t verbose words).trans
    (Lint.run_call (t := CommandLine.opened t verbose) hscan hname hworkspace hfile)

/-- Linting a file that is there, and may be read as it is typed, ends as is documented exactly where
the file is opened and what is shown can be printed: it does not end in a way that nobody has
foreseen, the status is 1 only if the linter has reported an error, and it is 2 whenever the linter
could not be run or its report cannot be used.  For that the file has to be read under its absolute
path and be in UTF-8; and for a reader, there may be no lone surrogates in the diagnostics that the
linter delivers, nor, if there are any, in that path. -/
theorem lint_ends_well_iff {m : Machine} (time : Text) (children : List Child)
    (traces : List CallTrace) (verbose : Bool) {words : List Text} {a : Arguments} {file : Text}
    (hscan : Arguments.scan Lint.spec words = .ok a) (hname : a.Names file)
    (hworkspace : ∀ w ∈ a.value? "--workspace", m.files.Shows m.cwd w .directory)
    {bytes : List UInt8} {executable : Bool}
    (hfile : m.files.Shows m.cwd file (.file bytes executable)) {c : Config}
    (hload : Config.load m ((a.value? "--workspace").map Path.ofText) true [] = .ok c)
    {files : FileSystem} {log : Log.Setup}
    (hlog : Log.Setup.configure m.files m.cwd c.logging verbose = (files, log, .ok ())) :
    let linted := (Terminal.fresh m time children traces).run
      (CommandLine.run (CommandLine.flags verbose ++ ("lint" : Text) :: words))
    let m' : Machine := { m with files }
    let path := m.cwd.join (.ofText file)
    let child := children.headD .absent
    ((∀ f, linted.1 ≠ .error (.failure f)) ∧
        (CommandLine.status linted.1 = 1 → Request.FindsError m' c.linter path child) ∧
        (Request.Misses m' c.linter path child → CommandLine.status linted.1 = 2)) ↔
      m'.HasText file ∧ (a.has "--json" = false → ∀ config diagnostics fix,
        Request.located m' c.linter path = .ok (some config) →
          child.Serves c.linter.timeout diagnostics fix →
            ∀ d ∈ diagnostics, path.text.IsWhole ∧ d.IsWhole) := by
  intro linted m' path child
  let t₁ := CommandLine.opened (Terminal.fresh m time children traces) verbose
  have hlinted : linted = t₁.run (Lint.run verbose (.ofText file) (a.has "--json") _) :=
    Lint.run_commandLine verbose hscan hname hworkspace hfile
  cases hopen : FileDocument.openFile files m.cwd (.ofText file) "utf-8" with
  | error f =>
    have hend := Lint.failure_of_unopened (t := t₁) hlog hload hopen (a.has "--json")
    refine iff_of_false (fun h => h.1 f (hlinted ▸ hend)) fun ⟨⟨cs, hreads⟩, _⟩ => ?_
    cases hopen.symm.trans (FileDocument.openFile_ok_iff (m := m').mpr ⟨cs, hreads, rfl⟩)
  | ok d =>
    obtain ⟨cs, hreads, rfl⟩ := FileDocument.openFile_ok_iff (m := m').mp hopen
    have htext : m'.HasText file := ⟨cs, hreads⟩
    obtain ⟨o, told, -, hcomes, -, hshown⟩ := Lint.exists_shown (t := t₁) hlog hload hopen
    have hlinted : linted = told.run (Lint.shown (a.has "--json") path o) :=
      hlinted.trans (hshown _)
    -- An outcome that is shown in full ends as it stands for.
    have hends (h : linted.1 = Lint.ending o) : (∀ f, linted.1 ≠ .error (.failure f)) ∧
        (CommandLine.status linted.1 = 1 → Request.FindsError m' c.linter path child) ∧
        (Request.Misses m' c.linter path child → CommandLine.status linted.1 = 2) := by
      rw [h, Lint.status_ending]
      exact ⟨Lint.ending_ne_failure o, hcomes.findsError, hcomes.status_of_misses⟩
    cases hjson : a.has "--json" with
    | true =>
      rw [hjson, Lint.run_shown_json] at hlinted
      exact iff_of_true (hends (congrArg (·.1) hlinted)) ⟨htext, fun h => nomatch h⟩
    | false =>
      rw [hjson] at hlinted
      by_cases hwhole : ∀ d ∈ o.diagnostics, (d.render path).IsWhole
      · obtain ⟨t', hrun, -, -⟩ := Lint.run_shown_lines hwhole hcomes.config_of_diagnostics told
        refine iff_of_true (hends (congrArg (·.1) (hlinted.trans hrun))) ⟨htext, ?_⟩
        intro _ config diagnostics fix search serves d hd
        rw [hcomes.of_serves search serves, Outcome.diagnostics_ofReport] at hwhole
        exact (Diagnostic.isWhole_render path d).mp (hwhole d hd)
      · have hsome : o.diagnostics ≠ [] := fun hnone => hwhole fun d hd => by
          rw [hnone] at hd
          cases hd
        obtain ⟨config, diagnostics, fix, search, serves, rfl⟩ :=
          hcomes.located_of_diagnostics hsome
        obtain ⟨f, t', hrun⟩ :=
          Lint.failure_of_shown_lines (Outcome.config_ofReport _ _ _) hwhole told
        have hend : linted.1 = .error (.failure f) := congrArg (·.1) (hlinted.trans hrun)
        refine iff_of_false (fun h => h.1 f hend) fun h => hwhole fun d hd => ?_
        rw [Outcome.diagnostics_ofReport] at hd
        exact (Diagnostic.isWhole_render path d).mpr
          (h.2 rfl config diagnostics fix search serves d hd)

theorem Child.not_serves_absent (timeout : Float) (diagnostics : List Diagnostic)
    (fix : Option Text) : ¬absent.Serves timeout diagnostics fix :=
  fun h => nomatch h.starts

/-- The text of a name that is not in UTF-8, of the byte 0xff. -/
def byteName : Text := [.surrogate 0x4FF]

/-- A directory with two empty files and a configuration, and the settings that are needed. -/
def Machine.small : Machine :=
  ⟨.ofNodes [([], .directory), (["a.js"], .file [] false), ([.ofText byteName], .file [] false),
      (["eslint.config.js"], .file [] false)], ⟨.slash, []⟩,
    [("NANOLINT__LINTER__ESLINT_PATH", "e"), ("NANOLINT__LINTER__SHELL_PATH", "s")], .alone "/root"⟩

namespace Machine

theorem isPlaced_small : small.IsPlaced := ⟨rfl, rfl⟩

theorem shows_small : small.files.Shows small.cwd "a.js" (.file [] false) :=
  ⟨["a.js"], by decide +kernel⟩

theorem shows_small_byte : small.files.Shows small.cwd byteName (.file [] false) :=
  ⟨[.ofText byteName], by decide +kernel⟩

theorem hasText_small : small.HasText "a.js" :=
  ⟨[], [], ok_of_toOption (by decide +kernel), by rw [Utf8.decode, Utf8.decodeFrom]⟩

theorem hasText_small_byte : small.HasText byteName :=
  ⟨[], [], ok_of_toOption (by decide +kernel), by rw [Utf8.decode, Utf8.decodeFrom]⟩

/-- Its settings load, the log tells warnings only and on the error stream, and the configuration
is found for both files. -/
theorem load_small : ∃ c log, Config.load small none true [] = .ok c ∧
    Log.Setup.configure small.files small.cwd c.logging false = (small.files, log, .ok ()) ∧
    (∀ c ∈ log.channels, c.destination = .console .stderr) ∧
    ∀ p : Path, p.parent = ⟨.slash, []⟩ → Request.located small c.linter p =
      .ok (some ⟨.slash, ["eslint.config.js"]⟩) := by
  have hsettings : (Config.load small none true []).toOption.map
      (fun c => (c.logging, c.linter.configNames, c.linter.maxAscent)) =
        some (.defaults, [], 100) := by decide +kernel
  obtain ⟨c, hload, hc⟩ := exists_ok_of_toOption hsettings
  have hlogging : c.logging = .defaults := congrArg (·.1) hc
  have hnames : c.linter.configNames = [] := congrArg (·.2.1) hc
  have hascent : c.linter.maxAscent = 100 := congrArg (·.2.2) hc
  obtain ⟨log, hlog, hstderr⟩ : ∃ log,
      Log.Setup.configure small.files small.cwd .defaults false = (small.files, log, .ok ()) ∧
        ∀ c ∈ log.channels, c.destination = .console .stderr := ⟨_, rfl, by decide⟩
  refine ⟨c, log, hload, hlogging ▸ hlog, hstderr, fun p hp => ?_⟩
  unfold Request.located
  rw [hp, hnames, hascent]
  exact ok_of_toOption (by decide +kernel)

end Machine

/-- The name of a directory, as long as names may be. -/
def longName : Text := List.replicate 63 (.scalar (Char.ofNat 0x1D4B9))

/-- A path that is short enough as it is typed, and too long from the root: it goes down into a
directory and up again, many times over. -/
def longPath : Text :=
  (List.replicate 15 (longName ++ Text.ofString "/../")).flatten ++ longName ++ Text.ofString "abc"

/-- A file that such a path leads to, with what is needed to lint it. -/
def Machine.long : Machine :=
  ⟨.ofNodes [([], .directory), (["eslint.config.js"], .file [] false),
      ([.ofText longName], .directory),
      ([.ofText (longName ++ Text.ofString "abc")], .file [] false)], ⟨.slash, []⟩,
    [("NANOLINT__LINTER__ESLINT_PATH", "e"), ("NANOLINT__LINTER__SHELL_PATH", "s")], .alone "/root"⟩

/-- Where there is no linter, the status is 2. -/
theorem lint_ends_well_unstarted :
    let linted := (Terminal.fresh .small [] [] []).run
      (CommandLine.run (CommandLine.flags false ++ ("lint" : Text) :: [Text.ofString "a.js"]))
    Machine.small.HasText "a.js" ∧ (∀ f, linted.1 ≠ .error (.failure f)) ∧
      CommandLine.status linted.1 = 2 := by
  intro linted
  obtain ⟨c, log, hload, hlog, -, search⟩ := Machine.load_small
  have hrefused := Child.not_serves_absent c.linter.timeout
  have hworkspace := Arguments.workspace_of_none (a := ⟨[], ["a.js"]⟩) rfl Machine.small.files
    Machine.small.cwd
  obtain ⟨hforeseen, -, hmisses⟩ := (lint_ends_well_iff [] [] [] false
    (rfl : Arguments.scan Lint.spec ["a.js"] = .ok ⟨[], ["a.js"]⟩) ⟨rfl, rfl⟩ hworkspace
    Machine.shows_small hload hlog).mpr
      ⟨Machine.hasText_small, fun _ _ ds fix _ serves => absurd serves (hrefused ds fix)⟩
  exact ⟨Machine.hasText_small, hforeseen, hmisses (.undelivered (search _ rfl) hrefused)⟩

/-- Whether a command has ended in a way that nobody has foreseen. -/
def isUnforeseen : Except Halt Unit → Bool
  | .error (.failure _) => true
  | .error (.exit _) | .ok () => false

theorem isUnforeseen_iff (e : Except Halt Unit) :
    isUnforeseen e = true ↔ ∃ f, e = .error (.failure f) := by
  constructor
  · intro h
    cases e with
    | ok => cases h
    | error halt =>
      cases halt with
      | exit => cases h
      | failure f => exact ⟨f, rfl⟩
  · rintro ⟨f, rfl⟩
    rfl

/-- A file that is not in UTF-8 is not linted at all, and yet the status is that of errors. -/
theorem lint_ends_badly :
    let m : Machine :=
      { Machine.small with files := Machine.small.files.set ["a.js"] (.file [0xff] false) }
    let linted := (Terminal.fresh m [] [] []).run (CommandLine.run ["lint", "a.js"])
    m.IsPlaced ∧ m.files.Shows m.cwd "a.js" (.file [0xff] false) ∧
      (Config.load m none true []).toOption.map (·.logging) = some .defaults ∧
      CommandLine.status linted.1 = 1 ∧ linted.2.attempts = [] ∧
      ∃ f, linted.1 = .error (.failure f) := by
  intro m linted
  have hruns : (Config.load m none true []).toOption.map (·.logging) = some .defaults ∧
      CommandLine.status linted.1 = 1 ∧ linted.2.attempts = [] ∧
      isUnforeseen linted.1 = true := by decide +kernel
  obtain ⟨hload, hstatus, hnone, hend⟩ := hruns
  exact ⟨⟨rfl, rfl⟩, ⟨["a.js"], by decide +kernel⟩, hload, hstatus, hnone,
    (isUnforeseen_iff _).mp hend⟩

end EditorLint
