import EditorLint.Proofs.Decoding
import EditorLint.Proofs.Frames
import EditorLint.Proofs.Linting
import EditorLint.Proofs.Outcomes

/-!
# Fixing on the command line

Fixing a file that can be opened comes to one of three things (`Fix.settle`): there is nothing to
fix, the proposal is saved, or, for a check, the status tells of it.  Up to there a check and a fix
do the same, and all that happens to the files is that the log is written (`Fix.exists_settled`).

So a check tells by its status whether a fix would put other bytes in the file, and changes
nothing itself (`check_foretells_fix`).
-/

namespace EditorLint

open Command

theorem Utf8.decode_of_encode {t : Text} {bytes : List UInt8} (h : encode t = .ok bytes) :
    ∃ cs, t = Text.ofChars cs ∧ decode bytes = .ok cs := by
  obtain ⟨cs, rfl⟩ := Text.exists_ofChars (scalars_of_encode h)
  rw [encode_ofChars] at h
  exact ⟨cs, rfl, Except.ok.inj h ▸ decode_encodeChars cs⟩

/-- Bytes that decode to a text are not those of another text. -/
theorem Utf8.ne_of_encode {bytes new : List UInt8} {cs : List Char} {t : Text}
    (hold : decode bytes = .ok cs) (hnew : encode t = .ok new) (hother : t ≠ Text.ofChars cs) :
    new ≠ bytes := by
  rintro rfl
  obtain ⟨ds, rfl, hdecode⟩ := decode_of_encode hnew
  exact hother (congrArg Text.ofChars (Except.ok.inj (hdecode.symm.trans hold)))

/-! ## Proposals -/

theorem Delivers.proposes {e : TalkEnd} {diagnostics : List Diagnostic} {text : Text}
    (h : Delivers e diagnostics (some text)) : Proposes e text := by
  cases h with
  | of_report silent accepted =>
    obtain ⟨first, rest, hread, houtput⟩ := Report.output_of_read accepted
    exact .of_report _ first rest text (ProcessOutput.decoded_eq_nil.mp silent) hread houtput
      ⟨diagnostics, some text, accepted⟩

theorem Request.Comes.proposes {m : Machine} {s : LinterSettings} {path : Path} {child : Child}
    {o : Outcome} (hc : Comes m s path child o) {text : Text} (hfix : o.fix = some text) :
    Proposes (child.talk s.timeout) text := by
  cases hc with
  | unlocated | undelivered | unsearched => cases hfix
  | delivered _ serves =>
    rw [Outcome.fix_ofReport] at hfix
    subst hfix
    exact serves.delivers.proposes

namespace Fix

/-- The text that an outcome proposes for a document, if it is another one than the document
has. -/
def proposal (d : FileDocument) (o : Outcome) : Option Text := o.fix.filter (· ≠ d.text)

theorem proposal_of_fix {d : FileDocument} {o : Outcome} {text : Text} (hfix : o.fix = some text)
    (hother : text ≠ d.text) : proposal d o = some text := by
  unfold proposal
  rw [hfix, Option.filter_some_pos (by simpa using hother)]

theorem proposal_eq_some {d : FileDocument} {o : Outcome} {text : Text}
    (h : proposal d o = some text) : o.fix = some text ∧ text ≠ d.text := by
  obtain ⟨hfix, hother⟩ := Option.filter_eq_some_iff.mp h
  exact ⟨hfix, by simpa using hother⟩

theorem proposal_of_serves {m : Machine} {s : LinterSettings} {d : FileDocument} {child : Child}
    {o : Outcome} (hc : Request.Comes m s d.path child o) {config : Path}
    (search : Request.located m s d.path = .ok (some config)) {diagnostics : List Diagnostic}
    {text : Text} (serves : child.Serves s.timeout diagnostics (some text))
    (hother : text ≠ d.text) : proposal d o = some text := by
  have hfix : o.fix = some text := by rw [hc.of_serves search serves, Outcome.fix_ofReport]
  exact proposal_of_fix hfix hother

theorem result_amend (h : Handler) (d : FileDocument) (o : Outcome) :
    (amend h (.file d) o).result =
      .ok ((proposal d o).map fun text => .file (d.replaceText text)) := by
  have htext : (OpenDocument.file d).text = d.text := rfl
  unfold amend OpenDocument.applyFix proposal
  cases o.fix with
  | none => rfl
  | some text =>
    dsimp only
    by_cases hsame : text = d.text
    · rw [htext, if_pos hsame, Option.filter_some_neg (by simpa using hsame)]
      rfl
    · rw [htext, if_neg hsame, Option.filter_some_pos (by simpa using hsame)]
      rfl

/-! ## What is done with them -/

/-- Saving puts the text in the place of what was in the file. -/
theorem run_save (t : Terminal) {d : FileDocument} (hutf8 : d.encoding = .utf8) {place : Place}
    {old new : List UInt8} {executable : Bool}
    (hfound : t.machine.files.lookUp t.machine.cwd d.path = .found place (.file old executable))
    (hmay : t.machine.files.mayWrite place = true) (hencode : Utf8.encode d.text = .ok new) :
    ∃ files, t.run (save (.file d)) = (.ok (), t.withFiles files) ∧ ∀ other,
      files.at? other =
        if other = place then some (.file new executable) else t.machine.files.at? other := by
  have hencode : d.encoding.encode d.text = .ok new := by
    rw [hutf8]
    show (Utf8.encode d.text).mapError Failure.ofSurrogate = _
    rw [hencode]
    rfl
  obtain ⟨files, hwrite, hfiles⟩ := TextFile.write_found hfound hmay hencode
  have hwrite : d.save t.machine.cwd t.machine.files = (files, .ok ()) := hwrite
  have hsave : OpenDocument.save t.machine.files t.machine.cwd (.file d) =
      (files, .ok (.file d)) := by
    unfold OpenDocument.save
    dsimp only
    rw [hwrite]
    rfl
  refine ⟨files, ?_, hfiles⟩
  show t.run (do
    let _ ← store (OpenDocument.save t.machine.files t.machine.cwd (.file d))
    pure ()) = _
  rw [hsave]
  rfl

section Settle

variable {d : FileDocument} (hpath : d.path.text.IsWhole) (t : Terminal)
include hpath

theorem run_print_told (t : Terminal) (s : String) :
    ∃ t', t.run (print (d.path.text ++ Text.ofString s)) = (.ok (), t') ∧
      t'.machine = t.machine :=
  ⟨_, run_print (Text.isWhole_append.mpr ⟨hpath, Text.isWhole_ofChars _⟩) t, rfl⟩

theorem run_settle_check (changed : OpenDocument) :
    ∃ t', t.run (settle true d (some changed)) = (.error (.exit 1), t') ∧ t'.machine = t.machine := by
  obtain ⟨t', hprint, hmachine⟩ := run_print_told hpath t ": would be fixed"
  refine ⟨t', ?_, hmachine⟩
  show t.run (print (d.path.text ++ Text.ofString ": would be fixed") >>= fun _ =>
    Command.exit 1) = _
  rw [run_bind_ok hprint]
  rfl

/-- A fix puts the proposal in the place of what was in the file. -/
theorem run_settle_save (hutf8 : d.encoding = .utf8) {place : Place} {old new : List UInt8}
    {executable : Bool}
    (hfound : t.machine.files.lookUp t.machine.cwd d.path = .found place (.file old executable))
    (hmay : t.machine.files.mayWrite place = true) {text : Text} (hencode : Utf8.encode text = .ok new) :
    ∃ t', t.run (settle false d (some (.file (d.replaceText text)))) = (.ok (), t') ∧ ∀ other,
      t'.machine.files.at? other =
        if other = place then some (.file new executable) else t.machine.files.at? other := by
  obtain ⟨files, hsave, hfiles⟩ := run_save t (d := d.replaceText text) hutf8 hfound hmay hencode
  obtain ⟨t', hprint, hmachine⟩ := run_print_told hpath (t.withFiles files) ": fixed"
  refine ⟨t', ?_, hmachine ▸ hfiles⟩
  show t.run (save (.file (d.replaceText text)) >>= fun _ =>
    print (d.path.text ++ Text.ofString ": fixed")) = _
  rw [run_bind_ok hsave, hprint]

end Settle

/-! ## Fixing a file -/

section Run

variable {t : Terminal} {verbose : Bool} {workspace : Option Path} {c : Config}
  {files : FileSystem} {log : Log.Setup}
  (hlog : Log.Setup.configure t.machine.files t.machine.cwd c.logging verbose =
    (files, log, .ok ()))
  (hload : Config.load t.machine workspace true [] = .ok c) {p : Path}
include hlog hload

/-- A file that can be opened is fixed: the request comes to an outcome, and what this proposes
is settled.  Before that, nothing happens to the files but that the log is written. -/
theorem exists_settled {d : FileDocument}
    (hopen : FileDocument.openFile files t.machine.cwd p "utf-8" = .ok d)
    (hencodable : ∃ bytes, Utf8.encode d.text = .ok bytes) :
    let m : Machine := { t.machine with files }
    let child := t.children.headD .absent
    ∃ (o : Outcome) (told : Terminal),
      (Request.run .none m (.ok c.linter) (.fix false) d.path d.text child).result = .ok o ∧
        Request.Comes m c.linter d.path child o ∧ told.Told files log t.machine.cwd ∧
          ∀ check, t.run (Fix.run verbose p check workspace) =
            told.run (settle check d
              ((proposal d o).map fun text => .file (d.replaceText text))) := by
  intro m child
  obtain ⟨o, hresult, hcomes⟩ : ∃ o,
      (Request.run .none m (.ok c.linter) (.fix false) d.path d.text child).result = .ok o ∧
        Request.Comes m c.linter d.path child o :=
    Request.exists_comes Handler.calm_none (fun h => nomatch h) fun _ => hencodable
  have hopened := Log.Setup.isOpen_configure hlog
  obtain ⟨told, htold, hfixed⟩ : ∃ told : Terminal, told.Told files log t.machine.cwd ∧
      (t.prepared files log).run (fixed c.linter d) =
        (.ok ((proposal d o).map fun text => .file (d.replaceText text)), told) := by
    let id := ((t.prepared files log).correlation.bind none).1
    let t₁ : Terminal := { t.prepared files log with
      correlation := ((t.prepared files log).correlation.bind none).2.clear }
    have hbegun : t₁.Told files log t.machine.cwd := ⟨rfl, rfl, .refl _ files⟩
    obtain ⟨asked, hasked, hperformed⟩ := hbegun.run_perform hopened id hresult
    obtain ⟨told, htold, hamended⟩ := hasked.run_perform hopened id (result_amend .none d o)
    refine ⟨told, htold, ?_⟩
    unfold fixed
    rw [run_bind_ok (run_newRequest _), run_bind, run_outcome, ← run_bind]
    exact (run_bind_ok hperformed _).trans hamended
  refine ⟨o, told, hresult, hcomes, htold, fun check => ?_⟩
  have hdocument := run_openDocument_ok (t := t.prepared files log) hopen
  unfold Fix.run
  rw [run_bind_ok (run_configuration hload hlog), run_bind_ok hdocument, run_bind_ok hfixed]

end Run

theorem run_commandLine {t : Terminal} (verbose : Bool) {words : List Text} {a : Arguments}
    {file : Text} (hscan : Arguments.scan Fix.spec words = .ok a) (hname : a.Names file)
    (hworkspace : ∀ w ∈ a.value? "--workspace", t.machine.files.Shows t.machine.cwd w .directory)
    {bytes : List UInt8} {executable : Bool}
    (hfile : t.machine.files.Shows t.machine.cwd file (.file bytes executable)) :
    t.run (CommandLine.run (CommandLine.flags verbose ++ ("fix" : Text) :: words)) =
      (CommandLine.opened t verbose).run (Fix.run verbose (.ofText file) (a.has "--check")
        ((a.value? "--workspace").map Path.ofText)) := by
  have hkind : fileArgument.kind ≠ .directory := by decide
  exact (CommandLine.run_command (fun _ => rfl)
    (rfl : CommandLine.command? ("fix" : Text) = some Fix.call) t verbose words).trans
      (run_named (t := CommandLine.opened t verbose) hscan hname hworkspace hfile hkind
        fun a workspace p => Fix.run verbose p (a.has "--check") workspace)

/-- The same for a command line. -/
theorem exists_settled_commandLine {t : Terminal} (verbose : Bool) {words : List Text}
    {a : Arguments} {file : Text} (hscan : Arguments.scan Fix.spec words = .ok a)
    (hname : a.Names file)
    (hworkspace : ∀ w ∈ a.value? "--workspace", t.machine.files.Shows t.machine.cwd w .directory)
    {bytes : List UInt8} {executable : Bool}
    (hfile : t.machine.files.Shows t.machine.cwd file (.file bytes executable)) {c : Config}
    (hload : Config.load t.machine ((a.value? "--workspace").map Path.ofText) true [] = .ok c)
    {files : FileSystem} {log : Log.Setup}
    (hlog : Log.Setup.configure t.machine.files t.machine.cwd c.logging verbose =
      (files, log, .ok ()))
    {d : FileDocument}
    (hopen : FileDocument.openFile files t.machine.cwd (.ofText file) "utf-8" = .ok d)
    (hencodable : ∃ bytes, Utf8.encode d.text = .ok bytes) :
    let m : Machine := { t.machine with files }
    let child := t.children.headD .absent
    ∃ (o : Outcome) (told : Terminal),
      (Request.run .none m (.ok c.linter) (.fix false) d.path d.text child).result = .ok o ∧
        Request.Comes m c.linter d.path child o ∧ told.Told files log t.machine.cwd ∧
          t.run (CommandLine.run (CommandLine.flags verbose ++ ("fix" : Text) :: words)) =
            told.run (settle (a.has "--check") d
              ((proposal d o).map fun text => .file (d.replaceText text))) := by
  intro m child
  obtain ⟨o, told, hresult, hcomes, htold, hrun⟩ := exists_settled
    (t := CommandLine.opened t verbose) hlog hload hopen hencodable
  exact ⟨o, told, hresult, hcomes, htold,
    (run_commandLine verbose hscan hname hworkspace hfile).trans (hrun (a.has "--check"))⟩

end Fix

/-- A check tells by its status whether a fix, called alike on the same files with the same child,
would put other bytes in the file.  The check leaves the files as they are, those of the log and
new directories for them apart; the fix does its work in any case, and changes only the file
besides, in which there is then what the linter proposes.  It does change the file where the linter
delivers another text than the one that is in it. -/
theorem check_foretells_fix {m : Machine} (time time' : Text) (children : List Child)
    (traces traces' : List CallTrace) (verbose : Bool) {plain checking : List Text}
    {a b : Arguments} {file : Text} (hplain : Arguments.scan Fix.spec plain = .ok a)
    (hfixes : a.has "--check" = false) (hchecking : Arguments.scan Fix.spec checking = .ok b)
    (hchecks : b.has "--check" = true) (hname : a.Names file) (hname' : b.Names file)
    (hsame : b.value? "--workspace" = a.value? "--workspace")
    (hworkspace : ∀ w ∈ a.value? "--workspace", m.files.Shows m.cwd w .directory)
    {place : Place} {bytes : List UInt8} {executable : Bool}
    (hfile : m.files.Shows m.cwd file (.file bytes executable))
    (hfound : m.files.lookUp m.cwd (m.cwd.join (.ofText file)) =
      .found place (.file bytes executable))
    (hmay : m.files.mayWrite place = true) {cs : List Char} (hutf8 : Utf8.decode bytes = .ok cs)
    (hwhole : (m.cwd.join (.ofText file)).text.IsWhole) {c : Config}
    (hload : Config.load m ((a.value? "--workspace").map Path.ofText) true [] = .ok c)
    {files : FileSystem} {log : Log.Setup}
    (hlog : Log.Setup.configure m.files m.cwd c.logging verbose = (files, log, .ok ()))
    (hapart : ¬log.WritesTo files m.cwd place)
    (hencodable : ∀ text, Proposes ((children.headD .absent).talk c.linter.timeout) text →
      ∃ new, Utf8.encode text = .ok new) :
    let fixed := (Terminal.fresh m time children traces).run
      (CommandLine.run (CommandLine.flags verbose ++ ("fix" : Text) :: plain))
    let checked := (Terminal.fresh m time' children traces').run
      (CommandLine.run (CommandLine.flags verbose ++ ("fix" : Text) :: checking))
    let child := children.headD .absent
    m.files.Provides (log.WritesTo files m.cwd) files ∧
      files.Extends (log.WritesTo files m.cwd) checked.2.machine.files ∧
      fixed.1 = .ok () ∧
      (∀ other, other ≠ place → ¬log.WritesTo files m.cwd other →
        fixed.2.machine.files.at? other = files.at? other) ∧
      ∃ new, fixed.2.machine.files.at? place = some (.file new executable) ∧
        checked.1 = (if new = bytes then .ok () else .error (.exit 1)) ∧
        (new ≠ bytes → ∃ text, Proposes (child.talk c.linter.timeout) text ∧
          Utf8.encode text = .ok new) ∧
        ∀ config diagnostics text, Request.located { m with files } c.linter
            (m.cwd.join (.ofText file)) = .ok (some config) →
          child.Serves c.linter.timeout diagnostics (some text) → text ≠ Text.ofChars cs →
            Utf8.encode text = .ok new := by
  intro fixed checked child
  have grows : m.files.Grows files := Log.Setup.grows_configure hlog
  let d : FileDocument := ⟨m.cwd.join (.ofText file), .utf8, Text.ofChars cs⟩
  have hpath : d.path.text.IsWhole := hwhole
  have hlook : files.lookUp m.cwd d.path = .found place (.file bytes executable) :=
    grows.lookUp_eq hfound
  have hmay' : files.mayWrite place = true := grows.rights.write place hmay
  have hread : files.read m.cwd d.path = .ok bytes :=
    FileSystem.read_ok_iff.mpr ⟨place, executable, hlook, FileSystem.mayRead_of_mayWrite hmay'⟩
  have hopen : FileDocument.openFile files m.cwd (.ofText file) "utf-8" = .ok d :=
    FileDocument.openFile_ok_iff (m := { m with files }).mpr ⟨cs, ⟨bytes, hread, hutf8⟩, rfl⟩
  have hthere : files.at? place = some (.file bytes executable) := by
    have hfaithful := FileSystem.isFaithful_lookUp files m.cwd d.path
    rwa [hlook] at hfaithful
  -- Both runs come to the same outcome, and settle what it proposes.
  obtain ⟨o, told, hresult, hcomes, htold, hfixed⟩ := Fix.exists_settled_commandLine
    (t := Terminal.fresh m time children traces) verbose hplain hname hworkspace hfile hload hlog
    hopen ⟨_, Utf8.encode_ofChars cs⟩
  obtain ⟨o', told', hresult', -, htold', hchecked⟩ := Fix.exists_settled_commandLine
    (t := Terminal.fresh m time' children traces') verbose hchecking hname' (hsame ▸ hworkspace)
    hfile (hsame ▸ hload) hlog hopen ⟨_, Utf8.encode_ofChars cs⟩
  obtain rfl : o = o' := Except.ok.inj (hresult.symm.trans hresult')
  rw [hfixes] at hfixed
  rw [hchecks] at hchecked
  refine ⟨Log.Setup.provides_configure hlog, ?_⟩
  cases hproposal : Fix.proposal d o with
  | none =>
    rw [hproposal] at hfixed hchecked
    obtain ⟨t, hprint, hmachine⟩ := Fix.run_print_told hpath told ": nothing to fix"
    obtain ⟨t', hprint', hmachine'⟩ := Fix.run_print_told hpath told' ": nothing to fix"
    have hfixed : fixed = _ := hfixed.trans hprint
    have hchecked : checked = _ := hchecked.trans hprint'
    rw [hfixed, hchecked, hmachine, hmachine']
    refine ⟨htold'.extended, rfl, fun other _ hother => htold.extended.elsewhere hother,
      bytes, (htold.extended.elsewhere hapart).trans hthere, (if_pos rfl).symm,
      fun hnew => absurd rfl hnew, fun config diagnostics text search serves hother => ?_⟩
    cases hproposal.symm.trans (Fix.proposal_of_serves hcomes search serves hother)
  | some text =>
    rw [hproposal] at hfixed hchecked
    obtain ⟨hfix, hother⟩ := Fix.proposal_eq_some hproposal
    have hproposes := hcomes.proposes hfix
    obtain ⟨new, hnew⟩ := hencodable text hproposes
    have hdiffers : new ≠ bytes := Utf8.ne_of_encode hutf8 hnew hother
    -- The log has been written since, but not to the file that is fixed.
    have hlook' : told.machine.files.lookUp told.machine.cwd d.path =
        .found place (.file bytes executable) :=
      htold.cwd_eq ▸ htold.extended.lookUp_eq hapart hlook
    obtain ⟨t, hsave, hfiles⟩ := Fix.run_settle_save hpath told rfl hlook'
      (htold.extended.rights.write place hmay') hnew
    obtain ⟨t', hcheck, hmachine⟩ := Fix.run_settle_check hpath told' (.file (d.replaceText text))
    have hfixed : fixed = _ := hfixed.trans hsave
    have hchecked : checked = _ := hchecked.trans hcheck
    rw [hfixed, hchecked, hmachine]
    refine ⟨htold'.extended, rfl, fun other hne hother => ?_, new, ?_, (if_neg hdiffers).symm,
      fun _ => ⟨text, hproposes, hnew⟩, fun config diagnostics text' search serves hother => ?_⟩
    · rw [hfiles, if_neg hne]
      exact htold.extended.elsewhere hother
    · rw [hfiles, if_pos rfl]
    · obtain rfl : text = text' := Option.some.inj
        (hproposal.symm.trans (Fix.proposal_of_serves hcomes search serves hother))
      exact hnew

/-- A linter that proposes a text for an empty file: the fix puts it there, and the check says so
and leaves the file as it is. -/
theorem check_foretells_changed :
    let child := Child.answering 0 "[\x7b\"messages\":[],\"output\":\"x\"\x7d]"
    let fixed := (Terminal.fresh .small [] [child] []).run
      (CommandLine.run (CommandLine.flags false ++ ("fix" : Text) :: ["a.js"]))
    let checked := (Terminal.fresh .small [] [child] []).run
      (CommandLine.run (CommandLine.flags false ++ ("fix" : Text) :: ["--check", "a.js"]))
    fixed.1 = .ok () ∧ checked.1 = .error (.exit 1) ∧
      fixed.2.machine.files.at? ["a.js"] = some (.file [0x78] false) ∧
      checked.2.machine.files.at? ["a.js"] = some (.file [] false) := by
  intro child
  dsimp only
  obtain ⟨c, log, hload, hlog, hstderr, search⟩ := Machine.load_small
  have hworkspace := Arguments.workspace_of_none (a := ⟨[], ["a.js"]⟩) rfl Machine.small.files
    Machine.small.cwd
  have hplain : Arguments.scan Fix.spec ["a.js"] = .ok ⟨[], ["a.js"]⟩ := rfl
  have hchecking : Arguments.scan Fix.spec ["--check", "a.js"] =
      .ok ⟨[("--check", [])], ["a.js"]⟩ := rfl
  have hapart : ¬log.WritesTo Machine.small.files Machine.small.cwd ["a.js"] := by
    rintro ⟨channel, hchannel, path, _, _, hpath, -⟩
    cases (hstderr channel hchannel).symm.trans hpath
  have serves : child.Serves c.linter.timeout [] (some "x") :=
    Child.serves_answering _ (by decide +kernel)
  have hencode : Utf8.encode "x" = .ok [0x78] := ok_of_toOption (by decide +kernel)
  have hencodable (text : Text) (h : Proposes (child.talk c.linter.timeout) text) :
      ∃ new, Utf8.encode text = .ok new := by
    obtain rfl := serves.delivers.proposes.unique h
    exact ⟨_, hencode⟩
  have hfound : Machine.small.files.lookUp Machine.small.cwd (Machine.small.cwd.join
      (.ofText "a.js")) = .found ["a.js"] (.file [] false) := by decide +kernel
  have hutf8 : Utf8.decode [] = .ok [] := by rw [Utf8.decode, Utf8.decodeFrom]
  obtain ⟨-, hextends, hfixed, -, new, hnew, hchecked, -, hdelivered⟩ :=
    check_foretells_fix [] [] [child] [] [] false hplain rfl hchecking rfl ⟨rfl, rfl⟩
      ⟨rfl, rfl⟩ rfl hworkspace Machine.shows_small hfound (by decide +kernel) hutf8
      (by decide +kernel) hload hlog hapart hencodable
  obtain rfl : [0x78] = new := Except.ok.inj
    (hencode.symm.trans (hdelivered _ [] "x" (search _ rfl) serves (by decide)))
  exact ⟨hfixed, hchecked, hnew, (hextends.elsewhere hapart).trans (by decide +kernel)⟩

/-- A file whose path is too long from the root is not fixed, and both end in a way that nobody
has foreseen, the check with the status that stands for a file to be fixed.  So they do where there
is a byte in the path that is not UTF-8, whatever has become of the file. -/
theorem check_foretells_unopened :
    let long := Terminal.fresh .long [] [] []
    let small := Terminal.fresh .small [] [] []
    (Machine.long.IsPlaced ∧ (Config.load .long none true []).toOption.map (·.logging) =
        some .defaults ∧ Machine.long.files.Shows Machine.long.cwd longPath (.file [] false) ∧
      CommandLine.status (long.run (CommandLine.run ["fix", longPath])).1 = 1 ∧
      CommandLine.status (long.run (CommandLine.run ["fix", "--check", longPath])).1 = 1 ∧
      (long.run (CommandLine.run ["fix", longPath])).2.machine.files.nodes =
        Machine.long.files.nodes) ∧
    Machine.small.files.Shows Machine.small.cwd byteName (.file [] false) ∧
      isUnforeseen (small.run (CommandLine.run ["fix", byteName])).1 = true ∧
      isUnforeseen (small.run (CommandLine.run ["fix", "--check", byteName])).1 = true := by
  intro long small
  have hlong : (Config.load .long none true []).toOption.map (·.logging) = some .defaults ∧
      CommandLine.status (long.run (CommandLine.run ["fix", longPath])).1 = 1 ∧
      CommandLine.status (long.run (CommandLine.run ["fix", "--check", longPath])).1 = 1 ∧
      (long.run (CommandLine.run ["fix", longPath])).2.machine.files.nodes =
        Machine.long.files.nodes := by decide +kernel
  exact ⟨⟨⟨rfl, rfl⟩, hlong.1, ⟨[.ofText (longName ++ Text.ofString "abc")], by decide +kernel⟩,
    hlong.2⟩, Machine.shows_small_byte, by decide +kernel⟩

end EditorLint
