import EditorLint.Proofs.Linting

/-!
# The two ways of showing an outcome

Linting a file for a reader and as JSON starts the same linter and ends with the same status,
and both show the whole outcome (`lint_shows_outcome`): one prints a line for each diagnostic,
in order, and the other one a text that is read as an object with every field of the outcome.

A file that cannot be opened has no outcome, a diagnostic of a file whose path has bytes in it that
are not UTF-8 is not printed for a reader, and of a line that is printed the styles are left out
(`lint_shows_less`).
-/

namespace EditorLint

/-! ## An outcome as a value -/

def Outcome.IsFailed (o : Outcome) : Prop := ∃ reason config, o = .failed reason config

namespace Lint

section Sound

open Json

variable {depth : Nat}

theorem sound_string (s : String) : Sound depth (.string s) :=
  .text (Text.isWhole_ofChars s.toList).unpaired

theorem sound_optional {α : Type} {wrap : α → Datum} {value : Option α}
    (h : ∀ a ∈ value, Sound depth (wrap a)) : Sound depth (Diagnostic.optional wrap value) := by
  cases value with
  | none => exact .null
  | some a => exact h a rfl

theorem sound_record (names : List String) {es : Entries}
    (hnames : es.map (·.1) = names.map Datum.string)
    (hdistinct : (names.map Datum.string).Pairwise fun k k' => k.sameKey k' = false)
    (hvalues : ∀ e ∈ es, Sound depth e.2) : Sound (depth + 1) (.mapping es) := by
  refine .mapping (fun e he => ?_)
    (Entries.distinct_of_keys (hnames ▸ List.Sublist.refl _) hdistinct) hvalues
  have hkey : e.1 ∈ names.map Datum.string := hnames ▸ List.mem_map_of_mem he
  obtain ⟨name, -, hname⟩ := List.mem_map.mp hkey
  exact ⟨Text.ofString name, hname.symm, (Text.isWhole_ofChars name.toList).unpaired⟩

theorem sound_fields {d : Diagnostic} (hwhole : d.IsWhole) (hbounded : d.Bounded) :
    Sound (depth + 1) (.mapping d.fields) := by
  refine sound_record ["message", "line", "column", "end_line", "end_column", "severity", "code"]
    rfl (by decide) ?_
  simp only [Diagnostic.fields, List.forall_mem_cons]
  exact ⟨.text hwhole.message.unpaired, .int hbounded.line, .int hbounded.column,
    sound_optional fun n hn => .int (hbounded.endLine n hn),
    sound_optional fun n hn => .int (hbounded.endColumn n hn), sound_string _,
    sound_optional fun t ht => .text (hwhole.code t ht).unpaired, fun e he => nomatch he⟩

theorem read_json {path : Path} {o : Outcome} (hpath : path.text.Unpaired)
    (hconfig : ∀ p ∈ o.config, p.text.Unpaired) (herror : ∀ e ∈ o.error, e.Unpaired)
    (hdiagnostics : ∀ d ∈ o.diagnostics, d.IsWhole ∧ d.Bounded) :
    read (json path o).shown = .ok (.mapping (record path o)) := by
  refine read_write (show Sound (988 + 1 + 1) _ from ?_)
  refine sound_record ["path", "status", "config", "error", "diagnostics"] rfl (by decide) ?_
  simp only [record, List.forall_mem_cons]
  refine ⟨.text hpath, sound_string _, sound_optional fun p hp => .text (hconfig p hp),
    sound_optional fun e he => .text (herror e he), .list fun value hvalue => ?_,
    fun e he => nomatch he⟩
  obtain ⟨d, hd, rfl⟩ := List.mem_map.mp hvalue
  obtain ⟨hwhole, hbounded⟩ := hdiagnostics d hd
  exact sound_fields hwhole hbounded

end Sound

end Lint

theorem Delivers.bounded {e : TalkEnd} {diagnostics : List Diagnostic} {fix : Option Text}
    (h : Delivers e diagnostics fix) : ∀ d ∈ diagnostics, d.Bounded := by
  cases h with
  | of_report _ accepted => exact Report.bounded_of_read accepted

/-! ## Both ways -/

/-- A status says whether a request has failed, and otherwise whether there are errors. -/
structure Lint.Tells (status : Nat) (o : Outcome) : Prop where
  failed : status = 2 ↔ o.IsFailed
  errors : status = 1 ↔ ¬o.IsFailed ∧ ∃ d ∈ o.diagnostics, d.severity = .error
  otherwise : status = 0 ↔ ¬o.IsFailed ∧ ∀ d ∈ o.diagnostics, d.severity ≠ .error

theorem Lint.tells_status (o : Outcome) : Tells (status o) o := by
  have hgrave (ds : List Diagnostic) : (ds.any fun d => d.severity == .error) = true ↔
      ∃ d ∈ ds, d.severity = .error := by
    rw [List.any_eq_true]
    exact exists_congr fun d => and_congr_right fun _ => beq_iff_eq
  have hother (h : ¬o.IsFailed) : Tells (if o.hasErrors then 1 else 0) o := by
    by_cases herrors : o.hasErrors = true
    · rw [if_pos herrors]
      have hsome := (hgrave o.diagnostics).mp herrors
      refine ⟨iff_of_false (by decide) h, iff_of_true rfl ⟨h, hsome⟩,
        iff_of_false (by decide) fun hnone => ?_⟩
      obtain ⟨d, hd, hseverity⟩ := hsome
      exact hnone.2 d hd hseverity
    · rw [if_neg herrors]
      have hnone : ¬∃ d ∈ o.diagnostics, d.severity = .error :=
        mt (hgrave o.diagnostics).mpr herrors
      exact ⟨iff_of_false (by decide) h, iff_of_false (by decide) fun hsome => hnone hsome.2,
        iff_of_true rfl ⟨h, fun d hd hseverity => hnone ⟨d, hd, hseverity⟩⟩⟩
  cases o with
  | failed reason config =>
    have hfailed : (Outcome.failed reason config).IsFailed := ⟨reason, config, rfl⟩
    exact ⟨iff_of_true rfl hfailed, iff_of_false (fun h => nomatch h) fun h => h.1 hfailed,
      iff_of_false (fun h => nomatch h) fun h => h.1 hfailed⟩
  | ok | empty | stale =>
    refine hother ?_
    rintro ⟨_, _, ⟨⟩⟩

/-- The entries of an object say all that an outcome says, and which document it is about. -/
structure Lint.Holds (es : Entries) (path : Path) (o : Outcome) : Prop where
  path : es.field "path" = .text path.text
  status : es.field "status" = .string o.status
  config : es.field "config" = Diagnostic.optional (fun p => .text p.text) o.config
  error : es.field "error" = Diagnostic.optional .text o.error
  diagnostics : es.field "diagnostics" = .list (o.diagnostics.map fun d => .mapping d.fields)

theorem Lint.holds_record (path : Path) (o : Outcome) : Holds (record path o) path o :=
  ⟨rfl, rfl, rfl, rfl, rfl⟩

/-! ## Paths that lead somewhere -/

/-- A code that stands for bytes in a name of the system is no high surrogate. -/
theorem Code.not_isHigh_of_systemBytes {c : Code} (h : (Utf8.systemBytes? c).isSome = true) :
    ¬c.IsHigh := by
  rintro ⟨hlow, hhigh⟩
  cases c with
  | scalar ch => rcases Code.value_of_isScalar (c := .scalar ch) rfl with h | h <;> omega
  | surrogate n =>
    have hn : n.val < 0x400 := by
      have hvalue : 0xD800 + n.val < 0xDC00 := hhigh
      omega
    have hnone : Utf8.systemBytes? (.surrogate n) = none := if_neg (by omega)
    rw [hnone] at h
    cases h

/-- No two codes of a text that stands for bytes are the halves of a surrogate pair. -/
theorem Text.unpaired_of_systemBytes {t : Text}
    (h : ∀ c ∈ t, (Utf8.systemBytes? c).isSome = true) : t.Unpaired := by
  induction t with
  | nil => trivial
  | cons c t ih =>
    obtain ⟨hc, ht⟩ := List.forall_mem_cons.mp h
    cases t with
    | nil => trivial
    | cons d t => exact ⟨fun hpair => Code.not_isHigh_of_systemBytes hc hpair.1, ih ht⟩

theorem FileSystem.unpaired_of_read {fs : FileSystem} {cwd p : Path} {bytes : List UInt8}
    (h : fs.read cwd p = .ok bytes) : p.text.Unpaired := by
  unfold read at h
  split at h
  · rename_i hfound
    exact Text.unpaired_of_systemBytes (systemBytes_of_lookUp hfound)
  · cases h
  · cases h

theorem Machine.unpaired_of_locateBy {m : Machine} (absolute : m.cwd.isAbsolute = true)
    (written : m.cwd.IsWritten) {start config : Path} {spec : SearchSpec}
    (hstart : start.IsWritten)
    (h : Search.locateBy m.probe m.cwd start spec = .ok (some config)) : config.text.Unpaired := by
  obtain ⟨hit, hprobe, -, rfl⟩ := Search.of_locateBy absolute written hstart h
  obtain ⟨place, node, hfound⟩ : ∃ place node, m.files.lookUp m.cwd hit = .found place node := by
    unfold probe FileSystem.contains at hprobe
    split at hprobe
    · exact ⟨_, _, ‹_›⟩
    · cases hprobe
    · cases hprobe
    · cases hprobe
  have hcodes (p : Path) := Path.forall_mem_text_iff
    (P := fun c => (Utf8.systemBytes? c).isSome = true) rfl rfl p
  have hparts := (hcodes hit).mp (FileSystem.systemBytes_of_lookUp hfound)
  exact Text.unpaired_of_systemBytes
    ((hcodes _).mpr fun part hpart => hparts part (Path.mem_normalize hpart))

/-! ## Two runs -/

/-- Two runs of one machine, for a reader and as JSON, start the same linter or try to, and show
the same outcome in full: as JSON in any case, and for a reader, unless there are diagnostics for a
path that cannot be printed. -/
theorem lint_shows_outcome {m : Machine} (hm : m.IsPlaced) (time : Text) (children : List Child)
    (traces : List CallTrace) (verbose : Bool) {plain json : List Text} {a b : Arguments}
    {file : Text}
    (hplain : Arguments.scan Lint.spec plain = .ok a) (hlines : a.has "--json" = false)
    (hjson : Arguments.scan Lint.spec json = .ok b) (hobject : b.has "--json" = true)
    (hname : a.Names file) (hname' : b.Names file)
    (hsame : b.value? "--workspace" = a.value? "--workspace")
    (hworkspace : ∀ w ∈ a.value? "--workspace", m.files.Shows m.cwd w .directory)
    {bytes : List UInt8} {executable : Bool}
    (hfile : m.files.Shows m.cwd file (.file bytes executable)) {c : Config}
    (hload : Config.load m ((a.value? "--workspace").map Path.ofText) true [] = .ok c)
    {files : FileSystem} {log : Log.Setup}
    (hlog : Log.Setup.configure m.files m.cwd c.logging verbose = (files, log, .ok ()))
    (htext : Machine.HasText { m with files } file)
    (hwhole : ∀ diagnostics fix,
      (children.headD .absent).Serves c.linter.timeout diagnostics fix →
        ∀ d ∈ diagnostics, d.IsWhole) :
    let t := Terminal.fresh m time children traces
    let shown := t.run (CommandLine.run (CommandLine.flags verbose ++ ("lint" : Text) :: plain))
    let written := t.run (CommandLine.run (CommandLine.flags verbose ++ ("lint" : Text) :: json))
    let m' : Machine := { m with files }
    let child := children.headD .absent
    shown.2.attempts = written.2.attempts ∧ shown.2.processes = written.2.processes ∧
      ∃ document o logged,
        FileDocument.openFile files m.cwd (.ofText file) "utf-8" = .ok document ∧
        (Request.run .none m' (.ok c.linter) .diagnose document.path document.text child).result =
          .ok o ∧
        (log.SparesOutput → logged = []) ∧
        (∀ f, written.1 ≠ .error (.failure f)) ∧ Lint.Tells (CommandLine.status written.1) o ∧
        ((o.diagnostics ≠ [] → document.path.text.IsWhole) → shown.1 = written.1 ∧
          shown.2.stdout =
            logged ++ o.diagnostics.flatMap (fun d => (d.render document.path).printed)) ∧
        (o.IsFailed ∨ Request.located m' c.linter document.path = .ok none → o.diagnostics = []) ∧
        ∃ object : List Char, written.2.stdout = logged ++ object ++ ['\n'] ∧
          ((∀ e ∈ o.error, e.Unpaired) →
            ∃ es, Json.read object = .ok (.mapping es) ∧ Lint.Holds es document.path o) := by
  intro t shown written m' child
  let path := m.cwd.join (.ofText file)
  let t₁ := CommandLine.opened t verbose
  obtain ⟨cs, hreads⟩ := htext
  have hopen : FileDocument.openFile files m.cwd (.ofText file) "utf-8" =
      .ok ⟨path, .utf8, Text.ofChars cs⟩ :=
    FileDocument.openFile_ok_iff (m := m').mpr ⟨cs, hreads, rfl⟩
  obtain ⟨o, told, hresult, hcomes, hspared, hrun⟩ := Lint.exists_shown (t := t₁) hlog hload hopen
  have hshown : shown = told.run (Lint.shown false path o) := by
    have hcall : shown = _ := Lint.run_commandLine verbose hplain hname hworkspace hfile
    rw [hcall, hlines]
    exact hrun false
  have hwritten : written = told.run (Lint.shown true path o) := by
    have hcall : written = _ :=
      Lint.run_commandLine verbose hjson hname' (hsame ▸ hworkspace) hfile
    rw [hcall, hobject, hsame]
    exact hrun true
  have hdiagnostics : ∀ d ∈ o.diagnostics, d.IsWhole ∧ d.Bounded := by
    intro d hd
    obtain ⟨config, ds, fix, -, serves, rfl⟩ :=
      hcomes.located_of_diagnostics (List.ne_nil_of_mem hd)
    rw [Outcome.diagnostics_ofReport] at hd
    exact ⟨hwhole ds fix serves d hd, serves.delivers.bounded d hd⟩
  have hdealt : shown.2.dealt = written.2.dealt := by
    rw [hshown, hwritten, Lint.spares_shown false path o told,
      Lint.spares_shown true path o told]
  obtain ⟨hattempts, hprocesses⟩ := Prod.mk.inj hdealt
  refine ⟨hattempts, hprocesses, _, o, told.stdout, hopen, hresult, hspared, ?unforeseen, ?status,
    fun hprintable => ?lines, ?none, (Lint.json path o).shown, ?printed, fun herror => ?object⟩
  case unforeseen =>
    rw [hwritten, Lint.run_shown_json]
    exact Lint.ending_ne_failure o
  case status =>
    rw [hwritten, Lint.run_shown_json, Lint.status_ending]
    exact Lint.tells_status o
  case lines =>
    obtain ⟨t', hlines', hstdout, -⟩ := Lint.run_shown_lines
      (fun d hd => (Diagnostic.isWhole_render path d).mpr
        ⟨hprintable (List.ne_nil_of_mem hd), (hdiagnostics d hd).1⟩)
      hcomes.config_of_diagnostics told
    rw [hshown, hwritten, hlines', Lint.run_shown_json]
    exact ⟨rfl, hstdout⟩
  case none =>
    rintro (⟨reason, config, rfl⟩ | hnone)
    · rfl
    · by_cases hempty : o.diagnostics = []
      · exact hempty
      · obtain ⟨config, ds, fix, search, -⟩ := hcomes.located_of_diagnostics hempty
        cases hnone.symm.trans search
  case printed =>
    rw [hwritten, Lint.run_shown_json]
    show told.stdout ++ (Lint.json path o).printed = _
    rw [(Lint.isPlain_json path o).printed, List.append_assoc]
  case object =>
    obtain ⟨bytes, hbytes, -⟩ := hreads
    have hconfig : ∀ p ∈ o.config, p.text.Unpaired := by
      intro p hp
      have hwritten : path.parent.IsWritten :=
        (hm.written.join (Path.isWritten_ofText file)).parent
      exact Machine.unpaired_of_locateBy (m := m') hm.absolute hm.written hwritten
        (hcomes.located_of_config hp)
    exact ⟨_, Lint.read_json (FileSystem.unpaired_of_read hbytes) hconfig herror hdiagnostics,
      Lint.holds_record path o⟩

/-- With a linter that delivers a report, what is shown is that report, and nothing before it. -/
theorem Lint.exists_shown_small {child : Child} {diagnostics : List Diagnostic} {fix : Option Text}
    (hserves : ∀ timeout, child.Serves timeout diagnostics fix) {file : Text}
    (hfile : Machine.small.files.Shows Machine.small.cwd file (.file [] false))
    (htext : Machine.small.HasText file)
    (hparent : (Machine.small.cwd.join (.ofText file)).parent = ⟨.slash, []⟩) :
    ∃ told : Terminal, told.stdout = [] ∧ ∀ words (a : Arguments),
      Arguments.scan Lint.spec words = .ok a → a.Names file → a.value? "--workspace" = none →
        (Terminal.fresh .small [] [child] []).run
            (CommandLine.run (CommandLine.flags false ++ ("lint" : Text) :: words)) =
          told.run (shown (a.has "--json") (Machine.small.cwd.join (.ofText file))
            (.ofReport diagnostics fix (some ⟨.slash, ["eslint.config.js"]⟩))) := by
  let t := Terminal.fresh .small [] [child] []
  obtain ⟨c, log, hload, hlog, hstderr, search⟩ := Machine.load_small
  obtain ⟨cs, hreads⟩ := htext
  have hopen := FileDocument.openFile_ok_iff.mpr ⟨cs, hreads, rfl⟩
  obtain ⟨o, told, -, hcomes, hspared, hrun⟩ :=
    Lint.exists_shown (t := CommandLine.opened t false) hlog hload hopen
  obtain rfl := hcomes.of_serves (search _ hparent) (hserves _)
  refine ⟨told, hspared (Log.Setup.sparesOutput_of_stderr hstderr),
    fun words a hscan hname hnone => ?_⟩
  have hworkspace := Arguments.workspace_of_none hnone Machine.small.files Machine.small.cwd
  refine (Lint.run_commandLine (t := t) false hscan hname hworkspace hfile).trans ?_
  rw [hnone]
  exact hrun _

/-- A linter that reports an error is started for both, and the error comes out as a line and as an
object. -/
theorem lint_shows_error :
    let d : Diagnostic := ⟨"m", 1, 2, .error, none, none, some "r"⟩
    let child := Child.answering 1 ("[\x7b\"messages\":[\x7b\"message\":\"m\",\"line\":1,\"column\":2,"
      ++ "\"severity\":2,\"ruleId\":\"r\"\x7d]\x7d]")
    let t := Terminal.fresh .small [] [child] []
    let shown := t.run (CommandLine.run (CommandLine.flags false ++ ("lint" : Text) :: ["a.js"]))
    let written :=
      t.run (CommandLine.run (CommandLine.flags false ++ ("lint" : Text) :: ["--json", "a.js"]))
    shown.2.attempts = written.2.attempts ∧ shown.2.processes = written.2.processes ∧
      shown.1 = written.1 ∧ CommandLine.status written.1 = 1 ∧
      shown.2.stdout = "/a.js:1:2: error: m [r]\n".toList ∧
      ∃ es object, written.2.stdout = object ++ ['\n'] ∧ Json.read object = .ok (.mapping es) ∧
        Entries.field "status" es = .string "ok" ∧
        Entries.field "diagnostics" es = .list [.mapping d.fields] := by
  intro d child
  dsimp only
  obtain ⟨c, log, hload, hlog, hstderr, search⟩ := Machine.load_small
  have hworkspace := Arguments.workspace_of_none (a := ⟨[], ["a.js"]⟩) rfl Machine.small.files
    Machine.small.cwd
  have hserves (timeout : Float) : child.Serves timeout [d] none :=
    Child.serves_answering _ (by decide +kernel)
  have hplain : Arguments.scan Lint.spec ["a.js"] = .ok ⟨[], ["a.js"]⟩ := rfl
  have hjson : Arguments.scan Lint.spec ["--json", "a.js"] =
      .ok ⟨[("--json", [])], ["a.js"]⟩ := rfl
  have hwhole : ∀ diagnostics fix, child.Serves c.linter.timeout diagnostics fix →
      ∀ d ∈ diagnostics, d.IsWhole := by
    intro diagnostics fix serves
    obtain ⟨rfl, -⟩ := (hserves _).delivers.unique serves.delivers
    exact List.forall_mem_singleton.mpr ⟨by decide, by rintro _ ⟨⟩; decide⟩
  obtain ⟨hattempts, hprocesses, document, o, logged, hopen, hresult, hlogged, -, htells, hlines, -,
      object, hobject, hread⟩ :=
    lint_shows_outcome Machine.isPlaced_small [] [child] [] false hplain rfl hjson rfl ⟨rfl, rfl⟩
      ⟨rfl, rfl⟩ rfl hworkspace Machine.shows_small hload hlog Machine.hasText_small hwhole
  obtain rfl := hlogged (Log.Setup.sparesOutput_of_stderr hstderr)
  obtain ⟨cs, -, rfl⟩ := FileDocument.openFile_ok_iff.mp hopen
  -- The outcome is that of the report.
  obtain rfl : o = .ok [d] none (some ⟨.slash, ["eslint.config.js"]⟩) := by
    obtain ⟨o', hresult', hcomes⟩ : ∃ o', (Request.run .none .small (.ok c.linter) .diagnose
        (Machine.small.cwd.join (.ofText "a.js")) (Text.ofChars cs) child).result = .ok o' ∧
          Request.Comes .small c.linter (Machine.small.cwd.join (.ofText "a.js")) child o' :=
      Request.exists_comes Handler.calm_none (fun h => nomatch h) fun h => nomatch h
    obtain rfl := Except.ok.inj (hresult.symm.trans hresult')
    exact hcomes.of_serves (search _ rfl) (hserves _)
  let path := Machine.small.cwd.join (.ofText "a.js")
  have hpath : path.text.IsWhole := by decide +kernel
  have hline : [d].flatMap (fun d => (d.render path).printed) =
      "/a.js:1:2: error: m [r]\n".toList := by decide +kernel
  obtain ⟨hsame, hstdout⟩ := hlines fun _ => hpath
  rw [List.nil_append] at hstdout hobject
  obtain ⟨es, hes, holds⟩ := hread fun e he => nomatch he
  exact ⟨hattempts, hprocesses, hsame,
    htells.errors.mpr ⟨by rintro ⟨_, _, ⟨⟩⟩, d, List.mem_singleton_self d, rfl⟩,
    hstdout.trans hline, es, object, hobject, hes, holds.status, holds.diagnostics⟩

/-- A file whose path is too long from the root has no outcome, and the command ends in a way that
nobody has foreseen.  So it ends where there is a diagnostic for a file in whose path there is a byte
that is not UTF-8, though not as JSON.  And what comes out of a message with a style in it is not the
whole line. -/
theorem lint_shows_less :
    let long := Terminal.fresh .long [] [] []
    let shown := long.run (CommandLine.run ["lint", longPath])
    let written := long.run (CommandLine.run ["lint", "--json", longPath])
    let child := Child.answering 1 ("[\x7b\"messages\":[\x7b\"message\":\"\\u001b[31mx\",\"line\":1,"
      ++ "\"column\":1,\"severity\":2\x7d]\x7d]")
    let small := Terminal.fresh .small [] [child] []
    (Machine.long.IsPlaced ∧ (Config.load .long none true []).toOption.map (·.logging) =
        some .defaults ∧ Machine.long.files.Shows Machine.long.cwd longPath (.file [] false) ∧
      CommandLine.status shown.1 = 1 ∧ CommandLine.status written.1 = 1 ∧
      shown.2.attempts = [] ∧ written.2.stdout = []) ∧
    ((∃ f, (small.run (CommandLine.run ["lint", byteName])).1 = .error (.failure f)) ∧
      ∀ f, (small.run (CommandLine.run ["lint", "--json", byteName])).1 ≠
        .error (.failure f)) ∧
    (small.run (CommandLine.run ["lint", "a.js"])).2.stdout = "/a.js:1:1: error: x\n".toList := by
  intro long shown written child small
  let d : Diagnostic := ⟨"\x1b[31mx", 1, 1, .error, none, none, none⟩
  have hserves (timeout : Float) : child.Serves timeout [d] none :=
    Child.serves_answering _ (by decide +kernel)
  refine ⟨?long, ?bytewise, ?styled⟩
  case long =>
    have hruns : (Config.load .long none true []).toOption.map (·.logging) = some .defaults ∧
        CommandLine.status shown.1 = 1 ∧ CommandLine.status written.1 = 1 ∧
        shown.2.attempts = [] ∧ written.2.stdout = [] := by decide +kernel
    exact ⟨⟨rfl, rfl⟩, hruns.1, ⟨[.ofText (longName ++ Text.ofString "abc")], by decide +kernel⟩,
      hruns.2⟩
  case bytewise =>
    obtain ⟨told, -, hrun⟩ := Lint.exists_shown_small hserves Machine.shows_small_byte
      Machine.hasText_small_byte (by decide +kernel)
    have hplain : small.run (CommandLine.run ["lint", byteName]) = _ :=
      hrun [byteName] ⟨[], [byteName]⟩ rfl ⟨rfl, rfl⟩ rfl
    have hjson : small.run (CommandLine.run ["lint", "--json", byteName]) = _ :=
      hrun ["--json", byteName] ⟨[("--json", [])], [byteName]⟩ rfl ⟨rfl, rfl⟩ rfl
    let path := Machine.small.cwd.join (.ofText byteName)
    let o : Outcome := .ofReport [d] none (some ⟨.slash, ["eslint.config.js"]⟩)
    have hbroken : ¬∀ d' ∈ o.diagnostics, (d'.render path).IsWhole := by decide +kernel
    obtain ⟨f, t', hfails⟩ := Lint.failure_of_shown_lines (o := o) rfl hbroken told
    constructor
    · exact ⟨f, (congrArg (·.1) hplain).trans (congrArg (·.1) hfails)⟩
    · intro f hf
      rw [hjson, show Arguments.has ⟨[("--json", [])], [byteName]⟩ "--json" = true from rfl,
        Lint.run_shown_json] at hf
      exact Lint.ending_ne_failure o f hf
  case styled =>
    obtain ⟨told, hnothing, hrun⟩ := Lint.exists_shown_small hserves Machine.shows_small
      Machine.hasText_small rfl
    let path := Machine.small.cwd.join (.ofText "a.js")
    have hplain : small.run (CommandLine.run ["lint", "a.js"]) = _ :=
      hrun ["a.js"] ⟨[], ["a.js"]⟩ rfl ⟨rfl, rfl⟩ rfl
    have hline : [d].flatMap (fun d => (d.render path).printed) =
        "/a.js:1:1: error: x\n".toList := by decide +kernel
    let o : Outcome := .ofReport [d] none (some ⟨.slash, ["eslint.config.js"]⟩)
    have hwhole : ∀ d' ∈ o.diagnostics, (d'.render path).IsWhole := by decide +kernel
    obtain ⟨t', hshown, hstdout, -⟩ := Lint.run_shown_lines hwhole (fun _ => rfl) told
    rw [hplain, show Arguments.has ⟨[], ["a.js"]⟩ "--json" = false from rfl, hshown, hstdout,
      hnothing]
    exact hline

end EditorLint
