import EditorLint.Command.CommandLine
import EditorLint.Proofs.Printing
import EditorLint.Proofs.Searching

/-!
# Runs of commands

What a command comes to, part by part, where each part does its work: the words are taken
apart, the paths in them lead somewhere, the configuration loads and the log is set up.  A
command for one file comes to its own work on that file (`Locate.run_call`, `Lint.run_call`),
whatever way it was called (`CommandLine.run_command`), and the work of linting is a request
for the document, of which the outcome is shown (`Lint.run_file`).

Showing an outcome has nothing to do with children (`Command.Spares`).
-/

namespace EditorLint

/-- A text on the command line leads to something that may be read. -/
def FileSystem.Shows (fs : FileSystem) (cwd : Path) (t : Text) (node : Node) : Prop :=
  ∃ place, fs.lookUpText cwd t = .found place node ∧ fs.mayRead place = true

/-! ## Parts of commands -/

/-- The children that a command has tried to start, and what it has done to those that it has
started. -/
def Terminal.dealt (t : Terminal) : List Attempt × List ProcessEvent := (t.attempts, t.processes)

/-- The terminal on which the log has been set up. -/
def Terminal.prepared (t : Terminal) (files : FileSystem) (log : Log.Setup) : Terminal :=
  { t.withFiles files with log }

namespace Command

variable {α β : Type} {t : Terminal}

/-- A part of a command that does its work is followed by the next one. -/
theorem run_bind_ok {t' : Terminal} {x : Command α} {a : α} (h : t.run x = (.ok a, t'))
    (f : α → Command β) : t.run (x >>= f) = t'.run (f a) := by
  rw [run_bind, h]

theorem run_get (t : Terminal) : t.run get = (.ok t, t) := rfl

theorem run_configureLog {c : LoggingConfig} {verbose : Bool} {files : FileSystem}
    {log : Log.Setup}
    (h : Log.Setup.configure t.machine.files t.machine.cwd c verbose = (files, log, .ok ())) :
    t.run (configureLog c verbose) = (.ok (), t.prepared files log) := by
  have hresult : t.configureLog c verbose = (t.prepared files log, .ok ()) := by
    unfold Terminal.configureLog
    rw [h]
    rfl
  show Terminal.run (t.configureLog c verbose).1 (ofExcept (t.configureLog c verbose).2) = _
  rw [hresult]
  rfl

/-- A configuration that loads is in force if its log can be set up. -/
theorem run_configuration {verbose requireLinter : Bool} {workspace : Option Path} {c : Config}
    {files : FileSystem} {log : Log.Setup}
    (hload : Config.load t.machine workspace requireLinter [] = .ok c)
    (hlog : Log.Setup.configure t.machine.files t.machine.cwd c.logging verbose =
      (files, log, .ok ())) :
    t.run (configuration verbose workspace requireLinter) = (.ok c, t.prepared files log) := by
  unfold configuration
  rw [run_bind_ok (run_get t)]
  rw [hload]
  dsimp only
  rw [run_bind_ok (run_configureLog hlog)]
  rfl

theorem run_arguments {c : CommandSpec} {words : List Text} {a : Arguments}
    (hscan : Arguments.scan c words = .ok a) (hhelp : a.has "--help" = false) :
    t.run (arguments c words) = (.ok a, t) := by
  unfold arguments
  rw [hscan]
  dsimp only
  rw [hhelp]
  rfl

/-- A path that leads to something of the right kind, which may be read, is taken as it was
typed. -/
theorem run_path {c : CommandSpec} {parameter value : Text} {kind : PathKind} {node : Node}
    (hshows : t.machine.files.Shows t.machine.cwd value node)
    (hfile : ¬(node = .directory ∧ kind = .file))
    (hdirectory : ¬(node ≠ .directory ∧ kind = .directory)) :
    t.run (path c parameter kind value) = (.ok (.ofText value), t) := by
  obtain ⟨place, hfound, hmay⟩ := hshows
  have hfault : pathFault? t.machine.files kind (.found place node) = none := by
    unfold pathFault?
    dsimp only
    rw [if_neg hfile, if_neg hdirectory, hmay]
    rfl
  unfold path
  rw [run_bind_ok (run_get t)]
  dsimp only
  rw [hfound]
  dsimp only
  rw [hfault]
  rfl

theorem run_perform {x : Action α} {a : α} (h : x.result = .ok a) (t : Terminal) :
    t.run (perform x) = (.ok a, x.effects.foldl Terminal.undergo t) := by
  show (x.effects.foldl Terminal.undergo t).run (ofExcept x.result) = _
  rw [h]
  rfl

theorem run_openDocument_ok {file : Path} {d : FileDocument}
    (h : FileDocument.openFile t.machine.files t.machine.cwd file "utf-8" = .ok d) :
    t.run (openDocument file) = (.ok d, t) := by
  unfold openDocument
  rw [run_bind_ok (run_get t)]
  show t.run (ofExcept (FileDocument.openFile t.machine.files t.machine.cwd file "utf-8")) = _
  rw [h]
  rfl

theorem run_openDocument_error {file : Path} {f : Failure}
    (h : FileDocument.openFile t.machine.files t.machine.cwd file "utf-8" = .error f) :
    t.run (openDocument file) = (.error (.failure f), t) := by
  unfold openDocument
  rw [run_bind_ok (run_get t)]
  show t.run (ofExcept (FileDocument.openFile t.machine.files t.machine.cwd file "utf-8")) = _
  rw [h]
  rfl

theorem run_newRequest (t : Terminal) : t.run newRequest = (.ok (t.correlation.bind none).1,
    { t with correlation := (t.correlation.bind none).2.clear }) := rfl

/-- The outcome of a request comes from performing it with the next child. -/
theorem run_outcome (t : Terminal) (id : Text) (s : LinterSettings) (task : Task)
    (d : FileDocument) : t.run (outcome id s task d) = t.run (perform
      ((Request.run .none t.machine (.ok s) task d.path d.text
        (t.children.headD .absent)).forRequest id)) := by
  unfold outcome
  rw [run_bind_ok (run_get t)]

/-- A part of a command that has nothing to do with children. -/
def Spares (x : Command α) : Prop := ∀ t : Terminal, (t.run x).2.dealt = t.dealt

theorem spares_print (line : Text) : Spares (print line) := by
  intro t
  unfold print
  split <;> rfl

theorem spares_exit (n : Nat) : Spares (exit n : Command α) := fun _ => rfl

theorem spares_complain (line : Text) : Spares (complain line) := fun _ => rfl

theorem spares_pure (a : α) : Spares (pure a : Command α) := fun _ => rfl

theorem Spares.after {x : Command α} {f : α → Command β} (hf : ∀ a, Spares (f a)) (t : Terminal) :
    (t.run (x >>= f)).2.dealt = (t.run x).2.dealt := by
  rw [run_bind]
  split
  · rename_i a t' hx
    rw [hx]
    exact hf a t'
  · rename_i f t' hx
    rw [hx]

theorem Spares.bind {x : Command α} {f : α → Command β} (hx : Spares x) (hf : ∀ a, Spares (f a)) :
    Spares (x >>= f) := fun t => (Spares.after hf t).trans (hx t)

theorem spares_forM {f : α → Command Unit} (hf : ∀ a, Spares (f a)) (as : List α) :
    Spares (as.forM f) := by
  induction as with
  | nil => exact spares_pure ()
  | cons a as ih => exact (hf a).bind fun _ => ih

theorem dealt_writeLine (t : Terminal) (m : Log.Message) (destination : Destination)
    (line : Text) : (t.writeLine m destination line).dealt = t.dealt := by
  unfold Terminal.writeLine
  repeat' split
  all_goals rfl

theorem dealt_deliver (t : Terminal) (m : Log.Message) : (t.deliver m).dealt = t.dealt := by
  unfold Terminal.deliver
  generalize t.log.deliveries t.time m = lines
  induction lines generalizing t with
  | nil => rfl
  | cons x lines ih => exact (ih _).trans (dealt_writeLine t m x.1 x.2)

theorem dealt_undergoes (t : Terminal) (es : List Effect) :
    (es.foldl Terminal.undergo t).dealt =
      ⟨t.attempts ++ Effect.attempts es, t.processes ++ Effect.processes es⟩ := by
  induction es generalizing t with
  | nil => exact congr (congrArg Prod.mk (List.append_nil _).symm) (List.append_nil _).symm
  | cons e es ih =>
    rw [List.foldl_cons, ih]
    have hone : (t.undergo e).dealt =
        ⟨t.attempts ++ Effect.attempts [e], t.processes ++ Effect.processes [e]⟩ := by
      have hnone : t.dealt = ⟨t.attempts ++ [], t.processes ++ []⟩ := by
        rw [List.append_nil, List.append_nil]
        rfl
      cases e with
      | log r => exact (dealt_deliver t _).trans hnone
      | report => exact hnone
      | refused => exact congrArg (Prod.mk _) (List.append_nil _).symm
      | process e =>
        cases e with
        | spawn => rfl
        | input | kill | reap => exact congrArg (Prod.mk · _) (List.append_nil _).symm
    obtain ⟨hattempts, hprocesses⟩ := Prod.mk.inj hone
    rw [hattempts, hprocesses, List.append_assoc, List.append_assoc, ← Effect.attempts_append,
      ← Effect.processes_append]
    rfl

theorem dealt_perform (t : Terminal) (x : Action α) :
    (t.run (perform x)).2.dealt =
      ⟨t.attempts ++ Effect.attempts x.effects, t.processes ++ Effect.processes x.effects⟩ := by
  unfold perform
  rw [Spares.after]
  · exact dealt_undergoes t x.effects
  · intro _ t
    cases x.result <;> rfl

end Command

/-- A configuration that a linter can run with loads in any case, and has the paths that it
needs. -/
theorem Config.load_of_required {m : Machine} {workspace : Option Path} {overrides : Entries}
    {c : Config} (h : load m workspace true overrides = .ok c) :
    load m workspace false overrides = .ok c ∧
      ∃ eslint shell, c.linter.eslintPath = some eslint ∧ eslint ≠ [] ∧
        c.linter.shellPath = some shell ∧ shell ≠ [] := by
  obtain ⟨files, hfiles, h⟩ := bind_eq_ok.mp h
  obtain ⟨config, hconfig, h⟩ := bind_eq_ok.mp h
  cases hmissing : config.missing? with
  | some name =>
    rw [if_pos rfl, hmissing] at h
    cases h
  | none =>
    rw [if_pos rfl, hmissing] at h
    obtain rfl : config = c := Except.ok.inj h
    constructor
    · exact bind_eq_ok.mpr ⟨files, hfiles, bind_eq_ok.mpr ⟨config, hconfig, rfl⟩⟩
    · have hmade {path : Option Text} (h : path.any (!·.isEmpty) = true) :
          ∃ t, path = some t ∧ t ≠ [] := by
        cases path with
        | none => cases h
        | some t => exact ⟨t, rfl, by simpa using h⟩
      unfold missing? at hmissing
      dsimp only at hmissing
      split at hmissing
      · cases hmissing
      · rename_i heslint
        split at hmissing
        · cases hmissing
        · rename_i hshell
          obtain ⟨eslint, heslint, hfilled⟩ := hmade (by simpa using heslint)
          obtain ⟨shell, hshell, hshellFilled⟩ := hmade (by simpa using hshell)
          exact ⟨eslint, shell, heslint, hfilled, hshell, hshellFilled⟩

/-! ## What is named on the command line -/

/-- The path of the working directory is absolute and that which its text names. -/
structure Machine.IsPlaced (m : Machine) : Prop where
  absolute : m.cwd.isAbsolute = true
  named : Path.ofText m.cwd.text = m.cwd

/-- The file that is read under the absolute path of `file` has the text `cs` in it. -/
def Machine.Reads (m : Machine) (file : Text) (cs : List Char) : Prop :=
  ∃ bytes, m.files.read m.cwd (m.cwd.join (.ofText file)) = .ok bytes ∧ Utf8.decode bytes = .ok cs

/-- A file with a text in it is read under its absolute path. -/
def Machine.HasText (m : Machine) (file : Text) : Prop := ∃ cs, m.Reads file cs

/-- Arguments name one file and do not ask for help. -/
structure Arguments.Names (a : Arguments) (file : Text) : Prop where
  words : a.words = [file]
  helpless : a.has "--help" = false

/-- Arguments name one file, and nothing else but a workspace. -/
structure Arguments.Name (a : Arguments) (file : Text) : Prop where
  words : a.words = [file]
  options : ∀ x ∈ a.options, x.1 = "--workspace"

theorem Arguments.Name.values {a : Arguments} {file : Text} (h : a.Name file) {key : String}
    (hkey : key ≠ "--workspace") : a.has key = false ∧ a.values key = [] := by
  have hother (x : String × Text) (hx : x ∈ a.options) : ¬(x.1 == key) = true := by
    rw [h.options x hx, beq_iff_eq]
    exact hkey.symm
  constructor
  · exact List.any_eq_false.mpr hother
  · unfold Arguments.values
    rw [List.filter_eq_nil_iff.mpr hother]
    rfl

theorem Arguments.Name.names {a : Arguments} {file : Text} (h : a.Name file) : a.Names file :=
  ⟨h.words, (h.values (show "--help" ≠ "--workspace" by decide)).1⟩

theorem Arguments.workspace_of_none {a : Arguments} (h : a.value? "--workspace" = none)
    (files : FileSystem) (cwd : Path) :
    ∀ w ∈ a.value? "--workspace", files.Shows cwd w .directory := by
  rw [h]
  exact fun w hw => nomatch hw

theorem Machine.IsPlaced.written {m : Machine} (h : m.IsPlaced) : m.cwd.IsWritten := by
  rw [← h.named]
  exact Path.isWritten_ofText _

theorem Machine.named_of_locateBy {m : Machine} (absolute : m.cwd.isAbsolute = true)
    (written : m.cwd.IsWritten) {start config : Path} {spec : SearchSpec}
    (hstart : start.IsWritten)
    (h : Search.locateBy m.probe m.cwd start spec = .ok (some config)) :
    Path.ofText config.text = config := by
  obtain ⟨hit, -, hwritten, rfl⟩ := Search.of_locateBy absolute written hstart h
  exact Path.ofText_text hwritten.normalize

/-- A file is opened as the characters of its bytes, or not at all. -/
theorem FileDocument.openFile_eq {fs : FileSystem} {cwd path : Path} {bytes : List UInt8}
    (h : fs.read cwd (cwd.join path) = .ok bytes) :
    FileDocument.openFile fs cwd path "utf-8" =
      match Utf8.decode bytes with
      | .ok cs => .ok ⟨cwd.join path, .utf8, Text.ofChars cs⟩
      | .error fault => .error (.ofUtf8 fault) := by
  have hname : Encoding.ofName? "utf-8" = some .utf8 := by decide
  unfold openFile
  dsimp only
  rw [h, hname]
  show (Encoding.decodeUtf8 bytes >>= fun text => _) = _
  unfold Encoding.decodeUtf8
  cases Utf8.decode bytes <;> rfl

/-- A file is opened exactly where it is read under its absolute path and has a text in it. -/
theorem FileDocument.openFile_ok_iff {m : Machine} {file : Text} {d : FileDocument} :
    FileDocument.openFile m.files m.cwd (.ofText file) "utf-8" = .ok d ↔
      ∃ cs, m.Reads file cs ∧ d = ⟨m.cwd.join (.ofText file), .utf8, Text.ofChars cs⟩ := by
  constructor
  · intro h
    obtain ⟨bytes, hread, -⟩ := bind_eq_ok.mp h
    rw [FileDocument.openFile_eq hread] at h
    split at h
    · rename_i cs hcs
      cases h
      exact ⟨cs, ⟨bytes, hread, hcs⟩, rfl⟩
    · cases h
  · rintro ⟨cs, ⟨bytes, hread, hcs⟩, rfl⟩
    rw [FileDocument.openFile_eq hread, hcs]

/-! ## Running the two commands -/

namespace Command

variable {α : Type} {t : Terminal}

theorem run_directory? {c : CommandSpec} {a : Arguments} {key : String}
    (there : ∀ w ∈ a.value? key, t.machine.files.Shows t.machine.cwd w .directory) :
    t.run (directory? c a key) = (.ok ((a.value? key).map Path.ofText), t) := by
  unfold directory?
  cases hvalue : a.value? key with
  | none => rfl
  | some w =>
    dsimp only
    rw [run_bind_ok (run_path (there w hvalue) (by decide) (by decide))]
    rfl

/-- A command that is given one file and perhaps a workspace goes on with their paths. -/
theorem run_named {c : CommandSpec} {words : List Text} {a : Arguments} {file : Text}
    {bytes : List UInt8} {executable : Bool} {spec : ArgumentSpec}
    (hscan : Arguments.scan c words = .ok a) (hname : a.Names file)
    (hworkspace : ∀ w ∈ a.value? "--workspace", t.machine.files.Shows t.machine.cwd w .directory)
    (hfile : t.machine.files.Shows t.machine.cwd file (.file bytes executable))
    (hkind : spec.kind ≠ .directory) (k : Arguments → Option Path → Path → Command α) :
    t.run (do
      let a ← arguments c words
      let workspace ← directory? c a "--workspace"
      let p ← argument c spec a
      k a workspace p) =
        t.run (k a ((a.value? "--workspace").map Path.ofText) (.ofText file)) := by
  have hpath : t.run (path c spec.heading spec.kind file) = (.ok (.ofText file), t) :=
    run_path hfile (fun h => nomatch h.1) fun h => hkind h.2
  have hargument : t.run (argument c spec a) = (.ok (.ofText file), t) := by
    unfold argument
    rw [hname.words]
    show t.run (path c spec.heading spec.kind file >>= _) = _
    rw [run_bind_ok hpath]
    rfl
  rw [run_bind_ok (run_arguments hscan hname.helpless), run_bind_ok (run_directory? hworkspace),
    run_bind_ok hargument]

end Command

open Command

namespace CommandLine

def flags (verbose : Bool) : List Text := if verbose then ["-v"] else []

/-- The terminal on which a command begins: the log has been set up with its defaults, for which
no file is needed. -/
def opened (t : Terminal) (verbose : Bool) : Terminal :=
  t.prepared t.machine.files
    (Log.Setup.configure t.machine.files t.machine.cwd .defaults verbose).2.1

theorem run_command {name : String} {call : Bool → List Text → Command Unit}
    (hscan : ∀ words, Arguments.scan spec (Text.ofString name :: words) =
      .ok ⟨[], Text.ofString name :: words⟩)
    (hcall : command? (Text.ofString name) = some call) (t : Terminal) (verbose : Bool)
    (words : List Text) :
    t.run (run (flags verbose ++ Text.ofString name :: words)) =
      (opened t verbose).run (call verbose words) := by
  obtain ⟨options, hopening, hverbose⟩ : ∃ options,
      t.run (opening (flags verbose ++ Text.ofString name :: words)) =
        (.ok ⟨options, Text.ofString name :: words⟩, t) ∧
      Arguments.has ⟨options, Text.ofString name :: words⟩ "--verbose" = verbose := by
    unfold opening
    cases verbose with
    | false =>
      refine ⟨[], ?_, rfl⟩
      rw [show flags false ++ Text.ofString name :: words = Text.ofString name :: words from rfl,
        hscan]
      rfl
    | true =>
      refine ⟨[("--verbose", [])], ?_, rfl⟩
      have hflag : Arguments.scan spec (flags true ++ Text.ofString name :: words) =
          (Arguments.scan spec (Text.ofString name :: words)).map
            (Arguments.after [("--verbose", [])]) := rfl
      rw [hflag, hscan]
      rfl
  have hfilled : (flags verbose ++ Text.ofString name :: words).isEmpty = false := by
    cases verbose <;> rfl
  -- Nothing is opened by the default logging: the files stay as they are.
  have hlog : Log.Setup.configure t.machine.files t.machine.cwd .defaults verbose =
      (t.machine.files, _, .ok ()) := rfl
  unfold run
  rw [hfilled]
  show t.run (opening _ >>= _) = _
  rw [run_bind_ok hopening]
  dsimp only
  rw [hverbose, hcall]
  dsimp only
  rw [run_bind_ok (run_configureLog hlog)]
  rfl

end CommandLine

theorem Lint.spares_shown (asJson : Bool) (path : Path) (o : Outcome) :
    Spares (shown asJson path o) := by
  have hdisplay : Spares (display path o) := by
    unfold display
    split
    · exact Spares.bind (fun _ => rfl) fun _ => spares_complain _
    · exact spares_complain _
    · exact spares_forM (fun _ => spares_print _) _
  have hstatus : Spares (if status o ≠ 0 then Command.exit (status o) else pure () : Command Unit) := by
    split
    · exact spares_exit _
    · exact spares_pure ()
  cases asJson with
  | true => exact (spares_print _).bind fun _ => hstatus
  | false => exact hdisplay.bind fun _ => hstatus

section Call

variable {m : Machine} {t : Terminal} {words : List Text} {a : Arguments} {file : Text}
  {bytes : List UInt8} {executable verbose : Bool}

theorem Locate.run_call (hscan : Arguments.scan Locate.spec words = .ok a) (hname : a.Name file)
    (hworkspace : ∀ w ∈ a.value? "--workspace", t.machine.files.Shows t.machine.cwd w .directory)
    (hfile : t.machine.files.Shows t.machine.cwd file (.file bytes executable)) :
    t.run (Locate.call verbose words) =
      t.run (Locate.run verbose (.ofText file) [] ((a.value? "--workspace").map Path.ofText)) := by
  have hnames := (hname.values (show "--name" ≠ "--workspace" by decide)).2
  have hkind : Locate.pathArgument.kind ≠ .directory := by decide
  rw [← hnames]
  exact run_named hscan hname.names hworkspace hfile hkind fun a workspace p =>
    Locate.run verbose p (a.values "--name") workspace

theorem Lint.run_call (hscan : Arguments.scan Lint.spec words = .ok a) (hname : a.Names file)
    (hworkspace : ∀ w ∈ a.value? "--workspace", t.machine.files.Shows t.machine.cwd w .directory)
    (hfile : t.machine.files.Shows t.machine.cwd file (.file bytes executable)) :
    t.run (Lint.call verbose words) =
      t.run (Lint.run verbose (.ofText file) (a.has "--json")
        ((a.value? "--workspace").map Path.ofText)) := by
  have hkind : fileArgument.kind ≠ .directory := by decide
  exact run_named hscan hname hworkspace hfile hkind fun a workspace p =>
    Lint.run verbose p (a.has "--json") workspace

end Call

/-! ## The work of the two commands -/

section Run

variable {t : Terminal} {verbose : Bool} {workspace : Option Path} {c : Config}
  {files : FileSystem} {log : Log.Setup}
  (hlog : Log.Setup.configure t.machine.files t.machine.cwd c.logging verbose =
    (files, log, .ok ()))
include hlog

theorem Locate.run_found {p config : Path} {names : List Text}
    (hload : Config.load t.machine workspace false [] = .ok c)
    (hnearest : nearest { t.machine with files } c.linter names p = .ok (some config))
    (hwhole : config.text.IsWhole) :
    t.run (Locate.run verbose p names workspace) =
      (.ok (), (t.prepared files log).shows config.text.printed) := by
  unfold Locate.run
  rw [run_bind_ok (run_configuration hload hlog), run_bind_ok (run_get _)]
  show (t.prepared files log).run
    (ofExcept (nearest { t.machine with files } c.linter names p) >>= _) = _
  rw [hnearest]
  exact run_print hwhole _

/-- The path of a configuration that cannot be printed ends the command in a way that nobody has
foreseen, and nothing of it comes out. -/
theorem Locate.run_unprintable {p config : Path} {names : List Text}
    (hload : Config.load t.machine workspace false [] = .ok c)
    (hnearest : nearest { t.machine with files } c.linter names p = .ok (some config))
    (hwhole : ¬config.text.IsWhole) :
    ∃ f, (t.run (Locate.run verbose p names workspace)).1 = .error (.failure f) ∧
      (t.run (Locate.run verbose p names workspace)).2.stdout = t.stdout := by
  obtain ⟨f, hf⟩ := failure_of_print hwhole (t.prepared files log)
  have hrun : t.run (Locate.run verbose p names workspace) =
      (.error (.failure f), t.prepared files log) := by
    unfold Locate.run
    rw [run_bind_ok (run_configuration hload hlog), run_bind_ok (run_get _)]
    show (t.prepared files log).run
      (ofExcept (nearest { t.machine with files } c.linter names p) >>= _) = _
    rw [hnearest]
    exact hf
  exact ⟨f, congrArg (·.1) hrun, congrArg (·.2.stdout) hrun⟩

/-- Without a configuration there is nothing on the output stream, and the status says so. -/
theorem Locate.run_unfound {p : Path} {names : List Text}
    (hload : Config.load t.machine workspace false [] = .ok c)
    (hnearest : nearest { t.machine with files } c.linter names p = .ok none) :
    (t.run (Locate.run verbose p names workspace)).1 = .error (.exit 1) ∧
      (t.run (Locate.run verbose p names workspace)).2.stdout = t.stdout := by
  unfold Locate.run
  rw [run_bind_ok (run_configuration hload hlog), run_bind_ok (run_get _)]
  show (Terminal.run (t.prepared files log)
    (ofExcept (nearest { t.machine with files } c.linter names p) >>= _)).1 = _ ∧
      (Terminal.run (t.prepared files log)
        (ofExcept (nearest { t.machine with files } c.linter names p) >>= _)).2.stdout = _
  rw [hnearest]
  exact ⟨rfl, rfl⟩

/-- Linting a file shows the outcome of a request for its document. -/
theorem Lint.run_file {p : Path} {d : FileDocument}
    (hload : Config.load t.machine workspace true [] = .ok c)
    (hopen : FileDocument.openFile files t.machine.cwd p "utf-8" = .ok d) :
    ∃ id correlation, ∀ asJson,
      t.run (Lint.run verbose p asJson workspace) =
        ({ t.prepared files log with correlation } : Terminal).run (do
          let o ← perform ((Request.run .none { t.machine with files } (.ok c.linter) .diagnose
            d.path d.text (t.children.headD .absent)).forRequest id)
          shown asJson d.path o) := by
  refine ⟨(t.correlation.bind none).1, (t.correlation.bind none).2.clear, fun asJson => ?_⟩
  show t.run (do
    let c ← configuration verbose workspace true
    let d ← openDocument p
    let id ← newRequest
    let o ← outcome id c.linter .diagnose d
    shown asJson d.path o) = _
  have hdocument := run_openDocument_ok (t := t.prepared files log) hopen
  rw [run_bind_ok (run_configuration hload hlog), run_bind_ok hdocument,
    run_bind_ok (run_newRequest _), run_bind, run_outcome, ← run_bind]
  rfl

end Run

end EditorLint
