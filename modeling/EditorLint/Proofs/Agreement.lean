import EditorLint.Proofs.CommandRuns
import EditorLint.Proofs.Quoting
import EditorLint.Proofs.Spawning

/-!
# Locating and linting agree

Two commands search the configuration of a file, each in its own way: one prints it, the other
one hands it to the linter.  Given the same words they find the same (`locate_lint_agree`):
they see the same files once the log is set up, and the directory of the path as it was typed
is that of the absolute path of the document.

The document is opened under its absolute path, which may be too long where the path as it was
typed is not.  Then only the configuration is found.  A path is printed without the styles in it,
so what is printed may be another path; and a path with bytes in it that are not UTF-8 is not
printed at all (`locate_lint_disagree`).
-/

namespace EditorLint

open Command

/-! ## The directory of a file -/

section Named

variable {m : Machine} (hm : m.IsPlaced) {file : Text} {bytes : List UInt8} {executable : Bool}
  (hfile : m.files.Shows m.cwd file (.file bytes executable))
include hfile

section Files

variable {files : FileSystem} (grows : m.files.Grows files)
include grows

theorem Locate.start_file :
    Locate.start { m with files } (.ofText file) = (Path.ofText file).parent := by
  obtain ⟨place, hfound, -⟩ := hfile
  have hway := FileSystem.walk_of_lookUpText grows hfound
  refine if_neg fun hdirectory => ?_
  unfold FileSystem.hasDirectory FileSystem.lookUp at hdirectory
  rcases FileSystem.lookUpNames_cases (Path.ofText file).text with ⟨why, hblocked⟩ | hwalk
  · rw [hblocked] at hdirectory
    cases hdirectory
  · rw [hwalk, hway] at hdirectory
    cases hdirectory

end Files

include hm

/-- The directory of the document is that of the file as it was typed. -/
theorem Path.parent_join_file :
    m.cwd.join (m.cwd.join (.ofText file)).parent = m.cwd.join (Path.ofText file).parent := by
  rw [Path.parent_join]
  · exact Path.join_of_isAbsolute (Path.isAbsolute_join hm.absolute _) m.cwd
  · -- Without parts it would be the working directory, which is not a file.
    intro hrelative hnone
    obtain ⟨place, hfound, -⟩ := hfile
    have hway := FileSystem.walk_of_lookUpText (.refl m.files) hfound
    rw [show (Path.ofText file).names = [] from congrArg (List.map Name.ofText) hnone] at hway
    cases FileSystem.walkDirectory_nil hway

variable {files : FileSystem} (grows : m.files.Grows files)
include grows

/-- The search for a file and the search for its document are the same. -/
theorem Locate.nearest_file (s : LinterSettings) :
    Search.locateBy (Machine.probe { m with files }) m.cwd (m.cwd.join (.ofText file)).parent
        (Search.spec s.configNames s.maxAscent) =
      Locate.nearest { m with files } s [] (.ofText file) := by
  unfold Locate.nearest
  rw [Locate.start_file hfile grows]
  exact Search.locateBy_congr (Path.parent_join_file hm hfile)

end Named

/-! ## What is seen of a run -/

/-- Behind the same shell, the same command is made of the same words. -/
theorem Invocation.words_of_command {i j : Invocation} (hshell : i.shell = j.shell)
    (h : i.command = j.command) : i.words = j.words := by
  have hquoted (h : i.display = j.display) : i.words = j.words := Shell.commandLine_injective h
  unfold Invocation.command at h
  rw [hshell] at h
  split at h
  · exact h
  · exact h
  · exact hquoted (List.cons.inj (List.cons.inj (List.cons.inj h).2).2).1

namespace Terminal

/-- Exactly one linter has been started, or was tried to be: that of the settings, with a
configuration for its first arguments and in the directory of that. -/
def LintsBy (t : Terminal) (s : LinterSettings) (config : Text) : Prop :=
  ∃ (i : Invocation) (rest : List Text), some i.executable = s.eslintPath ∧ i.shell = s.shellPath ∧
    i.args = ("--config" : Text) :: config :: rest ∧ i.cwd = (Path.ofText config).parent ∧
      t.attempts = [⟨i.command, i.cwd, i.input.isSome⟩]

/-- No child was started or tried to be, nothing was done to any, and the user was told last that
there is no configuration for a path. -/
def LacksConfig (t : Terminal) (path : Path) : Prop :=
  t.attempts = [] ∧ t.processes = [] ∧
    escaped (Text.unstyled ("No eslint config found for " ++ path.text) ++ "\n") <:+ t.stderr

/-- The configuration that a linter was started for is the only one that it was started for. -/
theorem lintsBy_iff {t : Terminal} {s : LinterSettings} {config file : Path} {eslint : Text}
    (heslint : s.eslintPath = some eslint) (hfilled : eslint ≠ [])
    (hpath : Path.ofText config.text = config)
    (hattempts : let i := Invocation.build s config file .diagnose none
      t.attempts = [⟨i.command, i.cwd, false⟩]) (p : Text) :
    t.LintsBy s p ↔ p = config.text := by
  let i := Invocation.build s config file .diagnose none
  have hexecutable : i.executable = eslint := by
    simp only [i, Invocation.build, heslint]
  have hargs : i.args = ("--config" : Text) :: config.text ::
      ["--format", "json", file.text] := rfl
  constructor
  · rintro ⟨j, rest, hj, hshell, hjargs, -, hone⟩
    rw [hattempts] at hone
    have hcommand : i.command = j.command := (Attempt.mk.inj (List.cons.inj hone).1).1
    have hwords := Invocation.words_of_command hshell.symm hcommand
    have hsame : i.args = j.args := (List.cons.inj hwords).2
    rw [hargs, hjargs] at hsame
    exact (List.cons.inj (List.cons.inj hsame).2).1.symm
  · rintro rfl
    refine ⟨i, ["--format", "json", file.text], ?_, rfl, hargs, ?_, hattempts⟩
    · rw [hexecutable, heslint]
    · rw [hpath]
      rfl

end Terminal

/-! ## What comes of a search -/

section Run

variable {t : Terminal} {verbose : Bool} {workspace : Option Path} {c : Config}
  {files : FileSystem} {log : Log.Setup}
  (hlog : Log.Setup.configure t.machine.files t.machine.cwd c.logging verbose =
    (files, log, .ok ()))
include hlog

theorem Lint.dealt_run {p : Path} {d : FileDocument}
    (hload : Config.load t.machine workspace true [] = .ok c)
    (hopen : FileDocument.openFile files t.machine.cwd p "utf-8" = .ok d) :
    let x := Request.run .none { t.machine with files } (.ok c.linter) .diagnose d.path d.text
      (t.children.headD .absent)
    (t.run (Lint.run verbose p false workspace)).2.dealt =
      (t.attempts ++ x.attempts, t.processes ++ Effect.processes x.effects) := by
  intro x
  obtain ⟨id, correlation, hrun⟩ := Lint.run_file hlog hload hopen
  rw [hrun, Spares.after (spares_shown false d.path), dealt_perform]
  show (t.attempts ++ Effect.attempts (x.effects.map _),
    t.processes ++ Effect.processes (x.effects.map _)) = _
  rw [Effect.attempts_forRequest, Effect.processes_forRequest]
  rfl

/-- Where there is a configuration, linting a file starts one linter, or tries to. -/
theorem Lint.attempts_run {p config : Path} {d : FileDocument} (hclean : t.dealt = ([], []))
    (hload : Config.load t.machine workspace true [] = .ok c)
    (hopen : FileDocument.openFile files t.machine.cwd p "utf-8" = .ok d)
    (hfound : Search.locateBy (Machine.probe { t.machine with files }) t.machine.cwd d.path.parent
      (Search.spec c.linter.configNames c.linter.maxAscent) = .ok (some config)) :
    let i := Invocation.build c.linter config d.path .diagnose none
    (t.run (Lint.run verbose p false workspace)).2.attempts = [⟨i.command, i.cwd, false⟩] := by
  intro i
  have hdealt := Lint.dealt_run hlog hload hopen
  refine (Prod.mk.inj hdealt).1.trans ?_
  rw [(Prod.mk.inj hclean).1, Request.attempts_run .none d.text _ hfound]
  rfl

theorem Lint.lacksConfig_run {p : Path} {d : FileDocument} (hclean : t.dealt = ([], []))
    (hload : Config.load t.machine workspace true [] = .ok c)
    (hopen : FileDocument.openFile files t.machine.cwd p "utf-8" = .ok d)
    (hnone : Search.locateBy (Machine.probe { t.machine with files }) t.machine.cwd d.path.parent
      (Search.spec c.linter.configNames c.linter.maxAscent) = .ok none) :
    (t.run (Lint.run verbose p false workspace)).1 = .ok () ∧
      (t.run (Lint.run verbose p false workspace)).2.LacksConfig d.path := by
  have hdealt := Lint.dealt_run hlog hload hopen
  obtain ⟨id, correlation, hrun⟩ := Lint.run_file hlog hload hopen
  rw [Request.run_unfound .none d.text _ hnone] at hdealt
  obtain ⟨hattempts, hprocesses⟩ := Prod.mk.inj (hdealt.trans
    (congr (congrArg Prod.mk (List.append_nil _)) (List.append_nil _)))
  obtain ⟨hnone', hnothing⟩ := Prod.mk.inj hclean
  constructor
  · rw [hrun, Request.run_unfound .none d.text _ hnone]
    rfl
  · refine ⟨hattempts.trans hnone', hprocesses.trans hnothing, ?_⟩
    rw [hrun, Request.run_unfound .none d.text _ hnone]
    exact List.suffix_append _ _

end Run

/-! ## Agreement -/

theorem Locate.named_of_nearest {m : Machine} (absolute : m.cwd.isAbsolute = true)
    (written : m.cwd.IsWritten) {s : LinterSettings} {names : List Text} {p config : Path}
    (hp : p.IsWritten) (h : nearest m s names p = .ok (some config)) :
    Path.ofText config.text = config := by
  have hstart : (start m p).IsWritten := by
    unfold start
    split
    · exact hp
    · exact hp.parent
  exact Machine.named_of_locateBy absolute written hstart h

/-- Given the same words, the configuration of a file is found by both commands or by neither.
One is content and prints a line exactly where the other one starts the linter with a path that
is printed so, in its directory, and nothing else.  And one prints nothing and has status 1
exactly where the other one starts nothing and says that there is no configuration, or starts the
linter with a path that cannot be printed. -/
theorem locate_lint_agree {m : Machine} (hm : m.IsPlaced) (time : Text) (children : List Child)
    (traces : List CallTrace) (verbose : Bool) {words : List Text} {a : Arguments} {file : Text}
    (hlocate : Arguments.scan Locate.spec words = .ok a)
    (hlint : Arguments.scan Lint.spec words = .ok a) (hname : a.Name file)
    (hworkspace : ∀ w ∈ a.value? "--workspace", m.files.Shows m.cwd w .directory)
    {bytes : List UInt8} {executable : Bool}
    (hfile : m.files.Shows m.cwd file (.file bytes executable)) {c : Config}
    (hload : Config.load m ((a.value? "--workspace").map Path.ofText) true [] = .ok c)
    {files : FileSystem} {log : Log.Setup}
    (hlog : Log.Setup.configure m.files m.cwd c.logging verbose = (files, log, .ok ()))
    (htext : Machine.HasText { m with files } file)
    (hprobes : ∀ f, Locate.nearest { m with files } c.linter [] (.ofText file) ≠ .error f) :
    let t := Terminal.fresh m time children traces
    let located := t.run (CommandLine.run (CommandLine.flags verbose ++ ("locate" : Text) :: words))
    let linted := t.run (CommandLine.run (CommandLine.flags verbose ++ ("lint" : Text) :: words))
    (∀ line : List Char,
      CommandLine.status located.1 = 0 ∧ located.2.stdout = line ↔
        ∃ p : Text, p.IsWhole ∧ p.printed = line ∧ linted.2.LintsBy c.linter p) ∧
      (CommandLine.status located.1 = 1 ∧ located.2.stdout = [] ↔
        (CommandLine.status linted.1 = 0 ∧ linted.2.LacksConfig (m.cwd.join (.ofText file))) ∨
          ∃ p : Text, ¬p.IsWhole ∧ linted.2.LintsBy c.linter p) := by
  intro t located linted
  obtain ⟨hloadAny, eslint, shell, heslint, hfilled, -, -⟩ := Config.load_of_required hload
  have grows : m.files.Grows files := Log.Setup.grows_configure hlog
  let m' : Machine := { m with files }
  obtain ⟨cs, hreads⟩ := htext
  have hopen : FileDocument.openFile files m.cwd (.ofText file) "utf-8" = .ok _ :=
    FileDocument.openFile_ok_iff.mpr ⟨cs, hreads, rfl⟩
  -- Both commands look at the same files, from the same directory.
  have hsearch := Locate.nearest_file hm hfile grows c.linter
  let t₁ : Terminal := CommandLine.opened t verbose
  have hlocated : located = t₁.run _ :=
    (CommandLine.run_command (fun _ => rfl)
      (rfl : CommandLine.command? ("locate" : Text) = some Locate.call) t verbose words).trans
      (Locate.run_call hlocate hname hworkspace hfile)
  have hplain := (hname.values (show "--json" ≠ "--workspace" by decide)).1
  have hlinted : linted = t₁.run (Lint.run verbose (.ofText file) false _) :=
    (CommandLine.run_command (fun _ => rfl)
      (rfl : CommandLine.command? ("lint" : Text) = some Lint.call) t verbose words).trans
      (hplain ▸ Lint.run_call hlint hname.names hworkspace hfile)
  cases hnearest : Locate.nearest m' c.linter [] (.ofText file) with
  | error f => exact absurd hnearest (hprobes f)
  | ok found =>
    rw [hnearest] at hsearch
    cases found with
    | none =>
      obtain ⟨hend, hnothing⟩ := Locate.run_unfound (t := t₁) hlog hloadAny hnearest
      obtain ⟨hdone, hlacks⟩ := Lint.lacksConfig_run (t := t₁) hlog rfl hload hopen hsearch
      rw [hlocated, hlinted, hend, hdone]
      constructor
      · intro line
        refine iff_of_false ?_ ?_
        · rintro ⟨⟨⟩, -⟩
        · rintro ⟨p, -, -, i, rest, -, -, -, -, hone⟩
          rw [hlacks.1] at hone
          cases hone
      · exact iff_of_true ⟨rfl, hnothing⟩ (.inl ⟨rfl, hlacks⟩)
    | some config =>
      have hpath : Path.ofText config.text = config :=
        Locate.named_of_nearest (m := m') hm.absolute hm.written (Path.isWritten_ofText file) hnearest
      have hattempts := Lint.attempts_run (t := t₁) hlog rfl hload hopen hsearch
      rw [← hlinted] at hattempts
      have hlints := Terminal.lintsBy_iff heslint hfilled hpath hattempts
      have hstarted : ¬linted.2.LacksConfig (m.cwd.join (.ofText file)) := by
        rintro ⟨hnothing, -⟩
        rw [hnothing] at hattempts
        cases hattempts
      rw [hlocated]
      by_cases hwhole : config.text.IsWhole
      · rw [Locate.run_found (t := t₁) hlog hloadAny hnearest hwhole]
        constructor
        · intro line
          constructor
          · rintro ⟨-, rfl⟩
            exact ⟨config.text, hwhole, rfl, (hlints _).mpr rfl⟩
          · rintro ⟨p, -, rfl, hp⟩
            obtain rfl := (hlints p).mp hp
            exact ⟨rfl, rfl⟩
        · refine iff_of_false ?_ ?_
          · rintro ⟨⟨⟩, -⟩
          · rintro (⟨-, hlacks⟩ | ⟨p, hbroken, hp⟩)
            · exact hstarted hlacks
            · obtain rfl := (hlints p).mp hp
              exact hbroken hwhole
      · obtain ⟨f, hend, hnothing⟩ :=
          Locate.run_unprintable (t := t₁) hlog hloadAny hnearest hwhole
        rw [hend]
        constructor
        · intro line
          refine iff_of_false ?_ ?_
          · rintro ⟨⟨⟩, -⟩
          · rintro ⟨p, hp, -, hlinted⟩
            obtain rfl := (hlints p).mp hlinted
            exact hwhole hp
        · exact iff_of_true ⟨rfl, hnothing⟩ (.inr ⟨config.text, hwhole, (hlints _).mpr rfl⟩)

/-- A file that is spelled through a link and up again, and the workspace above: the search goes
up from the directory as it is spelled. -/
theorem locate_lint_agree_linked :
    let files : FileSystem := .ofNodes [([], .directory), (["d"], .directory),
      (["d", "a"], .file [] false), (["l"], .linkTo "d"), (["eslint.config.js"], .file [] false)]
    let m : Machine := ⟨files, ⟨.slash, ["d"]⟩,
      [("NANOLINT__LINTER__ESLINT_PATH", "e"), ("NANOLINT__LINTER__SHELL_PATH", "s")], .alone "/root"⟩
    let words : List Text := ["--workspace", "..", "../l/./a"]
    let t := Terminal.fresh m [] [] []
    let located := t.run (CommandLine.run (CommandLine.flags false ++ ("locate" : Text) :: words))
    let linted := t.run (CommandLine.run (CommandLine.flags false ++ ("lint" : Text) :: words))
    CommandLine.status located.1 = 0 ∧ located.2.stdout = "/eslint.config.js\n".toList ∧
      ∃ s, ∃ p : Text, p.IsWhole ∧ p.printed = "/eslint.config.js\n".toList ∧
        linted.2.LintsBy s p := by
  intro files m words
  dsimp only
  have hsettings : (Config.load m (some (.ofText "..")) true []).toOption.map
      (fun c => (c.logging, c.linter.configNames, c.linter.maxAscent)) =
        some (.defaults, [], 100) := by decide +kernel
  obtain ⟨c, hload, hc⟩ := exists_ok_of_toOption hsettings
  have hlogging : c.logging = .defaults := congrArg (·.1) hc
  have hnames : c.linter.configNames = [] := congrArg (·.2.1) hc
  have hascent : c.linter.maxAscent = 100 := congrArg (·.2.2) hc
  obtain ⟨log, hlog⟩ : ∃ log,
      Log.Setup.configure files m.cwd c.logging false = (files, log, .ok ()) := by
    rw [hlogging]
    exact ⟨_, rfl⟩
  have hprobes (f : Failure) : Locate.nearest m c.linter [] (.ofText "../l/./a") ≠ .error f := by
    have hsearched : (Search.locateBy m.probe m.cwd (Locate.start m (.ofText "../l/./a"))
        (Search.spec ([] ++ []) 100)).toOption.isSome = true := by decide +kernel
    unfold Locate.nearest
    rw [hnames, hascent]
    intro hfails
    rw [show Search.locateBy _ _ _ _ = _ from hfails] at hsearched
    cases hsearched
  have hfile : m.files.Shows m.cwd "../l/./a" (.file [] false) := ⟨["d", "a"], by decide +kernel⟩
  have htext : m.HasText "../l/./a" := by
    refine ⟨[], [], ok_of_toOption (by decide +kernel), ?_⟩
    rw [Utf8.decode, Utf8.decodeFrom]
  have habove : m.files.Shows m.cwd ".." .directory := ⟨[], by decide +kernel⟩
  let a : Arguments := ⟨[("--workspace", "..")], ["../l/./a"]⟩
  have hlocate : Arguments.scan Locate.spec words = .ok a := rfl
  have hlint : Arguments.scan Lint.spec words = .ok a := rfl
  have hname : a.Name "../l/./a" := ⟨rfl, List.forall_mem_singleton.mpr rfl⟩
  have hvalue : a.value? "--workspace" = some (Text.ofString "..") := rfl
  have hworkspace : ∀ w ∈ a.value? "--workspace", m.files.Shows m.cwd w .directory := by
    rintro w hw
    rw [hvalue] at hw
    cases hw
    exact habove
  have hload' : Config.load m ((a.value? "--workspace").map Path.ofText) true [] = .ok c := by
    rw [hvalue]
    exact hload
  obtain ⟨hfirst, -⟩ := locate_lint_agree ⟨rfl, rfl⟩ [] [] [] false hlocate hlint hname hworkspace
    hfile hload' hlog htext hprobes
  suffices hprinted : _ ∧ _ from
    and_assoc.mp ⟨hprinted, c.linter, (hfirst "/eslint.config.js\n".toList).mp hprinted⟩
  decide +kernel

/-- A path is printed for a file, and no linter is started with that path. -/
def Machine.Disagrees (m : Machine) (file : Text) (p : List Char) : Prop :=
  let t := Terminal.fresh m [] [] []
  let located := t.run (CommandLine.run [Text.ofString "locate", file])
  let linted := t.run (CommandLine.run [Text.ofString "lint", file])
  m.IsPlaced ∧ (∃ bytes, m.files.Shows m.cwd file (.file bytes false)) ∧
    (Config.load m none true []).toOption.isSome = true ∧
    (CommandLine.status located.1 = 0 ∧ located.2.stdout = p ++ ['\n']) ∧
    ¬∃ s, linted.2.LintsBy s (Text.ofChars p)

/-- The path of a file may be short enough as it is typed and too long from the root: its
configuration is located, and the file cannot be opened to lint it.  Or there is a style in the
path of the configuration: what is printed is the path of another one.  Or there is a byte in it
that is not UTF-8: nothing is printed, and yet the linter is started. -/
theorem locate_lint_disagree :
    let environment : List (Text × Text) :=
      [("NANOLINT__LINTER__ESLINT_PATH", "e"), ("NANOLINT__LINTER__SHELL_PATH", "s")]
    let d : Text := List.replicate 63 (.scalar (Char.ofNat 0x1D4B9))
    let name : Text := d ++ Text.ofString "abc"
    let long : Machine := ⟨.ofNodes [([], .directory), (["eslint.config.js"], .file [] false),
      ([.ofText d], .directory), ([.ofText name], .file [120] false)], ⟨.slash, []⟩, environment,
      .alone "/root"⟩
    let file : Text := (List.replicate 15 (d ++ Text.ofString "/../")).flatten ++ name
    let styled : Machine := ⟨.ofNodes [([], .directory), (["\x1b[1md"], .directory),
      (["\x1b[1md", "eslint.config.js"], .file [] false),
      (["\x1b[1md", "a.js"], .file [120] false)], ⟨.slash, ["\x1b[1md"]⟩, environment,
      .alone "/root"⟩
    let byte : Name := ⟨[0xff]⟩
    let unprintable : Machine := ⟨.ofNodes [([], .directory), ([byte], .directory),
      ([byte, "eslint.config.js"], .file [] false), ([byte, "a.js"], .file [120] false)],
      ⟨.slash, [byte.text]⟩, environment, .alone "/root"⟩
    let t := Terminal.fresh unprintable [] [] []
    let located := t.run (CommandLine.run ["locate", "a.js"])
    long.Disagrees file "/eslint.config.js".toList ∧
      styled.Disagrees "a.js" "/d/eslint.config.js".toList ∧
      unprintable.IsPlaced ∧ unprintable.files.Shows unprintable.cwd "a.js" (.file [120] false) ∧
      (Config.load unprintable none true []).toOption.isSome = true ∧
      CommandLine.status located.1 = 1 ∧ located.2.stdout = [] ∧
      (t.run (CommandLine.run ["lint", "a.js"])).2.attempts ≠ [] := by
  intro environment d name long file styled byte unprintable
  unfold Machine.Disagrees
  refine ⟨?_, ?_, ?_⟩
  · intro t located linted
    have hruns : (Config.load long none true []).toOption.isSome = true ∧
        (CommandLine.status located.1 = 0 ∧ located.2.stdout = "/eslint.config.js\n".toList) ∧
        linted.2.attempts = [] := by decide +kernel
    obtain ⟨hload, hprinted, hnone⟩ := hruns
    refine ⟨⟨rfl, rfl⟩, ⟨[120], [.ofText name], by decide +kernel⟩, hload, hprinted, ?_⟩
    rintro ⟨s, i, rest, -, -, -, -, hone⟩
    rw [hnone] at hone
    cases hone
  · intro t located linted
    have hruns : (Config.load styled none true []).toOption.isSome = true ∧
        (CommandLine.status located.1 = 0 ∧ located.2.stdout = "/d/eslint.config.js\n".toList) ∧
        linted.2.attempts =
          [⟨["s", "-c", "e --config '/\x1b[1md/eslint.config.js' --format json '/\x1b[1md/a.js'"],
            ⟨.slash, ["\x1b[1md"]⟩, false⟩] := by decide +kernel
    obtain ⟨hload, hprinted, hattempts⟩ := hruns
    refine ⟨⟨rfl, rfl⟩, ⟨[120], ["\x1b[1md", "a.js"], by decide +kernel⟩, hload, hprinted, ?_⟩
    rintro ⟨s, i, rest, -, -, -, hcwd, hone⟩
    -- The directory of what is printed is not the one the linter was started in.
    rw [hattempts] at hone
    have hthere : (⟨.slash, ["\x1b[1md"]⟩ : Path) = i.cwd :=
      (Attempt.mk.inj (List.cons.inj hone).1).2.1
    rw [hcwd] at hthere
    revert hthere
    decide +kernel
  · refine ⟨⟨rfl, ?_⟩, ⟨[byte, "a.js"], by decide +kernel⟩, ?_⟩
    · decide +kernel
    · decide +kernel

end EditorLint
