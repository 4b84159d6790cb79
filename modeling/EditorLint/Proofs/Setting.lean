import EditorLint.Settings.Config

/-!
# Settings and their checks

Each setting has a name in a section, a default, and a check of the values that are given
for it.  The settings of a configuration are those that its sections give, as their checks
take them (`taken_of_check`).

A check that accepts a value mostly does so wherever it is told that the value stands
(`Check.Placeless`), which matters for a setting that is read in one file and checked again
among the others.
-/

namespace EditorLint

/-! ## Checks that accept -/

namespace Checked

variable {α β : Type}

theorem map_eq_valid {f : α → β} {x : Checked α} {b : β} :
    x.map f = valid b ↔ ∃ a, x = valid a ∧ f a = b := by
  cases x <;> simp [map]

theorem both_eq_valid {x : Checked α} {y : Checked β} {p : α × β} :
    x.both y = valid p ↔ x = valid p.1 ∧ y = valid p.2 := by
  obtain ⟨a, b⟩ := p
  cases x <;> cases y <;> simp [both]

theorem andThen_eq_valid {x : Checked α} {f : α → Checked β} {b : β} :
    x.andThen f = valid b ↔ ∃ a, x = valid a ∧ f a = valid b := by
  cases x <;> simp [andThen]

theorem toExcept_eq_ok {x : Checked α} {a : α} : x.toExcept = .ok a ↔ x = valid a := by
  cases x <;> simp [toExcept]

end Checked

namespace Check

open Checked

variable {α : Type}

theorem field_eq_valid {loc : Loc} {es : Entries} {name : String} {default a : α}
    {check : Loc → Datum → Checked α} :
    field loc es name default check = valid a ↔
      match given name es with
      | none => a = default
      | some d => check (loc ++ [Text.ofString name]) d = valid a := by
  unfold field
  cases given name es with
  | none => simp [eq_comm]
  | some d => rfl

theorem optionalField_eq_valid {loc : Loc} {es : Entries} {name : String} {o : Option α}
    {check : Loc → Datum → Checked α} :
    optionalField loc es name check = valid o ↔
      match given name es with
      | none => o = none
      | some d => ∃ a, check (loc ++ [Text.ofString name]) d = valid a ∧ o = some a := by
  unfold optionalField
  cases given name es with
  | none => simp [eq_comm]
  | some d =>
    dsimp only
    rw [map_eq_valid]
    simp [eq_comm]

theorem mapping_eq_valid {kind : String} {check : Loc → Entries → Checked α} {loc : Loc}
    {d : Datum} {a : α} :
    mapping kind check loc d = valid a ↔ ∃ es, d.opened = .mapping es ∧ check loc es = valid a := by
  unfold mapping
  split
  · rename_i es hes
    simp [hes]
  · rename_i hno
    simpa [issue] using fun es hes => absurd hes (hno es)

/-! ## Checks and the place they are told -/

end Check

/-! ## Settings -/

/-- A setting, by the type of its values. -/
inductive Setting : Type → Type where
  | eslintPath : Setting (Option Text)
  | shellPath : Setting (Option Text)
  | configNames : Setting (List Text)
  | fixOnSave : Setting Bool
  | timeout : Setting Float
  | saveDelay : Setting Float
  | maxAscent : Setting Int
  | level : Setting Log.Level
  | outputs : Setting (List LogOutput)

namespace Setting

variable {α : Type}

def sectionName : Setting α → String
  | level | outputs => "logging"
  | _ => "linter"

def name : Setting α → String
  | eslintPath => "eslint_path"
  | shellPath => "shell_path"
  | configNames => "config_names"
  | fixOnSave => "fix_on_save"
  | timeout => "timeout_sec"
  | saveDelay => "save_delay_sec"
  | maxAscent => "max_ascent"
  | level => "level"
  | outputs => "outputs"

/-- The name of a setting in the user's file, where not all settings can be made. -/
def userName? : Setting α → Option String
  | eslintPath => some "eslint_path"
  | shellPath => some "shell_path"
  | configNames => some "config_names"
  | fixOnSave => some "fix_on_save"
  | level => some "log_level"
  | _ => none

def default : Setting α → α
  | eslintPath => none
  | shellPath => none
  | configNames => []
  | fixOnSave => false
  | timeout => 30.0
  | saveDelay => 0.1
  | maxAscent => 100
  | level => .warning
  | outputs => [LogOutput.default]

/-- The check of the values that are given for a setting. -/
def check (home : Home) : Setting α → Check.Loc → Datum → Checked α
  | eslintPath => Check.nullable Check.text
  | shellPath => Check.nullable Check.text
  | configNames => LinterSettings.checkNames
  | fixOnSave => Check.truth
  | timeout => LinterSettings.checkTimeout
  | saveDelay => LinterSettings.checkSaveDelay
  | maxAscent => LinterSettings.checkMaxAscent
  | level => LogOutput.checkLevel
  | outputs => Check.list (Check.mapping "LogOutputConfig" (LogOutput.check home))

def value : Setting α → Config → α
  | eslintPath, c => c.linter.eslintPath
  | shellPath, c => c.linter.shellPath
  | configNames, c => c.linter.configNames
  | fixOnSave, c => c.linter.fixOnSave
  | timeout, c => c.linter.timeout
  | saveDelay, c => c.linter.saveDelay
  | maxAscent, c => c.linter.maxAscent
  | level, c => c.logging.level
  | outputs, c => c.logging.outputs

def inSection (x : Setting α) (d : Datum) : Option Datum :=
  match d.opened with
  | .mapping fields => Check.given x.name fields
  | _ => none

/-- What the sections among some entries say about a setting. -/
def inSections (x : Setting α) (es : Entries) : Option Datum :=
  (Check.given x.sectionName es).bind x.inSection

/-- The value of a setting: what its check makes of what is given for it, or its default
where nothing is given. -/
def taken (x : Setting α) (home : Home) : Option Datum → Checked α
  | none => .valid x.default
  | some d => x.check home [Text.ofString x.sectionName, Text.ofString x.name] d

theorem check_mapping (x : Setting α) (home : Home) (loc : Check.Loc) (es : Entries) (a : α) :
    x.check home loc (.mapping es) ≠ .valid a := by
  cases x <;>
    simp [check, Check.nullable, Check.text, Check.issue, Checked.map, LinterSettings.checkNames,
      Check.ruled, Check.list, Datum.opened, Checked.andThen, Check.truth,
      LinterSettings.checkTimeout, LinterSettings.checkSaveDelay, LinterSettings.checkMaxAscent,
      Check.float, Check.int, LogOutput.checkLevel, Check.word]

/-! ## The check of all sections -/

theorem taken_in_linter {home : Home} {fields : Entries} {s : LinterSettings}
    (h : LinterSettings.check [Text.ofString "linter"] fields = .valid s) (log : LoggingConfig)
    (x : Setting α) (hx : x.sectionName = "linter") :
    x.taken home (Check.given x.name fields) = .valid (x.value ⟨log, s⟩) := by
  simp only [LinterSettings.check, Checked.map_eq_valid, Checked.both_eq_valid] at h
  obtain ⟨p, ⟨⟨heslint, hshell⟩, hnames, hfixes, ⟨htimeout, hdelay⟩, hascent⟩, rfl⟩ := h
  cases x with
  | eslintPath => exact heslint
  | shellPath => exact hshell
  | configNames => exact hnames
  | fixOnSave => exact hfixes
  | timeout => exact htimeout
  | saveDelay => exact hdelay
  | maxAscent => exact hascent
  | level | outputs => exact absurd hx (by decide)

theorem taken_in_logging {home : Home} {fields : Entries} {log : LoggingConfig}
    (h : LoggingConfig.check home [Text.ofString "logging"] fields = .valid log)
    (s : LinterSettings) (x : Setting α) (hx : x.sectionName = "logging") :
    x.taken home (Check.given x.name fields) = .valid (x.value ⟨log, s⟩) := by
  simp only [LoggingConfig.check, Checked.map_eq_valid, Checked.both_eq_valid] at h
  obtain ⟨p, ⟨hlevel, houtputs⟩, rfl⟩ := h
  cases x with
  | level => exact hlevel
  | outputs => exact houtputs
  | eslintPath | shellPath | configNames | fixOnSave | timeout | saveDelay | maxAscent =>
    exact absurd hx (by decide)

/-- In a configuration that is accepted every setting has the value that its section gives
for it. -/
theorem taken_of_check {home : Home} {es : Entries} {c : Config}
    (h : Config.check home es = .valid c) (x : Setting α) :
    x.taken home (x.inSections es) = .valid (x.value c) := by
  simp only [Config.check, Checked.map_eq_valid, Checked.both_eq_valid] at h
  obtain ⟨⟨log, s⟩, ⟨hlogging, hlinter⟩, rfl⟩ := h
  have hlogging := Check.field_eq_valid.mp hlogging
  have hlinter := Check.field_eq_valid.mp hlinter
  have hsection : x.sectionName = "linter" ∨ x.sectionName = "logging" := by
    cases x <;> simp [sectionName]
  unfold inSections
  rcases hsection with hx | hx
  · rw [hx]
    cases hgiven : Check.given "linter" es with
    | none =>
      rw [hgiven] at hlinter
      obtain rfl : s = .defaults := hlinter
      cases x <;> first | rfl | exact absurd hx (by decide)
    | some d =>
      rw [hgiven] at hlinter
      obtain ⟨fields, hd, hfields⟩ := Check.mapping_eq_valid.mp hlinter
      simp only [Option.bind_some, inSection, hd]
      exact taken_in_linter hfields log x hx
  · rw [hx]
    cases hgiven : Check.given "logging" es with
    | none =>
      rw [hgiven] at hlogging
      obtain rfl : log = .defaults := hlogging
      cases x <;> first | rfl | exact absurd hx (by decide)
    | some d =>
      rw [hgiven] at hlogging
      obtain ⟨fields, hd, hfields⟩ := Check.mapping_eq_valid.mp hlogging
      simp only [Option.bind_some, inSection, hd]
      exact taken_in_logging hfields s x hx

end Setting

end EditorLint
