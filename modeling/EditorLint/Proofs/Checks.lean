import EditorLint.Settings.Config
import EditorLint.Settings.User

/-!
# What a check of settings ends with

A check ends with a setting or with findings, of which there is at least one, unless it is
broken off; and all that breaks a check off is a log that goes to a file below a home
directory that cannot be found (`breaksOff_check`).

`BreaksOff p` carries this through the combinators of checks, one lemma for each: `p` says
when the check is broken off.
-/

namespace EditorLint

namespace Checked

variable {α β : Type}

/-- A check that is broken off exactly if `p`, as a home directory cannot be found, and that
has findings otherwise, or a result. -/
def BreaksOff (p : Prop) : Checked α → Prop
  | valid _ => ¬p
  | invalid issues => issues ≠ [] ∧ ¬p
  | broken f => p ∧ f = .noHome

theorem BreaksOff.congr {p q : Prop} {x : Checked α} (h : x.BreaksOff p) (hpq : p ↔ q) :
    x.BreaksOff q := by
  rw [← propext hpq]
  exact h

theorem BreaksOff.map {p : Prop} {x : Checked α} (h : x.BreaksOff p) (f : α → β) :
    (x.map f).BreaksOff p := by
  cases x <;> exact h

theorem BreaksOff.both {p q : Prop} {x : Checked α} {y : Checked β} (hx : x.BreaksOff p)
    (hy : y.BreaksOff q) : (x.both y).BreaksOff (p ∨ q) := by
  cases x with
  | broken f => exact ⟨.inl hx.1, hx.2⟩
  | valid a =>
    cases y with
    | broken f => exact ⟨.inr hy.1, hy.2⟩
    | valid b => exact fun h => h.elim hx hy
    | invalid issues => exact ⟨hy.1, fun h => h.elim hx hy.2⟩
  | invalid issues =>
    cases y with
    | broken f => exact ⟨.inr hy.1, hy.2⟩
    | valid b => exact ⟨hx.1, fun h => h.elim hx.2 hy⟩
    | invalid more => exact ⟨by simp [hx.1], fun h => h.elim hx.2 hy.2⟩

theorem BreaksOff.andThen {p : Prop} {q : α → Prop} {x : Checked α} {f : α → Checked β}
    (hx : x.BreaksOff p) (hf : ∀ a, x = valid a → (f a).BreaksOff (q a)) :
    (x.andThen f).BreaksOff (p ∨ ∃ a, x = valid a ∧ q a) := by
  cases x with
  | broken f => exact ⟨.inl hx.1, hx.2⟩
  | invalid issues => exact ⟨hx.1, by simpa using hx.2⟩
  | valid a =>
    have hp : ¬p := hx
    exact (hf a rfl).congr (by simp [hp])

theorem BreaksOff.all {ι : Type} {p : ι → Prop} {check : ι → Checked α} (is : List ι)
    (h : ∀ i ∈ is, (check i).BreaksOff (p i)) :
    (Checked.all (is.map check)).BreaksOff (∃ i ∈ is, p i) := by
  induction is with
  | nil => simp [Checked.all, BreaksOff]
  | cons i rest ih =>
    have hi := h i List.mem_cons_self
    have hrest := ih fun j hj => h j (List.mem_cons_of_mem i hj)
    exact ((hi.both hrest).map _).congr (by simp)

end Checked

namespace Check

open Checked

variable {α : Type}

theorem breaksOff_issue (kind : String) (loc : Loc) (message : Text) (d : Datum) :
    (issue kind loc message d : Checked α).BreaksOff False :=
  ⟨by simp, id⟩

theorem breaksOff_ruled {check : Loc → Datum → Checked α} (objection : α → Option Text)
    (h : ∀ l d, (check l d).BreaksOff False) (loc : Loc) (d : Datum) :
    (ruled check objection loc d).BreaksOff False := by
  refine ((h loc d).andThen (q := fun _ => False) fun a _ => ?_).congr (by simp)
  cases objection a with
  | some message => exact breaksOff_issue _ loc _ d
  | none => exact id

theorem breaksOff_field {p : Datum → Prop} (loc : Loc) (es : Entries) (name : String)
    (default : α) {check : Loc → Datum → Checked α} (h : ∀ l d, (check l d).BreaksOff (p d)) :
    (field loc es name default check).BreaksOff (∃ d, given name es = some d ∧ p d) := by
  unfold field
  cases given name es with
  | none => simp [BreaksOff]
  | some d => exact (h _ d).congr (by simp)

theorem breaksOff_optionalField (loc : Loc) (es : Entries) (name : String)
    {check : Loc → Datum → Checked α} (h : ∀ l d, (check l d).BreaksOff False) :
    (optionalField loc es name check).BreaksOff False := by
  unfold optionalField
  cases given name es with
  | none => simp [BreaksOff]
  | some d => exact (h _ d).map some

/-! ## Texts, words and numbers -/

theorem breaksOff_text (loc : Loc) (d : Datum) : (text loc d).BreaksOff False := by
  unfold text
  repeat' split
  all_goals first
    | exact breaksOff_issue _ _ _ _
    | exact id

theorem breaksOff_nullable {check : Loc → Datum → Checked α}
    (h : ∀ l d, (check l d).BreaksOff False) (loc : Loc) (d : Datum) :
    (nullable check loc d).BreaksOff False := by
  unfold nullable
  split
  · exact id
  · exact (h loc _).map some

theorem breaksOff_word (options : List (String × α)) (loc : Loc) (d : Datum) :
    (word options loc d).BreaksOff False := by
  simp only [word]
  repeat' split
  all_goals first
    | exact breaksOff_issue _ _ _ _
    | exact id

theorem breaksOff_truth (loc : Loc) (d : Datum) : (truth loc d).BreaksOff False := by
  simp only [truth]
  repeat' split
  all_goals first
    | exact breaksOff_issue _ _ _ _
    | exact id

theorem breaksOff_float (loc : Loc) (d : Datum) : (float loc d).BreaksOff False := by
  simp only [float]
  repeat' split
  all_goals first
    | exact breaksOff_issue _ _ _ _
    | exact id

theorem breaksOff_int (loc : Loc) (d : Datum) : (int loc d).BreaksOff False := by
  simp only [int]
  repeat' split
  all_goals first
    | exact breaksOff_issue _ _ _ _
    | exact id

end Check

/-! ## Lists and sections -/

namespace Datum

/-- The items of a value that is checked as a list. -/
def items? (d : Datum) : Option (List Datum) :=
  match d.opened with
  | .list ds | .set ds => some ds
  | .pair a b => some [a, b]
  | _ => none

end Datum

namespace Check

open Checked

variable {α : Type}

theorem breaksOff_items {p : Datum → Prop} {check : Loc → Datum → Checked α}
    (h : ∀ l d, (check l d).BreaksOff (p d)) (loc : Loc) (ds : List Datum) :
    (Checked.all (((places loc ds.length).zip ds).map fun (l, d) => check l d)).BreaksOff
      (∃ x ∈ ds, p x) := by
  have hsnd : ((places loc ds.length).zip ds).map (·.2) = ds :=
    List.map_snd_zip (by simp [places])
  have hall := BreaksOff.all ((places loc ds.length).zip ds)
    (p := fun i => p i.2) fun i _ => h i.1 i.2
  refine hall.congr ?_
  constructor
  · rintro ⟨i, hi, hp⟩
    exact ⟨i.2, (List.of_mem_zip hi).2, hp⟩
  · rintro ⟨x, hx, hp⟩
    rw [← hsnd] at hx
    obtain ⟨i, hi, rfl⟩ := List.mem_map.mp hx
    exact ⟨i, hi, hp⟩

theorem breaksOff_list {p : Datum → Prop} {check : Loc → Datum → Checked α}
    (h : ∀ l d, (check l d).BreaksOff (p d)) (loc : Loc) (d : Datum) :
    (list check loc d).BreaksOff (∃ ds, d.items? = some ds ∧ ∃ x ∈ ds, p x) := by
  simp only [list, Datum.items?]
  cases d.opened with
  | list ds | set ds =>
    refine (breaksOff_items h loc ds).congr ?_
    simp
  | pair a b =>
    refine (breaksOff_items h loc [a, b]).congr ?_
    simp
  | _ =>
    refine (breaksOff_issue _ loc _ d).congr ?_
    simp

theorem breaksOff_texts (loc : Loc) (d : Datum) : (list text loc d).BreaksOff False :=
  (breaksOff_list breaksOff_text loc d).congr (by simp)

theorem breaksOff_mapping {p : Entries → Prop} (kind : String)
    {check : Loc → Entries → Checked α} (h : ∀ l es, (check l es).BreaksOff (p es)) (loc : Loc)
    (d : Datum) : (mapping kind check loc d).BreaksOff (∃ es, d.opened = .mapping es ∧ p es) := by
  unfold mapping
  split
  · rename_i es hes
    exact (h loc es).congr (by simp [hes])
  · rename_i hno
    exact (breaksOff_issue _ loc _ d).congr (by simpa using fun es he => absurd he (hno es))

end Check

/-! ## The settings -/

open Checked

theorem LogOutput.breaksOff_checkLevel (loc : Check.Loc) (d : Datum) :
    (checkLevel loc d).BreaksOff False :=
  Check.breaksOff_word _ loc d

theorem UserConfig.breaksOff_check (es : Entries) : (UserConfig.check es).BreaksOff False := by
  have eslint := Check.breaksOff_optionalField [] es "eslint_path"
    (Check.breaksOff_nullable Check.breaksOff_text)
  have shell := Check.breaksOff_optionalField [] es "shell_path"
    (Check.breaksOff_nullable Check.breaksOff_text)
  have names := Check.breaksOff_optionalField [] es "config_names" Check.breaksOff_texts
  have fixes := Check.breaksOff_optionalField [] es "fix_on_save" Check.breaksOff_truth
  have level := Check.breaksOff_optionalField [] es "log_level" LogOutput.breaksOff_checkLevel
  refine ((eslint.both (shell.both (names.both (fixes.both level)))).map _).congr ?_
  simp

namespace LinterSettings

theorem breaksOff_checkNames (loc : Check.Loc) (d : Datum) :
    (checkNames loc d).BreaksOff False :=
  Check.breaksOff_ruled _ Check.breaksOff_texts loc d

theorem breaksOff_checkTimeout (loc : Check.Loc) (d : Datum) :
    (checkTimeout loc d).BreaksOff False :=
  Check.breaksOff_ruled _ Check.breaksOff_float loc d

theorem breaksOff_checkSaveDelay (loc : Check.Loc) (d : Datum) :
    (checkSaveDelay loc d).BreaksOff False :=
  Check.breaksOff_ruled _ Check.breaksOff_float loc d

theorem breaksOff_checkMaxAscent (loc : Check.Loc) (d : Datum) :
    (checkMaxAscent loc d).BreaksOff False :=
  Check.breaksOff_ruled _ Check.breaksOff_int loc d

theorem breaksOff_check (loc : Check.Loc) (es : Entries) :
    (LinterSettings.check loc es).BreaksOff False := by
  have path (name : String) := Check.breaksOff_field loc es name none
    (Check.breaksOff_nullable Check.breaksOff_text)
  have names := Check.breaksOff_field loc es "config_names" [] breaksOff_checkNames
  have onSave := Check.breaksOff_field loc es "fix_on_save" false Check.breaksOff_truth
  have timeout := Check.breaksOff_field loc es "timeout_sec" defaults.timeout breaksOff_checkTimeout
  have delay :=
    Check.breaksOff_field loc es "save_delay_sec" defaults.saveDelay breaksOff_checkSaveDelay
  have ascent :=
    Check.breaksOff_field loc es "max_ascent" defaults.maxAscent breaksOff_checkMaxAscent
  have paths := (path "eslint_path").both (path "shell_path")
  refine ((paths.both (names.both (onSave.both ((timeout.both delay).both ascent)))).map _).congr ?_
  simp

end LinterSettings

/-! ## Logs below a home directory -/

/-- The text that a value is, or that its bytes encode. -/
def Datum.written? : Datum → Option Text
  | text t => some t
  | bytes bs => (Utf8.decode bs).toOption.map Text.ofChars
  | _ => none

theorem Check.text_valid_iff (loc : Loc) (d : Datum) (t : Text) :
    Check.text loc d = .valid t ↔ d.written? = some t := by
  cases d with
  | text s => simp [Check.text, Datum.written?]
  | bytes bs =>
    simp only [Check.text, Datum.written?]
    cases Utf8.decode bs <;> simp [Except.toOption, Check.issue]
  | _ => simp [Check.text, Datum.written?, Check.issue]

/-- Whether a value names a file below a home directory that cannot be found. -/
def Home.isMissingFor (home : Home) (d : Datum) : Prop :=
  ∃ t, d.written? = some t ∧ home.expand (Path.ofText t) = .error .noHome

/-- Whether the settings of the log have an output that goes to such a file. -/
def Home.isMissingInLog (home : Home) (es : Entries) : Prop :=
  ∃ outputs, Check.given "outputs" es = some outputs ∧ ∃ os, outputs.items? = some os ∧
    ∃ o ∈ os, ∃ output, o.opened = .mapping output ∧
      ∃ destination, Check.given "destination" output = some destination ∧
        home.isMissingFor destination

/-- Whether the section of the log has an output that goes to such a file. -/
def Home.isMissingIn (home : Home) (es : Entries) : Prop :=
  ∃ logging, Check.given "logging" es = some logging ∧ ∃ log, logging.opened = .mapping log ∧
    home.isMissingInLog log

namespace LogOutput

theorem breaksOff_checkDestination (home : Home) (loc : Check.Loc) (d : Datum) :
    (checkDestination home loc d).BreaksOff (home.isMissingFor d) := by
  refine ((Check.breaksOff_text loc d).andThen
    (q := fun t => home.expand (Path.ofText t) = .error .noHome) fun t _ => ?_).congr ?_
  · -- The names of the streams do not begin with a tilde, so nothing is looked up for them.
    have stream : ∀ name ∈ ["stderr", "stdout"], t.isString name = true →
        ¬home.expand (Path.ofText t) = .error .noHome := by
      intro name hname ht
      have ht : t = Text.ofString name := eq_of_beq ht
      subst ht
      simp only [List.mem_cons, List.not_mem_nil, or_false] at hname
      rcases hname with rfl | rfl
      · exact fun h => by cases h
      · exact fun h => by cases h
    split
    · exact stream "stderr" (by simp) ‹_›
    · split
      · exact stream "stdout" (by simp) ‹_›
      · split
        · rename_i hf
          exact ⟨hf, rfl⟩
        · rename_i f hother hf
          refine (Check.breaksOff_issue _ _ _ _).congr (iff_of_false id fun h => ?_)
          cases hf.symm.trans h
          exact hother rfl
        · rename_i p hp
          rw [hp]
          split
          · exact fun h => by cases h
          · exact (Check.breaksOff_issue _ _ _ _).congr (by simp)
  · simp [Check.text_valid_iff, Home.isMissingFor]

theorem breaksOff_check (home : Home) (loc : Check.Loc) (es : Entries) :
    (LogOutput.check home loc es).BreaksOff
      (∃ d, Check.given "destination" es = some d ∧ home.isMissingFor d) := by
  have format := Check.breaksOff_field loc es "format" LogFormat.console
    (Check.breaksOff_word [("json", LogFormat.json), ("console", LogFormat.console)])
  have destination := Check.breaksOff_field loc es "destination" (Destination.console .stderr)
    (breaksOff_checkDestination home)
  have level := Check.breaksOff_field loc es "level" none
    (Check.breaksOff_nullable breaksOff_checkLevel)
  refine ((format.both (destination.both level)).map _).congr ?_
  simp

end LogOutput

theorem LoggingConfig.breaksOff_check (home : Home) (loc : Check.Loc) (es : Entries) :
    (LoggingConfig.check home loc es).BreaksOff (home.isMissingInLog es) := by
  have level := Check.breaksOff_field loc es "level" Log.Level.warning LogOutput.breaksOff_checkLevel
  have outputs := Check.breaksOff_field loc es "outputs" [LogOutput.default]
    (Check.breaksOff_list (Check.breaksOff_mapping "LogOutputConfig" (LogOutput.breaksOff_check home)))
  refine ((level.both outputs).map _).congr ?_
  simp [Home.isMissingInLog]

/-- The check of a configuration is broken off by nothing but a home directory that cannot
be found. -/
theorem Config.breaksOff_check (home : Home) (es : Entries) :
    (Config.check home es).BreaksOff (home.isMissingIn es) := by
  have logging := Check.breaksOff_field [] es "logging" LoggingConfig.defaults
    (Check.breaksOff_mapping "LoggingConfig" (LoggingConfig.breaksOff_check home))
  have linter := Check.breaksOff_field [] es "linter" LinterSettings.defaults
    (Check.breaksOff_mapping "LinterSettings" LinterSettings.breaksOff_check)
  refine ((logging.both linter).map _).congr ?_
  simp [Home.isMissingIn]

end EditorLint
