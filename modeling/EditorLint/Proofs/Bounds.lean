import EditorLint.Proofs.FloatOrder
import EditorLint.Proofs.Precedence

/-!
# The bounds of settings

The settings that are loaded keep their bounds (`Config.Bounded`), whichever source they come
from, with one exception: the rules about seconds are written against the values below the
bound, and what is not a number is not below it.  So a configuration that is loaded is bounded
exactly if its numbers are numbers (`load_bounded`).

A value out of bounds is never accepted.  It is among the findings of the check (`Finds`), of
which the first one is the fault that the loading ends with.
-/

namespace EditorLint

/-! ## What a check finds -/

namespace Checked

variable {α β : Type} {i : Issue}

/-- A check that has a finding, unless it is broken off. -/
def Finds (i : Issue) : Checked α → Prop
  | valid _ => False
  | invalid issues => i ∈ issues
  | broken _ => True

theorem Finds.map {x : Checked α} (h : x.Finds i) (f : α → β) : (x.map f).Finds i := by
  cases x <;> exact h

theorem Finds.left {x : Checked α} (h : x.Finds i) (y : Checked β) : (x.both y).Finds i := by
  cases x with
  | valid a => exact h.elim
  | broken f => trivial
  | invalid issues =>
    cases y with
    | valid b => exact h
    | broken f => trivial
    | invalid more => exact List.mem_append_left more h

theorem Finds.right {y : Checked β} (h : y.Finds i) (x : Checked α) : (x.both y).Finds i := by
  cases y with
  | valid b => exact h.elim
  | broken f => cases x <;> trivial
  | invalid issues =>
    cases x with
    | valid a => exact h
    | broken f => trivial
    | invalid more => exact List.mem_append_right more h

theorem Finds.all {xs : List (Checked α)} {x : Checked α} (hx : x ∈ xs) (h : x.Finds i) :
    (Checked.all xs).Finds i := by
  induction xs with
  | nil => cases hx
  | cons y rest ih =>
    rcases List.mem_cons.mp hx with rfl | hx
    · exact (h.left _).map _
    · exact ((ih hx).right _).map _

end Checked

namespace Check

open Checked

variable {α : Type} {i : Issue}

theorem finds_ruled {check : Loc → Datum → Checked α} {objection : α → Option Text} {loc : Loc}
    {d : Datum} {a : α} {message : Text} (h : check loc d = .valid a)
    (hrule : objection a = some message) :
    (ruled check objection loc d).Finds
      ⟨"value_error", loc, "Value error, " ++ message, d⟩ := by
  unfold ruled
  rw [h]
  simp only [andThen, hrule]
  exact List.mem_singleton_self _

theorem finds_field {loc : Loc} {es : Entries} {name : String} {default : α}
    {check : Loc → Datum → Checked α} {d : Datum} (hd : given name es = some d)
    (h : (check (loc ++ [Text.ofString name]) d).Finds i) :
    (field loc es name default check).Finds i := by
  unfold field
  rw [hd]
  exact h

theorem finds_mapping {kind : String} {check : Loc → Entries → Checked α} {loc : Loc} {d : Datum}
    {es : Entries} (hd : d.opened = .mapping es) (h : (check loc es).Finds i) :
    (mapping kind check loc d).Finds i := by
  unfold mapping
  rw [hd]
  exact h

theorem finds_list {check : Loc → Datum → Checked α} {loc : Loc} {d : Datum} {ds : List Datum}
    (hd : d.items? = some ds) {k : Nat} {e : Datum} (hk : ds[k]? = some e)
    (h : (check (loc ++ [Text.ofNat k]) e).Finds i) : (list check loc d).Finds i := by
  have hmem : (loc ++ [Text.ofNat k], e) ∈ (places loc ds.length).zip ds := by
    obtain ⟨hlt, -⟩ := List.getElem?_eq_some_iff.mp hk
    refine List.mem_iff_getElem?.mpr ⟨k, ?_⟩
    rw [List.getElem?_zip_eq_some]
    exact ⟨by simp [places, hlt], hk⟩
  have hall := Finds.all (List.mem_map_of_mem (f := fun x => check x.1 x.2) hmem) h
  unfold Datum.items? at hd
  unfold list
  cases hopened : d.opened <;> rw [hopened] at hd <;> cases hd <;> exact hall

/-! ## What a check accepts -/

theorem ruled_eq_valid {check : Loc → Datum → Checked α} {objection : α → Option Text} {loc : Loc}
    {d : Datum} {a : α} :
    ruled check objection loc d = .valid a ↔ check loc d = .valid a ∧ objection a = none := by
  unfold ruled
  rw [andThen_eq_valid]
  constructor
  · rintro ⟨b, hb, hrule⟩
    cases hobjection : objection b with
    | some message =>
      rw [hobjection] at hrule
      cases hrule
    | none =>
      rw [hobjection] at hrule
      cases hrule
      exact ⟨hb, hobjection⟩
  · rintro ⟨ha, hrule⟩
    exact ⟨a, ha, by rw [hrule]⟩

theorem of_list_eq_valid {check : Loc → Datum → Checked α} {loc : Loc} {d : Datum} {as : List α}
    (h : list check loc d = .valid as) {a : α} (ha : a ∈ as) : ∃ l e, check l e = .valid a := by
  have hall (xs : List (Loc × Datum)) (as : List α)
      (h : Checked.all (xs.map fun x => check x.1 x.2) = .valid as) (ha : a ∈ as) :
      ∃ l e, check l e = .valid a := by
    induction xs generalizing as with
    | nil =>
      cases h
      cases ha
    | cons x rest ih =>
      obtain ⟨p, hp, rfl⟩ := map_eq_valid.mp h
      obtain ⟨hfirst, hrest⟩ := both_eq_valid.mp hp
      rcases List.mem_cons.mp ha with rfl | ha
      · exact ⟨_, _, hfirst⟩
      · exact ih _ hrest ha
  unfold list at h
  dsimp only at h
  split at h
  · exact hall _ as h ha
  · exact hall _ as h ha
  · exact hall _ as h ha
  · cases h

end Check

/-! ## Bounds -/

namespace LinterSettings

/-- The bare name of a file: something, without slashes of either kind. -/
structure IsBare (name : Text) : Prop where
  filled : name ≠ []
  slash : .scalar '/' ∉ name
  backslash : .scalar '\\' ∉ name

theorem eq_of_isChar {c : Code} {d : Char} (h : c.isChar d = true) : c = .scalar d := by
  cases c with
  | scalar e => exact congrArg Code.scalar (eq_of_beq h)
  | surrogate => cases h

theorem isBareName_iff (name : Text) : isBareName name = true ↔ IsBare name := by
  have hany : name.any (fun c => c.isChar '/' || c.isChar '\\') = false ↔
      .scalar '/' ∉ name ∧ .scalar '\\' ∉ name := by
    rw [List.any_eq_false]
    constructor
    · intro h
      exact ⟨fun hmem => h _ hmem rfl, fun hmem => h _ hmem rfl⟩
    · rintro ⟨hslash, hbackslash⟩ c hc hbad
      rcases (Bool.or_eq_true _ _).mp hbad with h | h
      · exact hslash (eq_of_isChar h ▸ hc)
      · exact hbackslash (eq_of_isChar h ▸ hc)
  unfold isBareName
  rw [Bool.and_eq_true, Bool.not_eq_true', Bool.not_eq_true', hany]
  constructor
  · rintro ⟨hfilled, hslash, hbackslash⟩
    exact ⟨by simpa using hfilled, hslash, hbackslash⟩
  · rintro ⟨hfilled, hslash, hbackslash⟩
    exact ⟨by simpa using hfilled, hslash, hbackslash⟩

end LinterSettings

namespace Config

/-- The bounds of the settings of a configuration, which may have to be one that a linter can
run with. -/
structure Bounded (requireLinter : Bool) (c : Config) : Prop where
  timeout : 0 < c.linter.timeout
  saveDelay : 0 ≤ c.linter.saveDelay
  maxAscent : 0 ≤ c.linter.maxAscent
  names : ∀ name ∈ c.linter.configNames, LinterSettings.IsBare name
  destinations : ∀ o ∈ c.logging.outputs, ∀ p, o.destination = .file p → p.isAbsolute = true
  linter : requireLinter = true →
    c.linter.eslintPath.getD [] ≠ [] ∧ c.linter.shellPath.getD [] ≠ []

/-- The values of settings that are out of bounds, and where they stand. -/
inductive OutOfBounds (home : Home) (es : Entries) : List Text → Datum → Prop where
  | timeout {d : Datum} {x : Float} (set : Setting.timeout.inSections es = some d)
    (read : Check.float ["linter", "timeout_sec"] d = .valid x) (low : x ≤ 0) :
    OutOfBounds home es ["linter", "timeout_sec"] d
  | saveDelay {d : Datum} {x : Float} (set : Setting.saveDelay.inSections es = some d)
    (read : Check.float ["linter", "save_delay_sec"] d = .valid x) (low : x < 0) :
    OutOfBounds home es ["linter", "save_delay_sec"] d
  | maxAscent {d : Datum} {n : Int} (set : Setting.maxAscent.inSections es = some d)
    (read : Check.int ["linter", "max_ascent"] d = .valid n) (low : n < 0) :
    OutOfBounds home es ["linter", "max_ascent"] d
  | configName {d : Datum} {names : List Text} {name : Text}
    (set : Setting.configNames.inSections es = some d)
    (read : Check.list Check.text ["linter", "config_names"] d = .valid names)
    (named : name ∈ names) (broken : ¬LinterSettings.IsBare name) :
    OutOfBounds home es ["linter", "config_names"] d
  | destination {outputs : Datum} {os : List Datum} {k : Nat} {o d : Datum} {output : Entries}
    {t : Text} {p : Path} (set : Setting.outputs.inSections es = some outputs)
    (items : outputs.items? = some os) (item : os[k]? = some o)
    (opened : o.opened = .mapping output)
    (given : Check.given "destination" output = some d) (read : d.written? = some t)
    (stderr : t ≠ "stderr") (stdout : t ≠ "stdout")
    (expanded : home.expand (Path.ofText t) = .ok p) (relative : p.isAbsolute = false) :
    OutOfBounds home es ["logging", "outputs", Text.ofNat k, "destination"] d

/-! ## What is out of bounds is found -/

open Checked

variable {home : Home} {α : Type} {i : Issue}

theorem finds_in_linter {fields : Entries} (x : Setting α) (hx : x.sectionName = "linter")
    {d : Datum} (set : Check.given x.name fields = some d)
    (h : (x.check home [Text.ofString "linter", Text.ofString x.name] d).Finds i) :
    (LinterSettings.check [Text.ofString "linter"] fields).Finds i := by
  unfold LinterSettings.check
  apply Finds.map
  cases x with
  | eslintPath => exact ((Check.finds_field set h).left _).left _
  | shellPath => exact ((Check.finds_field set h).right _).left _
  | configNames => exact ((Check.finds_field set h).left _).right _
  | fixOnSave => exact (((Check.finds_field set h).left _).right _).right _
  | timeout => exact (((((Check.finds_field set h).left _).left _).right _).right _).right _
  | saveDelay => exact (((((Check.finds_field set h).right _).left _).right _).right _).right _
  | maxAscent => exact ((((Check.finds_field set h).right _).right _).right _).right _
  | level | outputs => exact absurd hx (by decide)

theorem finds_in_logging {fields : Entries} (x : Setting α) (hx : x.sectionName = "logging")
    {d : Datum} (set : Check.given x.name fields = some d)
    (h : (x.check home [Text.ofString "logging", Text.ofString x.name] d).Finds i) :
    (LoggingConfig.check home [Text.ofString "logging"] fields).Finds i := by
  unfold LoggingConfig.check
  apply Finds.map
  cases x with
  | level => exact (Check.finds_field set h).left _
  | outputs => exact (Check.finds_field set h).right _
  | eslintPath | shellPath | configNames | fixOnSave | timeout | saveDelay | maxAscent =>
    exact absurd hx (by decide)

/-- What is found in a setting is found in its section, and so among all sections. -/
theorem finds_check {es : Entries} (x : Setting α) {d : Datum} (set : x.inSections es = some d)
    (h : (x.check home [Text.ofString x.sectionName, Text.ofString x.name] d).Finds i) :
    (check home es).Finds i := by
  obtain ⟨given, hgiven, hset⟩ := Option.bind_eq_some_iff.mp set
  unfold Setting.inSection at hset
  split at hset
  · rename_i fields hfields
    have hsection : x.sectionName = "linter" ∨ x.sectionName = "logging" := by
      cases x <;> simp [Setting.sectionName]
    unfold check
    apply Finds.map
    rcases hsection with hx | hx
    · rw [hx] at hgiven h
      refine Finds.right (Check.finds_field hgiven ?_) _
      exact Check.finds_mapping hfields (finds_in_linter x hx hset h)
    · rw [hx] at hgiven h
      refine Finds.left (Check.finds_field hgiven ?_) _
      exact Check.finds_mapping hfields (finds_in_logging x hx hset h)
  · cases hset

theorem finds_destination {loc : Check.Loc} {d : Datum} {t : Text} {p : Path}
    (read : d.written? = some t) (stderr : t ≠ "stderr") (stdout : t ≠ "stdout")
    (expanded : home.expand (Path.ofText t) = .ok p) (relative : p.isAbsolute = false) :
    (LogOutput.checkDestination home loc d).Finds
      ⟨"value_error", loc, "Value error, " ++ ("File destination must be absolute path: " ++ t),
        d⟩ := by
  have hstderr : t.isString "stderr" = false := beq_eq_false_iff_ne.mpr stderr
  have hstdout : t.isString "stdout" = false := beq_eq_false_iff_ne.mpr stdout
  unfold LogOutput.checkDestination
  rw [(Check.text_valid_iff loc d t).mpr read]
  simp only [andThen, hstderr, hstdout, expanded, relative, Bool.false_eq_true, if_false]
  exact List.mem_singleton_self _

theorem OutOfBounds.finds {es : Entries} {loc : List Text} {d : Datum}
    (h : OutOfBounds home es loc d) :
    ∃ i, i.loc = loc ∧ i.input = d ∧ (check home es).Finds i := by
  cases h with
  | timeout set read low =>
    exact ⟨_, rfl, rfl, finds_check .timeout set (Check.finds_ruled read (if_pos low))⟩
  | saveDelay set read low =>
    exact ⟨_, rfl, rfl, finds_check .saveDelay set (Check.finds_ruled read (if_pos low))⟩
  | maxAscent set read low =>
    exact ⟨_, rfl, rfl, finds_check .maxAscent set (Check.finds_ruled read (if_pos low))⟩
  | @configName d names name set read named broken =>
    -- The first name that is not bare is found, be it this one or one before it.
    have hsome : (names.find? (!LinterSettings.isBareName ·)).isSome = true := by
      rw [List.find?_isSome]
      refine ⟨name, named, ?_⟩
      rw [Bool.not_eq_true', Bool.eq_false_iff]
      exact mt (LinterSettings.isBareName_iff name).mp broken
    obtain ⟨first, hfirst⟩ := Option.isSome_iff_exists.mp hsome
    have hrule := congrArg
      (Option.map ("Config name must be a bare filename: " ++ Literal.quote ·)) hfirst
    exact ⟨_, rfl, rfl, finds_check .configNames set (Check.finds_ruled read hrule)⟩
  | @destination outputs os k o d output t p set items item opened given read stderr stdout
      expanded relative =>
    let loc := [Text.ofString "logging", Text.ofString "outputs", Text.ofNat k]
    have houtput : (LogOutput.check home loc output).Finds
        ⟨"value_error", loc ++ [Text.ofString "destination"],
          "Value error, " ++ ("File destination must be absolute path: " ++ t), d⟩ := by
      unfold LogOutput.check
      apply Finds.map
      refine Finds.right (Finds.left (Check.finds_field given ?_) _) _
      exact finds_destination read stderr stdout expanded relative
    exact ⟨_, rfl, rfl, finds_check .outputs set
      (Check.finds_list items item (Check.finds_mapping opened houtput))⟩

/-! ## What is accepted is in bounds -/

/-- A setting has a property that its default has and that its check ensures. -/
theorem holds_of_check {es : Entries} {c : Config} (h : check home es = .valid c) (x : Setting α)
    {P : α → Prop} (hdefault : P x.default)
    (hcheck : ∀ loc d a, x.check home loc d = .valid a → P a) : P (x.value c) := by
  have htaken := Setting.taken_of_check h x
  cases hset : x.inSections es with
  | none =>
    rw [hset] at htaken
    exact valid.inj htaken ▸ hdefault
  | some d =>
    rw [hset] at htaken
    exact hcheck _ _ _ htaken

theorem not_of_ruled {check : Check.Loc → Datum → Checked α} (p : α → Prop) [DecidablePred p]
    (message : α → Text) {loc : Check.Loc} {d : Datum} {a : α}
    (h : Check.ruled check (fun a => if p a then some (message a) else none) loc d = .valid a) :
    ¬p a := by
  obtain ⟨-, hrule⟩ := Check.ruled_eq_valid.mp h
  intro hp
  rw [if_pos hp] at hrule
  cases hrule

theorem bare_of_checkNames {loc : Check.Loc} {d : Datum} {names : List Text}
    (h : LinterSettings.checkNames loc d = .valid names) :
    ∀ name ∈ names, LinterSettings.IsBare name := by
  intro name hname
  obtain ⟨-, hrule⟩ := Check.ruled_eq_valid.mp h
  rw [Option.map_eq_none_iff, List.find?_eq_none] at hrule
  exact (LinterSettings.isBareName_iff name).mp (by simpa using hrule name hname)

theorem absolute_of_checkDestination {loc : Check.Loc} {d : Datum} {p : Path}
    (h : LogOutput.checkDestination home loc d = .valid (.file p)) : p.isAbsolute = true := by
  obtain ⟨t, -, h⟩ := andThen_eq_valid.mp h
  split at h
  · cases h
  · split at h
    · cases h
    · split at h
      · cases h
      · cases h
      · split at h
        · rename_i q _ habsolute
          cases h
          exact habsolute
        · cases h

theorem isMade_iff (path : Option Text) : path.any (!·.isEmpty) = true ↔ path.getD [] ≠ [] := by
  cases path <;> simp

theorem missing?_eq (c : Config) :
    c.missing? = if c.linter.eslintPath.getD [] = [] then some "eslint_path"
      else if c.linter.shellPath.getD [] = [] then some "shell_path" else none := by
  have hnot (path : Option Text) : (!path.any (!·.isEmpty)) = true ↔ path.getD [] = [] := by
    rw [Bool.not_eq_true', Bool.eq_false_iff, Ne, isMade_iff, not_not]
  unfold missing?
  simp only [hnot]

theorem missing?_eq_none {c : Config} :
    c.missing? = none ↔ c.linter.eslintPath.getD [] ≠ [] ∧ c.linter.shellPath.getD [] ≠ [] := by
  rw [missing?_eq]
  split
  · simp [*]
  · split <;> simp [*]

variable {es : Entries} {c : Config} (h : check home es = .valid c)
include h

theorem timeout_of_check : 0 < c.linter.timeout ∨ c.linter.timeout.isNaN = true := by
  refine holds_of_check h .timeout (P := fun x => 0 < x ∨ x.isNaN = true) (.inl ?_) ?_
  · decide +kernel
  · intro loc d x hx
    have hzero : (0 : Float).isNaN = false := by decide +kernel
    rcases FloatOrder.not_le_iff.mp (not_of_ruled (· ≤ 0) _ hx) with hlt | hnan | hnan
    · exact .inl hlt
    · exact .inr hnan
    · rw [hzero] at hnan
      cases hnan

theorem saveDelay_of_check : 0 ≤ c.linter.saveDelay ∨ c.linter.saveDelay.isNaN = true := by
  refine holds_of_check h .saveDelay (P := fun x => 0 ≤ x ∨ x.isNaN = true) (.inl ?_) ?_
  · decide +kernel
  · intro loc d x hx
    have hzero : (0 : Float).isNaN = false := by decide +kernel
    rcases FloatOrder.not_lt_iff.mp (not_of_ruled (· < 0) _ hx) with hle | hnan | hnan
    · exact .inl hle
    · exact .inr hnan
    · rw [hzero] at hnan
      cases hnan

theorem maxAscent_of_check : 0 ≤ c.linter.maxAscent :=
  holds_of_check h .maxAscent (P := fun n => 0 ≤ n) (by decide) fun _ _ _ hn =>
    Int.not_lt.mp (not_of_ruled (· < 0) _ hn)

theorem bare_of_check : ∀ name ∈ c.linter.configNames, LinterSettings.IsBare name :=
  holds_of_check h .configNames
    (P := fun names => ∀ name ∈ names, LinterSettings.IsBare name) (List.forall_mem_nil _)
    fun _ _ _ => bare_of_checkNames

theorem absolute_of_check :
    ∀ o ∈ c.logging.outputs, ∀ p, o.destination = .file p → p.isAbsolute = true := by
  refine holds_of_check h .outputs
    (P := fun os => ∀ o ∈ os, ∀ p, o.destination = .file p → p.isAbsolute = true) ?_ ?_
  · intro o ho p hp
    rw [List.mem_singleton.mp ho] at hp
    cases hp
  · intro loc d os hos o ho p hp
    obtain ⟨l, e, he⟩ := Check.of_list_eq_valid hos ho
    obtain ⟨output, -, houtput⟩ := Check.mapping_eq_valid.mp he
    obtain ⟨⟨format, destination, level⟩, hfields, rfl⟩ := map_eq_valid.mp houtput
    obtain ⟨-, hfields⟩ := both_eq_valid.mp hfields
    obtain ⟨hdestination, -⟩ := both_eq_valid.mp hfields
    obtain rfl : destination = .file p := hp
    have hfield := Check.field_eq_valid.mp hdestination
    split at hfield
    · cases hfield
    · exact absolute_of_checkDestination hfield

/-- A configuration that is accepted is in bounds as far as its numbers are numbers. -/
theorem bounded_iff_of_check (requireLinter : Bool)
    (hmade : requireLinter = true → c.missing? = none) :
    c.Bounded requireLinter ↔
      c.linter.timeout.isNaN = false ∧ c.linter.saveDelay.isNaN = false := by
  constructor
  · intro hbounded
    exact ⟨FloatOrder.isNaN_of_lt hbounded.timeout, FloatOrder.isNaN_of_le hbounded.saveDelay⟩
  · rintro ⟨htimeout, hdelay⟩
    refine ⟨?_, ?_, maxAscent_of_check h, bare_of_check h, absolute_of_check h, fun hrequire => ?_⟩
    · exact (timeout_of_check h).resolve_right (Bool.eq_false_iff.mp htimeout)
    · exact (saveDelay_of_check h).resolve_right (Bool.eq_false_iff.mp hdelay)
    · exact missing?_eq_none.mp (hmade hrequire)

omit h

/-! ## Loading -/

theorem check_of_load {m : Machine} {workspace : Option Path} {requireLinter : Bool}
    {overrides : Entries} (hload : load m workspace requireLinter overrides = .ok c) :
    ∃ files environment, fileSections m (workspace.getD m.cwd) = .ok (.mapping files) ∧
      Environment.read m = .ok environment ∧
      check m.home (together files environment overrides) = .valid c ∧
      (requireLinter = true → c.missing? = none) := by
  obtain ⟨d, hfiles, hload⟩ := bind_eq_ok.mp hload
  obtain ⟨files, rfl⟩ := mapping_of_fileSections hfiles
  obtain ⟨c', hcombined, hload⟩ := bind_eq_ok.mp hload
  obtain ⟨environment, hread, hcheck⟩ := check_of_combined hcombined
  refine ⟨files, environment, hfiles, hread, ?_⟩
  dsimp only at hload
  split at hload
  · cases hmade : c'.missing? with
    | some name =>
      rw [hmade] at hload
      cases hload
    | none =>
      rw [hmade] at hload
      cases hload
      exact ⟨hcheck, fun _ => hmade⟩
  · rename_i hrequire
    cases hload
    exact ⟨hcheck, fun h => absurd h hrequire⟩

section Sources

variable {m : Machine} {workspace : Option Path} {requireLinter : Bool} {overrides : Entries}
  {files environment : Entries}
  (hfiles : fileSections m (workspace.getD m.cwd) = .ok (.mapping files))
include hfiles

/-- A configuration of the sources that a linter cannot run with is refused, if need be. -/
theorem load_of_missing (hrequire : requireLinter = true)
    (hcombined : combined m (.mapping files) overrides = .ok c) {name : String}
    (hmissing : c.missing? = some name) :
    load m workspace requireLinter overrides =
      .error (.fault (.configMissing ("linter." ++ name))) := by
  unfold load
  rw [hfiles]
  show (combined m (.mapping files) overrides >>= _) = _
  rw [hcombined]
  show (if requireLinter = true then _ else _) = _
  rw [if_pos hrequire, hmissing]
  rfl

theorem load_of_uncombined {f : Failure} (h : combined m (.mapping files) overrides = .error f) :
    load m workspace requireLinter overrides = .error f := by
  unfold load
  rw [hfiles]
  show (combined m (.mapping files) overrides >>= _) = _
  rw [h]
  rfl

variable (hread : Environment.read m = .ok environment) {loc : List Text} {d : Datum}
  (hout : OutOfBounds m.home (together files environment overrides) loc d)
include hread hout

omit hfiles hread in
/-- A value out of bounds is among the findings about all sources, unless the check is broken
off. -/
theorem finds_checkAll :
    ∃ i, i.loc = loc ∧ i.input = d ∧
      (checkAll m.home (together files environment overrides)).Finds i := by
  obtain ⟨i, hloc, hinput, hfinds⟩ := hout.finds
  refine ⟨i, hloc, hinput, ?_⟩
  unfold checkAll
  cases hcheck : check m.home (together files environment overrides) with
  | broken f => trivial
  | valid c =>
    rw [hcheck] at hfinds
    exact hfinds.elim
  | invalid issues =>
    rw [hcheck] at hfinds
    exact List.mem_append_left _ hfinds

theorem load_ne_ok (c : Config) : load m workspace requireLinter overrides ≠ .ok c := by
  intro hload
  obtain ⟨files', environment', hfiles', hread', hcheck, -⟩ := check_of_load hload
  obtain rfl : files = files' := by
    rw [hfiles] at hfiles'
    cases hfiles'
    rfl
  obtain rfl : environment = environment' := Except.ok.inj (hread.symm.trans hread')
  obtain ⟨i, -, -, hfinds⟩ := hout.finds
  rw [hcheck] at hfinds
  exact hfinds

theorem load_eq_first (hclosed : ¬Loophole m (workspace.getD m.cwd) overrides) :
    ∃ first rest, checkAll m.home (together files environment overrides) =
        .invalid (first :: rest) ∧
      (∃ i ∈ first :: rest, i.loc = loc ∧ i.input = d) ∧
      load m workspace requireLinter overrides =
        .error (.fault (.configValue (Text.join "." first.loc) first.input first.message)) := by
  obtain ⟨i, hloc, hinput, hfinds⟩ := finds_checkAll hout
  have hbreaks := breaksOff_checkAll m.home (together files environment overrides)
  cases hall : checkAll m.home (together files environment overrides) with
  | valid c =>
    rw [hall] at hfinds
    exact hfinds.elim
  | broken f =>
    rw [hall] at hbreaks
    exact absurd (.log files environment hfiles hread hbreaks.1) hclosed
  | invalid issues =>
    rw [hall] at hfinds
    cases issues with
    | nil => cases hfinds
    | cons first rest =>
      refine ⟨first, rest, rfl, ⟨i, hfinds, hloc, hinput⟩, ?_⟩
      -- What is out of bounds is not loaded, and with no loophole what is not loaded is a fault.
      have hfault : ∃ f, load m workspace requireLinter overrides = .error (.fault f) := by
        rcases (load_ok_or_fault_iff m workspace requireLinter overrides).mpr hclosed with
          ⟨c, hload⟩ | ⟨f, hload, -⟩
        · exact absurd hload (load_ne_ok hfiles hread hout c)
        · exact ⟨f, hload⟩
      obtain ⟨f, hload⟩ := hfault
      have hcombined := combined_eq files overrides hread
      rw [hall] at hcombined
      split at hcombined
      · have hrejected : load m workspace requireLinter overrides =
            .error (ConfigFile.rejection (.invalid (first :: rest))) :=
          load_of_uncombined hfiles hcombined
        unfold ConfigFile.rejection at hrejected
        split at hrejected
        · split at hrejected
          · cases hrejected.symm.trans hload
          · rename_i heq _
            cases heq
            exact hrejected
        · rename_i hno
          exact absurd rfl (hno first rest)
      · cases (load_of_uncombined hfiles hcombined).symm.trans hload

end Sources

/-- What is loaded is in bounds exactly if its seconds are numbers.  A value out of bounds, from
whichever source, is not accepted: where there is no loophole, the loading ends with the fault of
the first finding, and the value is among the findings.  A path that has to be made and is not is
named. -/
theorem load_bounded (m : Machine) (workspace : Option Path) (requireLinter : Bool)
    (overrides : Entries) :
    (∀ c, load m workspace requireLinter overrides = .ok c →
      (c.Bounded requireLinter ↔
        c.linter.timeout.isNaN = false ∧ c.linter.saveDelay.isNaN = false)) ∧
    ∀ files environment, fileSections m (workspace.getD m.cwd) = .ok (.mapping files) →
      Environment.read m = .ok environment →
      let es := together files environment overrides
      (∀ loc d, OutOfBounds m.home es loc d →
        (∀ c, load m workspace requireLinter overrides ≠ .ok c) ∧
        (¬Loophole m (workspace.getD m.cwd) overrides →
          ∃ first rest, checkAll m.home es = .invalid (first :: rest) ∧
            (∃ i ∈ first :: rest, i.loc = loc ∧ i.input = d) ∧
            load m workspace requireLinter overrides =
              .error (.fault (.configValue (Text.join "." first.loc) first.input first.message)))) ∧
      (∀ c, requireLinter = true → combined m (.mapping files) overrides = .ok c →
        (c.linter.eslintPath.getD [] = [] →
          load m workspace requireLinter overrides =
            .error (.fault (.configMissing "linter.eslint_path"))) ∧
        (c.linter.eslintPath.getD [] ≠ [] → c.linter.shellPath.getD [] = [] →
          load m workspace requireLinter overrides =
            .error (.fault (.configMissing "linter.shell_path")))) := by
  refine ⟨fun c hload => ?_, fun files environment hfiles hread => ⟨?_, ?_⟩⟩
  · obtain ⟨files, environment, -, -, hcheck, hmade⟩ := check_of_load hload
    exact bounded_iff_of_check hcheck requireLinter hmade
  · intro loc d hout
    exact ⟨load_ne_ok hfiles hread hout, load_eq_first hfiles hread hout⟩
  · intro c hrequire hcombined
    constructor
    · intro heslint
      have hmissing : c.missing? = some "eslint_path" := by
        rw [missing?_eq, if_pos heslint]
      exact load_of_missing hfiles hrequire hcombined hmissing
    · intro heslint hshell
      have hmissing : c.missing? = some "shell_path" := by
        rw [missing?_eq, if_neg heslint, if_pos hshell]
      exact load_of_missing hfiles hrequire hcombined hmissing

/-- The caller gives a time limit of zero over a good one of the environment. -/
theorem load_bounded_zero :
    let m : Machine := ⟨.empty, ⟨.slash, []⟩,
      [("HOME", "/h"), ("NANOLINT__LINTER__TIMEOUT_SEC", "5")], .alone "/root"⟩
    let overrides : Entries := [(.string "linter", .mapping [(.string "timeout_sec", .float 0)])]
    ∃ es first rest, checkAll m.home es = .invalid (first :: rest) ∧
      (∃ i ∈ first :: rest, i.loc = [("linter" : Text), "timeout_sec"] ∧ i.input = .float 0) ∧
      load m none false overrides =
        .error (.fault (.configValue (Text.join "." first.loc) first.input first.message)) := by
  intro m overrides
  have hcontained : ¬Escapes (load m none false overrides) := by decide +kernel
  have hclosed : ¬Loophole m m.cwd overrides :=
    mt (escapes_load m none false overrides).mpr hcontained
  have hread : Environment.read m =
      .ok [(.string "linter", .mapping [(.string "timeout_sec", .string "5")])] := by rfl
  have hnothing {path : Path} (h : m.probe path = .ok false) :
      ConfigFile.load m path = .ok (.mapping []) := by
    unfold ConfigFile.load
    rw [h]
    rfl
  have huser : ConfigFile.load m (userFile m.cwd) = .ok (.mapping []) :=
    hnothing (ok_of_toOption (by decide +kernel))
  have hexpand : m.home.expand globalFile = .ok (Path.ofString "/h/.config/nanolint/config.yaml") :=
    ok_of_toOption (by decide +kernel)
  have hglobal : ConfigFile.load m (Path.ofString "/h/.config/nanolint/config.yaml") =
      .ok (.mapping []) := hnothing (ok_of_toOption (by decide +kernel))
  have hfiles : fileSections m m.cwd = .ok (.mapping [(.string "linter", .mapping [])]) := by
    have hloaded : ConfigFile.loadUser m (userFile m.cwd) = .ok ⟨none, none, none, none, none⟩ :=
      bind_eq_ok.mpr ⟨_, huser, rfl⟩
    exact bind_eq_ok.mpr ⟨_, hloaded, bind_eq_ok.mpr ⟨_, hexpand, bind_eq_ok.mpr ⟨_, hglobal, rfl⟩⟩⟩
  have hout : OutOfBounds m.home (together [(.string "linter", .mapping [])]
      [(.string "linter", .mapping [(.string "timeout_sec", .string "5")])] overrides)
      ["linter", "timeout_sec"] (.float 0) :=
    .timeout rfl rfl (by decide +kernel)
  obtain ⟨-, hsources⟩ := load_bounded m none false overrides
  obtain ⟨hrefused, -⟩ := hsources _ _ hfiles hread
  obtain ⟨first, rest, hall, hfound, hload⟩ := (hrefused _ _ hout).2 hclosed
  exact ⟨_, first, rest, hall, hfound, hload⟩

/-- The global file gives a time limit that is not a number: it is loaded. -/
theorem load_nan_unbounded :
    let path : Place := ["home", ".config", "nanolint", "config.yaml"]
    let files : FileSystem := .ofNodes [([], .directory), (["home"], .directory),
      (["home", ".config"], .directory), (["home", ".config", "nanolint"], .directory),
      (path, .file (Utf8.encodeChars "linter:\n  timeout_sec: .nan\n".toList) false)]
    let m : Machine := ⟨files, ⟨.slash, []⟩, [("HOME", "/home")], .alone "/root"⟩
    ∃ c, load m none false [] = .ok c ∧ ¬c.Bounded false := by
  intro path files m
  have hvalue : (load m none false []).toOption.map (·.linter.timeout.isNaN) = some true := by
    decide +kernel
  obtain ⟨c, hload, hnan⟩ := exists_ok_of_toOption hvalue
  refine ⟨c, hload, fun hbounded => ?_⟩
  rw [FloatOrder.isNaN_of_lt hbounded.timeout] at hnan
  cases hnan

end Config

end EditorLint
