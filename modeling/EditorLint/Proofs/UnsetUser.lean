import EditorLint.Proofs.OverlayLaws
import EditorLint.Proofs.Precedence

/-!
# A user's file that sets nothing

The settings of the user's file are laid over the global file, and there is always a section of
the linter among them, also when no setting is made.  So the section that the global file has
for the linter lies below an empty one.  That changes nothing if it is a mapping, or if there is
none, as an empty section has all the defaults.  But a value that is no mapping is replaced, and
if neither the environment nor the caller says anything about the linter, the check does not see
it (`Hidden`).

Nothing else is changed by a user's file that sets nothing (`load_unset_user`): apart from that
case, the configuration or the failure is the one of the global mapping, the environment and the
caller alone; and in that case, it is the one that they give without the section.

What a configuration depends on is said first: the entries outside of the sections, in their
order, and the checks of the two sections.
-/

namespace EditorLint

namespace Config

open ConfigFile

/-! ## Entries outside of the sections -/

/-- Whether a key is the name of a section. -/
def isSection (key : Datum) : Bool := sectionNames.any fun name => key.sameKey (.string name)

def outside (es : Entries) : Entries := es.filter fun x => !isSection x.1

section Outside

variable {k key : Datum} {es es' : Entries}

theorem isSection_iff : isSection key = true ↔ ∃ name ∈ sectionNames, key = .string name := by
  unfold isSection
  rw [List.any_eq_true]
  exact exists_congr fun name => and_congr_right fun _ => Datum.sameKey_text

theorem isSection_congr (h : k.sameKey key = true) : isSection k = isSection key := by
  rw [Bool.eq_iff_iff, isSection_iff, isSection_iff]
  constructor
  · rintro ⟨name, hname, rfl⟩
    exact ⟨name, hname, Datum.text_sameKey.mp h⟩
  · rintro ⟨name, hname, rfl⟩
    exact ⟨name, hname, Datum.sameKey_text.mp h⟩

theorem get?_outside (h : isSection key = false) (es : Entries) :
    Entries.get? key (outside es) = Entries.get? key es := by
  induction es with
  | nil => rfl
  | cons x rest ih =>
    obtain ⟨k, v⟩ := x
    unfold outside at ih ⊢
    cases hk : isSection k with
    | false => simp only [List.filter_cons, hk, Bool.not_false, if_true, Entries.get?, ih]
    | true =>
      have hother : ¬k.sameKey key = true := fun hsame => by
        rw [isSection_congr hsame, h] at hk
        cases hk
      simp only [List.filter_cons, hk, Bool.not_true, Bool.false_eq_true, if_false, Entries.get?,
        hother, ih]

theorem outside_insert (key value : Datum) (es : Entries) :
    outside (Entries.insert key value es) =
      if isSection key then outside es else Entries.insert key value (outside es) := by
  induction es with
  | nil => cases hkey : isSection key <;> simp [outside, Entries.insert, hkey]
  | cons x rest ih =>
    obtain ⟨k, v⟩ := x
    unfold outside at ih ⊢
    by_cases hsame : k.sameKey key = true
    · have hk := isSection_congr hsame
      cases hkey : isSection key <;> simp [Entries.insert, hsame, hk, hkey]
    · cases hkey : isSection key <;> cases hk : isSection k <;>
        simp_all [Entries.insert]

/-- What stands outside of the sections is laid over what stands there, and over nothing else. -/
theorem outside_overlay (h : outside es = outside es') (upper : Entries) :
    outside (Entries.overlay es upper) = outside (Entries.overlay es' upper) := by
  induction upper generalizing es es' with
  | nil => exact h
  | cons x rest ih =>
    obtain ⟨key, value⟩ := x
    rw [Entries.overlay, Entries.overlay]
    refine ih ?_
    rw [outside_insert, outside_insert, h]
    cases hkey : isSection key with
    | true => rfl
    | false => rw [← get?_outside hkey es, h, get?_outside hkey es']

end Outside

/-! ## What a configuration depends on -/

/-- The configuration that the sections of the files, the environment and the caller give, with
the settings that are required. -/
def built (m : Machine) (files : Datum) (requireLinter : Bool) (overrides : Entries) :
    Except Failure Config := do
  let config ← combined m files overrides
  if requireLinter then
    if let some name := config.missing? then throw (.fault (.configMissing ("linter." ++ name)))
  return config

theorem load_eq_built {m : Machine} {workspace : Option Path} {files : Datum}
    (h : fileSections m (workspace.getD m.cwd) = .ok files) (requireLinter : Bool)
    (overrides : Entries) :
    load m workspace requireLinter overrides = built m files requireLinter overrides := by
  unfold load
  rw [h]
  rfl

theorem combined_of_built {m : Machine} {files : Datum} {requireLinter : Bool}
    {overrides : Entries} {c : Config} (h : built m files requireLinter overrides = .ok c) :
    combined m files overrides = .ok c := by
  obtain ⟨c', hcombined, h⟩ := bind_eq_ok.mp h
  dsimp only at h
  split at h
  · split at h
    · cases h
    · cases h
      exact hcombined
  · cases h
    exact hcombined

/-- The check of the section of the log among entries. -/
def loggingIn (home : Home) (es : Entries) : Checked LoggingConfig :=
  Check.field [] es "logging" LoggingConfig.defaults (checkLogging home)

/-- The check of the section of the linter among entries. -/
def linterIn (es : Entries) : Checked LinterSettings :=
  Check.field [] es "linter" LinterSettings.defaults checkLinter

theorem checkAll_congr {home : Home} {es es' : Entries} (hout : outside es = outside es')
    (hlogging : loggingIn home es = loggingIn home es') (hlinter : linterIn es = linterIn es') :
    checkAll home es = checkAll home es' := by
  have hstrangers : strangers es = strangers es' := by
    show (outside es).map _ = (outside es').map _
    rw [hout]
  have hcheck : check home es = check home es' := by
    show ((loggingIn home es).both (linterIn es)).map _ =
      ((loggingIn home es').both (linterIn es')).map _
    rw [hlogging, hlinter]
  unfold checkAll
  rw [hcheck, hstrangers]

/-- Two mappings of the files give the same if their sections pass the checks with the same
result and everything else is the same. -/
theorem built_congr {m : Machine} {es es' overrides : Entries}
    (hkeys : hasTextKeys es = hasTextKeys es') (hout : outside es = outside es')
    (hlogging : ∀ environment, Environment.read m = .ok environment →
      loggingIn m.home (together es environment overrides) =
        loggingIn m.home (together es' environment overrides))
    (hlinter : ∀ environment, Environment.read m = .ok environment →
      linterIn (together es environment overrides) =
        linterIn (together es' environment overrides)) (requireLinter : Bool) :
    built m (.mapping es) requireLinter overrides =
      built m (.mapping es') requireLinter overrides := by
  have hcombined : combined m (.mapping es) overrides = combined m (.mapping es') overrides := by
    cases hread : Environment.read m with
    | error f =>
      unfold combined
      rw [hread]
      rfl
    | ok environment =>
      have hall : checkAll m.home (together es environment overrides) =
          checkAll m.home (together es' environment overrides) :=
        checkAll_congr (outside_overlay hout _) (hlogging _ hread) (hlinter _ hread)
      have htexts : hasTextKeys (together es environment overrides) =
          hasTextKeys (together es' environment overrides) := by
        unfold together
        rw [hasTextKeys_overlay, hkeys, ← hasTextKeys_overlay]
      rw [combined_eq es overrides hread, combined_eq es' overrides hread, hall, htexts]
  unfold built
  rw [hcombined]

end Config

/-! ## What the variables and the caller say about the linter -/

namespace Json

theorem opened_value {depth : Nat} {s rest : List Char} {d : Datum}
    (h : value depth s = .ok (d, rest)) : d.opened = d := by
  have hword {found : Datum × List Char} (h : word? s = some found) :
      found.1.opened = found.1 := by
    obtain ⟨⟨w, d⟩, hw, rfl⟩ := Option.map_eq_some_iff.mp h
    have hall : ∀ x ∈ words, x.2.opened = x.2 := by simp [words, Datum.opened]
    exact hall _ (List.mem_of_find?_eq_some hw)
  have hnumber {negative : Bool} {start digits : List Char}
      (h : number negative start digits = .ok (d, rest)) : d.opened = d := by
    unfold number at h
    split at h
    · cases h
    · dsimp only at h
      split at h
      · split at h
        · cases h
        · cases h
          rfl
      · cases h
        rfl
  have hread {α : Type} {x : Except Fault α} {f : α → Datum × List Char}
      (hf : ∀ a, (f a).1.opened = (f a).1) (h : x.map f = .ok (d, rest)) : d.opened = d := by
    cases x with
    | error e => cases h
    | ok a =>
      have ha := hf a
      rwa [Except.ok.inj h] at ha
  -- Only words and numbers are of interest: a text, a list and a mapping are what they are.
  unfold value at h
  split at h
  · cases h
  · cases h
  · exact hread (fun _ => rfl) h
  · exact hread (fun _ => rfl) h
  · exact hread (fun _ => rfl) h
  · split at h
    · rename_i found hfound
      cases h
      exact hword hfound
    · split at h
      · exact hnumber h
      · exact hnumber h

theorem opened_read {s : List Char} {d : Datum} (h : read s = .ok d) : d.opened = d := by
  unfold read at h
  split at h
  · cases h
  · obtain ⟨x, hx, h⟩ := bind_eq_ok.mp h
    dsimp only at h
    split at h
    · cases h
      exact opened_value hx
    · cases h

end Json

namespace Environment

theorem opened_sectionValue {s : Section} {table : List (Text × Text)} {d : Datum}
    (h : sectionValue s table = .ok (some d)) : d.opened = d := by
  simp only [sectionValue] at h
  split at h
  · obtain ⟨es, -, h⟩ := bind_eq_ok.mp h
    split at h <;> cases h
    rfl
  · obtain ⟨d', hvalue, h⟩ := bind_eq_ok.mp h
    split at h
    · cases h
    · obtain ⟨es, -, h⟩ := bind_eq_ok.mp h
      cases h
      rfl
    · cases h
      exact Json.opened_read ((jsonValue_ok_iff _ _ _).mp hvalue)

theorem distinct_opened {m : Machine} {es : Entries} (h : read m = .ok es) {name : String}
    {d : Datum} (hd : Check.given name es = some d) {fields : Entries}
    (hfields : d.opened = .mapping fields) : fields.Distinct := by
  obtain ⟨x, hx, rfl⟩ := Entries.mem_of_get? hd
  obtain ⟨s, -, hs⟩ := given_of_mem_filterMapM h hx
  have hvalue := (entry_eq_some hs).2
  rw [← opened_sectionValue hvalue, hfields] at hvalue
  exact distinct_sectionValue hvalue

end Environment

/-! ## What lies below an empty section -/

namespace Entries

variable {below : Option Datum} {old : Entries}

theorem cover_opened (h : below.map Datum.opened = some (.mapping old)) (es : Entries) :
    cover below (.mapping es) = .mapping (overlay old es) := by
  unfold cover
  rw [h]

theorem cover_apart (h : ∀ old, below.map Datum.opened ≠ some (.mapping old)) (es : Entries) :
    cover below (.mapping es) = .mapping es := by
  unfold cover
  split
  · rename_i old hold
    exact absurd hold (h old)
  · rfl

end Entries

theorem LinterSettings.check_congr {es es' : Entries}
    (h : ∀ name, Check.given name es = Check.given name es') (loc : Check.Loc) :
    check loc es = check loc es' := by
  unfold check Check.field
  simp only [h]

namespace Config

open ConfigFile

/-- Entries with the section of the linter taken out. -/
def withoutLinter (es : Entries) : Entries := es.filter fun x => !x.1.sameKey (.string "linter")

/-- Whether the section of the linter is there and no mapping. -/
def LinterWrong (es : Entries) : Prop :=
  ∃ d, Check.given "linter" es = some d ∧ ∀ fields, d.opened ≠ .mapping fields

section Unset

variable {es upper : Entries}

/-- Laid over entries, the sections of a user who sets nothing are an empty one of the linter. -/
theorem given_unset (es : Entries) (name : String) :
    Check.given name (Entries.overlay es UserConfig.empty.sections) =
      if name = "linter" then some (Entries.cover (Check.given "linter" es) (.mapping []))
      else Check.given name es := by
  show Entries.get? (.string name) (Entries.insert (.string "linter")
    (Entries.cover (Check.given "linter" es) (.mapping [])) es) = _
  rw [Datum.string, Entries.get?_insert, ← Datum.string, Datum.string_sameKey]
  simp only [decide_eq_true_eq, eq_comm (a := "linter")]
  rfl

theorem given_withoutLinter (es : Entries) (name : String) :
    Check.given name (withoutLinter es) = if name = "linter" then none else Check.given name es := by
  unfold withoutLinter Check.given
  induction es with
  | nil => simp [Entries.get?]
  | cons x rest ih =>
    obtain ⟨k, v⟩ := x
    by_cases hk : k.sameKey (.string "linter") = true
    · obtain rfl : k = .string "linter" := Datum.sameKey_text.mp hk
      rw [List.filter_cons_of_neg (by simp [hk]), ih]
      by_cases hname : name = "linter"
      · rw [if_pos hname, if_pos hname]
      · have hother : (Datum.string "linter").sameKey (.string name) = false := by
          rw [Datum.string_sameKey, decide_eq_false_iff_not]
          exact Ne.symm hname
        rw [if_neg hname, if_neg hname, Entries.get?, hother]
        rfl
    · rw [List.filter_cons_of_pos (by simp [hk]), Entries.get?, ih, Entries.get?]
      by_cases hname : name = "linter"
      · rw [if_pos hname, if_pos hname, hname, if_neg hk]
      · rw [if_neg hname, if_neg hname]

theorem outside_unset (es : Entries) :
    outside (Entries.overlay es UserConfig.empty.sections) = outside es :=
  outside_insert _ _ es

theorem outside_withoutLinter (es : Entries) : outside (withoutLinter es) = outside es := by
  unfold outside withoutLinter
  rw [List.filter_filter]
  refine List.filter_congr fun x _ => ?_
  cases hx : x.1.sameKey (.string "linter") with
  | false => exact Bool.and_true _
  | true =>
    have hsection : isSection x.1 = true :=
      isSection_iff.mpr ⟨"linter", by decide, Datum.sameKey_text.mp hx⟩
    rw [hsection]
    rfl

theorem hasTextKeys_unset (es : Entries) :
    hasTextKeys (Entries.overlay es UserConfig.empty.sections) = hasTextKeys es := by
  rw [hasTextKeys_overlay]
  exact Bool.and_true _

theorem hasTextKeys_withoutLinter (es : Entries) :
    hasTextKeys (withoutLinter es) = hasTextKeys es := by
  rw [Bool.eq_iff_iff, hasTextKeys_iff, hasTextKeys_iff]
  constructor
  · intro h x hx
    cases hlinter : x.1.sameKey (.string "linter") with
    | true => exact ⟨_, Datum.sameKey_text.mp hlinter⟩
    | false => exact h x (List.mem_filter.mpr ⟨hx, by simp [hlinter]⟩)
  · exact fun h x hx => h x (List.mem_filter.mp hx).1

/-- An empty section below the others makes no difference unless the section that it covers is
wrong, and nothing is laid over that. -/
theorem linterIn_unset (hdistinct : upper.Distinct)
    (hfields : ∀ fields, Check.given "linter" upper = some (.mapping fields) →
      Entries.Distinct fields)
    (hseen : ¬(LinterWrong es ∧ Check.given "linter" upper = none)) :
    linterIn (Entries.overlay (Entries.overlay es UserConfig.empty.sections) upper) =
      linterIn (Entries.overlay es upper) := by
  unfold linterIn Check.field
  rw [Setting.given_overlay hdistinct, Setting.given_overlay hdistinct, given_unset, if_pos rfl]
  -- The empty section makes a difference only above a setting that is no mapping and with nothing
  -- over it, which `hseen` excludes.
  cases hupper : Check.given "linter" upper with
  | none =>
    cases hbelow : Check.given "linter" es with
    | none =>
      rw [Entries.cover_none]
      rfl
    | some d =>
      by_cases hd : ∃ old, d.opened = .mapping old
      · obtain ⟨old, hold⟩ := hd
        have hopened : (some d).map Datum.opened = some (.mapping old) := congrArg some hold
        rw [Entries.cover_opened hopened]
        show LinterSettings.check _ (Entries.overlay old []) = checkLinter _ d
        unfold checkLinter Check.mapping
        rw [hold, Entries.overlay]
      · exact absurd ⟨⟨d, hbelow, not_exists.mp hd⟩, hupper⟩ hseen
  | some d =>
    dsimp only
    cases hmapping : d.isMapping with
    | false =>
      rw [Entries.cover_of_not_mapping hmapping, Entries.cover_of_not_mapping hmapping]
    | true =>
      obtain ⟨fields, rfl⟩ := Datum.mapping_of_isMapping hmapping
      by_cases hold : ∃ old, (Check.given "linter" es).map Datum.opened = some (.mapping old)
      · obtain ⟨old, hold⟩ := hold
        rw [Entries.cover_opened hold, Entries.cover_opened hold, Entries.cover_mapping,
          Entries.overlay]
      · have hapart := not_exists.mp hold
        rw [Entries.cover_apart hapart, Entries.cover_apart hapart, Entries.cover_mapping]
        refine LinterSettings.check_congr (fun name => ?_) _
        rw [Setting.given_overlay (hfields fields hupper)]
        cases Check.given name fields <;> simp [Check.given, Entries.get?]

end Unset

/-- The fields that the variables and the caller give to the linter are all different. -/
theorem distinct_linterFields {m : Machine} {environment overrides : Entries}
    (hread : Environment.read m = .ok environment) (hdistinct : overrides.Distinct)
    (hoverrides : ∀ x ∈ overrides, ∀ fields, x.2 = .mapping fields → Entries.Distinct fields)
    {fields : Entries} (h : Check.given "linter"
      (Entries.overlay environment (callerSections overrides)) = some (.mapping fields)) :
    fields.Distinct := by
  rw [Setting.given_overlay (distinct_callerSections hdistinct)] at h
  cases hcaller : Check.given "linter" (callerSections overrides) with
  | none =>
    rw [hcaller] at h
    exact Environment.distinct_opened hread h rfl
  | some d =>
    rw [hcaller] at h
    obtain ⟨x, hx, rfl⟩ := Entries.mem_of_get? hcaller
    obtain ⟨y, hy, hvalue⟩ := value_of_mem_callerSections hx
    have h := Option.some.inj h
    cases hmapping : x.2.isMapping with
    | false =>
      rw [Entries.cover_of_not_mapping hmapping] at h
      rw [h] at hmapping
      cases hmapping
    | true =>
      obtain ⟨above, habove⟩ := Datum.mapping_of_isMapping hmapping
      rw [habove] at h
      by_cases hold : ∃ old,
          (Check.given "linter" environment).map Datum.opened = some (.mapping old)
      · obtain ⟨old, hold⟩ := hold
        rw [Entries.cover_opened hold] at h
        cases h
        obtain ⟨d, hd, hopened⟩ := Option.map_eq_some_iff.mp hold
        exact (Environment.distinct_opened hread hd hopened).overlay above
      · rw [Entries.cover_apart (not_exists.mp hold)] at h
        cases h
        exact hoverrides y hy _ (hvalue.trans habove)

/-! ## A user who sets nothing -/

/-- A user's file sets nothing: there is none, there is nothing in it, or it makes no setting. -/
inductive SetsNothing (m : Machine) (path : Path) : Prop where
  | missing (gone : m.probe path = .ok false)
  | blank (there : m.probe path = .ok true) (nothing : m.files.read m.cwd path = .ok [])
  | unset (taken : loadUser m path = .ok UserConfig.empty)

theorem SetsNothing.loadUser {m : Machine} {path : Path} (h : SetsNothing m path) :
    ConfigFile.loadUser m path = .ok UserConfig.empty := by
  have hempty (hload : ConfigFile.load m path = .ok (.mapping [])) :
      ConfigFile.loadUser m path = .ok UserConfig.empty := by
    unfold ConfigFile.loadUser
    rw [hload]
    rfl
  cases h with
  | missing gone =>
    refine hempty ?_
    unfold ConfigFile.load
    rw [gone]
    rfl
  | blank there nothing =>
    have hvalue : (Yaml.readValue (.ofBytes [])).toOption.map Datum.isTruthy = some false := by
      decide +kernel
    obtain ⟨d, hread, hfalsy⟩ := exists_ok_of_toOption hvalue
    have hdocument : document path [] = .ok d := by
      unfold document
      rw [hread]
      rfl
    refine hempty (bind_eq_ok.mpr ⟨true, there, ?_⟩)
    refine bind_eq_ok.mpr ⟨[], nothing, bind_eq_ok.mpr ⟨d, hdocument, ?_⟩⟩
    rw [hfalsy]
    rfl
  | unset taken => exact taken

/-- A section of the linter is hidden: it is no mapping, and neither the environment nor the
caller gives one. -/
structure Hidden (m : Machine) (es overrides : Entries) : Prop where
  wrong : LinterWrong es
  unsaid : ∃ environment, Environment.read m = .ok environment ∧
    Check.given "linter" (Entries.overlay environment (callerSections overrides)) = none

/-- What all sources give at a name: what the caller and the environment give there, over what the
files do. -/
theorem given_together {m : Machine} {environment : Entries}
    (hread : Environment.read m = .ok environment) (es overrides : Entries) (name : String) :
    Check.given name (together es environment overrides) =
      match Check.given name (Entries.overlay environment (callerSections overrides)) with
      | none => Check.given name es
      | some d => some (Entries.cover (Check.given name es) d) :=
  Setting.given_overlay ((Environment.distinct_read hread).overlay _) es name

theorem loggingIn_together {m : Machine} {environment es es' : Entries}
    (hread : Environment.read m = .ok environment) (overrides : Entries)
    (h : Check.given "logging" es = Check.given "logging" es') :
    loggingIn m.home (together es environment overrides) =
      loggingIn m.home (together es' environment overrides) := by
  unfold loggingIn Check.field
  rw [given_together hread, given_together hread, h]

/-- A hidden section is wrong, so what is built with it is never a configuration. -/
theorem not_built_of_hidden {m : Machine} {es overrides : Entries} (h : Hidden m es overrides)
    (requireLinter : Bool) (c : Config) : built m (.mapping es) requireLinter overrides ≠ .ok c := by
  intro hbuilt
  obtain ⟨⟨d, hd, hother⟩, environment, hread, hunsaid⟩ := h
  obtain ⟨environment', hread', hcheck⟩ := check_of_combined (combined_of_built hbuilt)
  obtain rfl := Except.ok.inj (hread.symm.trans hread')
  obtain ⟨p, hboth, -⟩ := Checked.map_eq_valid.mp hcheck
  have hlinter : linterIn (together es environment overrides) = .valid p.2 :=
    (Checked.both_eq_valid.mp hboth).2
  unfold linterIn Check.field at hlinter
  rw [given_together hread, hunsaid, hd] at hlinter
  change checkLinter _ d = _ at hlinter
  unfold checkLinter Check.mapping at hlinter
  split at hlinter
  · rename_i fields hfields
    exact hother fields hfields
  · cases hlinter

/-- The files give the mapping of the global file with an empty section of the linter over it. -/
theorem fileSections_unset {m : Machine} {workspace path : Path} {d : Datum} {es : Entries}
    (huser : SetsNothing m (userFile workspace)) (hpath : m.home.expand globalFile = .ok path)
    (hload : ConfigFile.load m path = .ok d) (hd : d.opened = .mapping es) :
    fileSections m workspace =
      .ok (.mapping (Entries.overlay es UserConfig.empty.sections)) := by
  refine bind_eq_ok.mpr ⟨_, huser.loadUser, bind_eq_ok.mpr ⟨path, hpath, ?_⟩⟩
  refine bind_eq_ok.mpr ⟨d, hload, ?_⟩
  unfold layOver
  rw [hd]

/-- A user's file that sets nothing.  The configuration, or the failure, is what the mapping of
the global file, the environment and the caller give alone, unless a section of the linter is
hidden.  In that case it is what they give without the section, although they never give a
configuration with it. -/
theorem load_unset_user {m : Machine} {workspace : Option Path} {path : Path} {d : Datum}
    {es overrides : Entries} (huser : SetsNothing m (userFile (workspace.getD m.cwd)))
    (hpath : m.home.expand globalFile = .ok path) (hload : ConfigFile.load m path = .ok d)
    (hd : d.opened = .mapping es) (hdistinct : overrides.Distinct)
    (hfields : ∀ x ∈ overrides, ∀ fields, x.2 = .mapping fields → Entries.Distinct fields)
    (requireLinter : Bool) :
    (¬Hidden m es overrides →
      load m workspace requireLinter overrides = built m (.mapping es) requireLinter overrides) ∧
    (Hidden m es overrides →
      load m workspace requireLinter overrides =
          built m (.mapping (withoutLinter es)) requireLinter overrides ∧
        ∀ c, built m (.mapping es) requireLinter overrides ≠ .ok c) := by
  rw [load_eq_built (fileSections_unset huser hpath hload hd)]
  constructor
  · intro hseen
    refine built_congr (hasTextKeys_unset es) (outside_unset es) (fun environment hread => ?_)
      (fun environment hread => ?_) requireLinter
    · exact loggingIn_together hread overrides (given_unset es "logging")
    · refine linterIn_unset ((Environment.distinct_read hread).overlay _)
        (fun fields => distinct_linterFields hread hdistinct hfields) ?_
      exact fun h => hseen ⟨h.1, environment, hread, h.2⟩
  · intro h
    refine ⟨built_congr ?_ ?_ (fun environment hread => ?_) (fun environment hread => ?_)
      requireLinter, not_built_of_hidden h requireLinter⟩
    · rw [hasTextKeys_unset, hasTextKeys_withoutLinter]
    · rw [outside_unset, outside_withoutLinter]
    · refine loggingIn_together hread overrides ?_
      rw [given_unset, given_withoutLinter]
      rfl
    · -- The empty section takes the place of the wrong one, and the defaults are that of none.
      obtain ⟨⟨d, hwrong, hother⟩, environment', hread', hunsaid⟩ := h
      obtain rfl := Except.ok.inj (hread'.symm.trans hread)
      have hcover : Entries.cover (some d) (.mapping []) = .mapping [] := Entries.cover_leaf hother _
      unfold linterIn Check.field
      rw [given_together hread, given_together hread, hunsaid]
      dsimp only
      rw [given_unset, given_withoutLinter, if_pos rfl, if_pos rfl, hwrong, hcover]
      rfl

/-- A machine with a global file that has a number for the linter, and no user's file. -/
def wrongLinter : Machine where
  files := .ofNodes [([], .directory), (["h"], .directory), (["h", ".config"], .directory),
    (["h", ".config", "nanolint"], .directory),
    (["h", ".config", "nanolint", "config.yaml"],
      .file (Utf8.encodeChars "linter: 5\n".toList) false)]
  cwd := ⟨.slash, []⟩
  environment := [("HOME", "/h")]
  accounts := .alone "/root"

/-- The keys of a mapping, as far as they are texts, with the integers there. -/
def integersIn : Datum → Option (List (Option Text × Option Int))
  | .mapping es => some (es.map fun x => (x.1.text?, x.2.asInt?))
  | _ => none

theorem load_wrongLinter :
    ConfigFile.load wrongLinter (Path.ofString "/h/.config/nanolint/config.yaml") =
      .ok (.mapping [(.string "linter", .int 5)]) := by
  have hvalue : (ConfigFile.load wrongLinter
      (Path.ofString "/h/.config/nanolint/config.yaml")).toOption.bind integersIn =
        some [(some (Text.ofString "linter"), some 5)] := by decide +kernel
  obtain ⟨d, hload, hd⟩ := Option.bind_eq_some_iff.mp hvalue
  rw [ok_of_toOption hload]
  cases d with
  | mapping es =>
    obtain ⟨⟨key, d⟩, rfl, hx⟩ := List.map_eq_singleton_iff.mp (Option.some.inj hd)
    obtain ⟨hkey, hint⟩ := Prod.mk.inj hx
    cases key <;> cases hkey
    cases d with
    | int n =>
      cases hint
      rfl
    | bool b => cases b <;> cases hint
    | _ => cases hint
  | _ => cases hd

/-- The caller's section is laid over the wrong one, as it would be without a user's file; where
the caller gives none, the wrong one is hidden. -/
theorem load_unset_user_wrong :
    let es : Entries := [(.string "linter", .int 5)]
    let given : Entries := [(.string "linter", .mapping [(.string "fix_on_save", .bool true)])]
    (¬Hidden wrongLinter es given ∧
      load wrongLinter none false given = built wrongLinter (.mapping es) false given) ∧
    Hidden wrongLinter es [] ∧
      load wrongLinter none true [] = built wrongLinter (.mapping (withoutLinter es)) true [] ∧
      ∀ c, built wrongLinter (.mapping es) true [] ≠ .ok c := by
  intro es given
  have huser : SetsNothing wrongLinter (userFile wrongLinter.cwd) :=
    .missing (ok_of_toOption (by decide +kernel))
  have hpath : wrongLinter.home.expand globalFile =
      .ok (Path.ofString "/h/.config/nanolint/config.yaml") := ok_of_toOption (by decide +kernel)
  have hread : Environment.read wrongLinter = .ok [] := by rfl
  have hseen : ¬Hidden wrongLinter es given := by
    rintro ⟨-, environment, hread', hunsaid⟩
    obtain rfl := Except.ok.inj (hread.symm.trans hread')
    cases hunsaid
  have hhidden : Hidden wrongLinter es [] :=
    ⟨⟨.int 5, rfl, fun _ => nofun⟩, [], hread, rfl⟩
  have hdistinct : Entries.Distinct given := List.pairwise_singleton _ _
  have hnone : Entries.Distinct [] := List.Pairwise.nil
  have hgiven := (@load_unset_user _ none _ _ _ _ huser hpath load_wrongLinter rfl hdistinct
    (by simp [given, Entries.Distinct]) false).1
  have hnothing := (@load_unset_user _ none _ _ _ _ huser hpath load_wrongLinter rfl hnone
    (by simp) true).2
  exact ⟨⟨hseen, hgiven hseen⟩, hhidden, hnothing hhidden⟩

/-- A number stands for the linter in the global file, which is a fault of the configuration;
but with a user's file that sets nothing, the defaults are loaded. -/
theorem load_wrong_hidden :
    let es : Entries := [(.string "linter", .int 5)]
    SetsNothing wrongLinter (userFile wrongLinter.cwd) ∧
    ConfigFile.load wrongLinter (Path.ofString "/h/.config/nanolint/config.yaml") =
      .ok (.mapping es) ∧
    built wrongLinter (.mapping es) false [] = .error (.fault (.configValue "linter" (.int 5)
      "Input should be a valid dictionary or instance of LinterSettings")) ∧
    (load wrongLinter none false []).toOption.map (·.linter.maxAscent) =
      some LinterSettings.defaults.maxAscent := by
  intro es
  let issue : Issue := ⟨"model_type", ["linter"],
    "Input should be a valid dictionary or instance of LinterSettings", .int 5⟩
  have hread : Environment.read wrongLinter = .ok [] := by rfl
  have hcheck : checkAll wrongLinter.home (together es [] []) = .invalid [issue] := by rfl
  have hshort : ¬issue.input.hasLongInt = true := by decide +kernel
  have hcombined : combined wrongLinter (.mapping es) [] = .error (rejection (.invalid [issue])) := by
    rw [combined_eq es [] hread, hcheck, if_pos (by rfl)]
    rfl
  rw [rejection, if_neg hshort] at hcombined
  refine ⟨.missing (ok_of_toOption (by decide +kernel)), load_wrongLinter, ?_, by decide +kernel⟩
  unfold built
  rw [hcombined]
  rfl

end Config

end EditorLint
