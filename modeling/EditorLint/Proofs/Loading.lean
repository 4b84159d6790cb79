import EditorLint.Proofs.Checks
import EditorLint.Settings.Load

/-!
# What gets out of the loading of a configuration

The callers of `load` expect faults of the configuration and nothing else.  `Loophole` lists
what else gets out, in the order in which the sources are looked at, and
`load_ok_or_fault_iff` says that the list is complete: loading gives a configuration or ends
with such a fault exactly if none of these things is the case.

The user's file and the global file go through different readers, and neither turns
everything that is wrong with a file into a fault.
-/

namespace EditorLint

/-! ## Failures that nobody expects -/

/-- Whether a failure is a fault of the configuration, which the callers expect. -/
def Failure.isConfigFault : Failure → Bool
  | .fault f => f.family == .config
  | _ => false

/-- Whether something ends with a failure that is no fault of the configuration. -/
def Escapes {α : Type} (x : Except Failure α) : Prop :=
  ∃ f, x = .error f ∧ f.isConfigFault = false

section Escapes

variable {α β : Type}

@[simp] theorem escapes_ok (a : α) : ¬Escapes (.ok a : Except Failure α) := by
  rintro ⟨f, hf, -⟩
  cases hf

@[simp] theorem escapes_pure (a : α) : ¬Escapes (pure a : Except Failure α) := escapes_ok a

@[simp] theorem escapes_error {f : Failure} :
    Escapes (.error f : Except Failure α) ↔ f.isConfigFault = false := by
  constructor
  · rintro ⟨f', hf, h⟩
    cases hf
    exact h
  · intro h
    exact ⟨f, rfl, h⟩

@[simp] theorem escapes_throw {f : Failure} :
    Escapes (throw f : Except Failure α) ↔ f.isConfigFault = false := escapes_error

instance (x : Except Failure α) : Decidable (Escapes x) :=
  match x with
  | .ok a => isFalse (escapes_ok a)
  | .error f => decidable_of_iff (f.isConfigFault = false) escapes_error.symm

theorem escapes_bind {x : Except Failure α} {g : α → Except Failure β} :
    Escapes (x >>= g) ↔ Escapes x ∨ ∃ a, x = .ok a ∧ Escapes (g a) := by
  cases x with
  | ok a =>
    show Escapes (g a) ↔ _
    simp
  | error f =>
    show Escapes (.error f) ↔ _
    simp

theorem escapes_mapError {ε : Type} {x : Except ε α} {g : ε → Failure} :
    Escapes (x.mapError g) ↔ ∃ e, x = .error e ∧ (g e).isConfigFault = false := by
  cases x with
  | ok a =>
    show Escapes (.ok a) ↔ _
    simp
  | error e =>
    show Escapes (.error (g e)) ↔ _
    simp

/-- Whether all failures that something can end with are no faults of the configuration. -/
def NeverFaults (x : Except Failure α) : Prop := ∀ f, x = .error f → f.isConfigFault = false

theorem neverFaults_ok (a : α) : NeverFaults (.ok a : Except Failure α) := by
  intro f hf
  cases hf

theorem NeverFaults.bind {x : Except Failure α} {g : α → Except Failure β} (hx : NeverFaults x)
    (hg : ∀ a, NeverFaults (g a)) : NeverFaults (x >>= g) := by
  cases x with
  | ok a => exact hg a
  | error f =>
    intro f' hf
    cases hf
    exact hx f rfl

/-- Where nothing but unexpected failures can come, success is the only other end. -/
theorem NeverFaults.escapes_or_ok {x : Except Failure α} (h : NeverFaults x) :
    Escapes x ∨ ∃ a, x = .ok a := by
  cases hx : x with
  | ok a => exact .inr ⟨a, rfl⟩
  | error f => exact .inl ⟨f, rfl, h f hx⟩

theorem NeverFaults.escapes_bind_iff {x : Except Failure α} {g : α → Except Failure β} {p : Prop}
    (hx : NeverFaults x) (hg : ∀ a, x = .ok a → (Escapes (g a) ↔ p)) :
    Escapes (x >>= g) ↔ Escapes x ∨ p := by
  rw [escapes_bind]
  rcases hx.escapes_or_ok with h | ⟨a, rfl⟩
  · exact iff_of_true (.inl h) (.inl h)
  · simp [hg a rfl]

/-- Steps through a list that never fault, each of which fails for a reason of its own. -/
theorem escapes_foldlM {ι : Type} {step : α → ι → Except Failure α} {p : ι → Prop}
    (hstep : ∀ acc i, Escapes (step acc i) ↔ p i) (hnever : ∀ acc i, NeverFaults (step acc i))
    (is : List ι) (acc : α) : Escapes (is.foldlM step acc) ↔ ∃ i ∈ is, p i := by
  induction is generalizing acc with
  | nil => simp
  | cons i rest ih =>
    rw [List.foldlM_cons, (hnever acc i).escapes_bind_iff fun acc' _ => ih acc', hstep]
    simp

theorem escapes_filterMapM {ι : Type} {step : ι → Except Failure (Option β)} {p : ι → Prop}
    (hstep : ∀ i, Escapes (step i) ↔ p i) (hnever : ∀ i, NeverFaults (step i)) (is : List ι) :
    Escapes (is.filterMapM step) ↔ ∃ i ∈ is, p i := by
  induction is with
  | nil => simp
  | cons i rest ih =>
    rw [List.filterMapM_cons, (hnever i).escapes_bind_iff (p := ∃ j ∈ rest, p j), hstep]
    · simp
    · intro given _
      cases given with
      | none => exact ih
      | some b =>
        rw [escapes_bind, ih]
        simp

theorem given_of_mem_filterMapM {ι : Type} {step : ι → Except Failure (Option β)} {is : List ι}
    {bs : List β} (h : is.filterMapM step = .ok bs) {b : β} (hb : b ∈ bs) :
    ∃ i ∈ is, step i = .ok (some b) := by
  induction is generalizing bs with
  | nil =>
    cases h
    cases hb
  | cons i rest ih =>
    rw [List.filterMapM_cons, bind_eq_ok] at h
    obtain ⟨given, hi, h⟩ := h
    have later (more : List β) (hr : rest.filterMapM step = .ok more) (hb : b ∈ more) :
        ∃ j ∈ i :: rest, step j = .ok (some b) := by
      obtain ⟨j, hj, hgiven⟩ := ih hr hb
      exact ⟨j, List.mem_cons_of_mem i hj, hgiven⟩
    cases given with
    | none => exact later bs h hb
    | some first =>
      obtain ⟨more, hr, h⟩ := bind_eq_ok.mp h
      cases h
      rcases List.mem_cons.mp hb with rfl | hb
      · exact ⟨i, List.mem_cons_self, hi⟩
      · exact later more hr hb

theorem NeverFaults.foldlM {ι : Type} {step : α → ι → Except Failure α}
    (h : ∀ acc i, NeverFaults (step acc i)) (is : List ι) (acc : α) :
    NeverFaults (is.foldlM step acc) := by
  induction is generalizing acc with
  | nil => exact neverFaults_ok acc
  | cons i rest ih =>
    rw [List.foldlM_cons]
    exact (h acc i).bind fun acc' => ih acc'

end Escapes

/-! ## Files -/

/-- Whether an error in a document becomes no fault of the configuration. -/
def Yaml.Error.isUnforeseen : Yaml.Error → Bool
  | .scalar _ | .undecodable _ | .tooDeep => true
  | .fault _ | .unprintable _ _ => false

namespace ConfigFile

/-- What keeps a file from being read: its name is too long, it is no regular file, or its
document has an error that is none of YAML. -/
inductive Unreadable (m : Machine) (path : Path) : Prop where
  | name (f : Failure) (h : m.probe path = .error f)
  | file (f : Failure) (there : m.probe path = .ok true) (h : m.files.read m.cwd path = .error f)
  | document (bytes : List UInt8) (e : Yaml.Error) (there : m.probe path = .ok true)
    (read : m.files.read m.cwd path = .ok bytes) (h : Yaml.readValue (.ofBytes bytes) = .error e)
    (unforeseen : e.isUnforeseen = true)

theorem neverFaults_probe (m : Machine) (path : Path) : NeverFaults (m.probe path) := by
  intro f h
  unfold Machine.probe FileSystem.contains at h
  split at h <;> cases h
  · rfl
  · rfl

theorem neverFaults_read (fs : FileSystem) (cwd path : Path) : NeverFaults (fs.read cwd path) := by
  intro f h
  unfold FileSystem.read at h
  split at h
  · split at h
    · cases h
      rfl
    · split at h <;> cases h
      · rfl
      · rfl
  · cases h
    rfl
  · rename_i why _
    cases h
    cases why <;> rfl

theorem escapes_document (path : Path) (bytes : List UInt8) :
    Escapes (document path bytes) ↔
      ∃ e, Yaml.readValue (.ofBytes bytes) = .error e ∧ e.isUnforeseen = true := by
  unfold document
  rw [escapes_mapError]
  refine exists_congr fun e => and_congr_right fun _ => ?_
  cases e <;> simp [refusal, Yaml.Error.isUnforeseen, Failure.isConfigFault, Failure.ofUtf8,
    Fault.configParse]

theorem escapes_load (m : Machine) (path : Path) :
    Escapes (load m path) ↔ Unreadable m path := by
  unfold load
  constructor
  · intro h
    rcases escapes_bind.mp h with ⟨f, hf, -⟩ | ⟨there, ht, h⟩
    · exact .name f hf
    · cases there with
      | false => exact absurd h (escapes_pure _)
      | true =>
        rcases escapes_bind.mp h with ⟨f, hf, -⟩ | ⟨bytes, hb, h⟩
        · exact .file f ht hf
        · rcases escapes_bind.mp h with h | ⟨d, -, h⟩
          · obtain ⟨e, he, hu⟩ := (escapes_document path bytes).mp h
            exact .document bytes e ht hb he hu
          · exact absurd h (escapes_pure _)
  · intro h
    cases h with
    | name f h => exact escapes_bind.mpr (.inl ⟨f, h, neverFaults_probe m path f h⟩)
    | file f there h =>
      refine escapes_bind.mpr (.inr ⟨true, there, escapes_bind.mpr (.inl ?_)⟩)
      exact ⟨f, h, neverFaults_read _ _ path f h⟩
    | document bytes e there read h unforeseen =>
      refine escapes_bind.mpr (.inr ⟨true, there, escapes_bind.mpr (.inr ⟨bytes, read, ?_⟩)⟩)
      exact escapes_bind.mpr (.inl ((escapes_document path bytes).mpr ⟨e, h, unforeseen⟩))

/-! ## Findings -/

/-- Whether the first finding of a check is about a value with an integer that is too long
for a literal. -/
def LongFirst {α : Type} (x : Checked α) : Prop :=
  ∃ issue rest, x = .invalid (issue :: rest) ∧ issue.input.hasLongInt = true

theorem escapes_rejection {α : Type} {p : Prop} {x : Checked α} (h : x.BreaksOff p) :
    Escapes (x.toExcept.mapError rejection) ↔ p ∨ LongFirst x := by
  rw [escapes_mapError]
  cases x with
  | valid a =>
    have hp : ¬p := h
    simp [Checked.toExcept, LongFirst, hp]
  | broken f =>
    obtain ⟨hp, rfl⟩ := h
    simp [Checked.toExcept, rejection, Failure.isConfigFault, hp]
  | invalid issues =>
    obtain ⟨hne, hp⟩ := h
    cases issues with
    | nil => exact absurd rfl hne
    | cons issue rest =>
      cases hl : issue.input.hasLongInt <;>
        simp [Checked.toExcept, LongFirst, rejection, hl, hp, Failure.isConfigFault,
          Fault.configValue]

theorem escapes_userOf (path : Path) (d : Datum) :
    Escapes (userOf path d) ↔ ∃ es, d.opened = .mapping es ∧
      (hasTextKeys es = false ∨ LongFirst (UserConfig.check es)) := by
  unfold userOf
  cases d.opened with
  | mapping es =>
    cases hk : hasTextKeys es with
    | true =>
      simpa [hk] using escapes_rejection (UserConfig.breaksOff_check es)
    | false => simp [hk, Failure.isConfigFault]
  | _ => simp [noMapping, Failure.isConfigFault, Fault.configParse]

/-- What keeps a file from being taken as the user's configuration, other than a fault: it
cannot be read, a key is no text, or the first finding is about a number that is too long. -/
inductive Untaken (m : Machine) (path : Path) : Prop where
  | file (h : Unreadable m path)
  | keys (d : Datum) (es : Entries) (read : load m path = .ok d) (top : d.opened = .mapping es)
    (h : hasTextKeys es = false)
  | number (d : Datum) (es : Entries) (read : load m path = .ok d) (top : d.opened = .mapping es)
    (h : LongFirst (UserConfig.check es))

theorem escapes_loadUser (m : Machine) (path : Path) :
    Escapes (loadUser m path) ↔ Untaken m path := by
  unfold loadUser
  rw [escapes_bind, escapes_load]
  constructor
  · rintro (h | ⟨d, read, h⟩)
    · exact .file h
    · obtain ⟨es, top, h | h⟩ := (escapes_userOf path d).mp h
      · exact .keys d es read top h
      · exact .number d es read top h
  · rintro (h | ⟨d, es, read, top, h⟩ | ⟨d, es, read, top, h⟩)
    · exact .inl h
    · exact .inr ⟨d, read, (escapes_userOf path d).mpr ⟨es, top, .inl h⟩⟩
    · exact .inr ⟨d, read, (escapes_userOf path d).mpr ⟨es, top, .inr h⟩⟩

end ConfigFile

/-! ## The environment -/

namespace Environment

theorem neverFaults_jsonValue (s : Section) (value : Text) : NeverFaults (jsonValue s value) := by
  intro f h
  unfold jsonValue at h
  split at h <;> cases h <;> rfl

theorem escapes_jsonValue (s : Section) (value : Text) :
    Escapes (jsonValue s value) ↔ ∃ e, Json.read value.shown = .error e := by
  unfold jsonValue
  split <;> simp_all [Failure.isConfigFault]

/-- Whether a variable gives a field of a section, which has to be a list, a text that is no
JSON. -/
def Section.IsSpoiledBy (s : Section) (name value : Text) : Prop :=
  let start := s.variableName ++ delimiter
  start.isPrefixOf name = true ∧
    (∃ field, Text.splitBy delimiter (name.drop start.length) = [field] ∧
      s.lists.any field.isString = true) ∧
    value ≠ [] ∧ ∃ e, Json.read value.shown = .error e

/-- What keeps a section from being read: its variable is no JSON, or that of a field, where
the section has none of its own or one that the field is laid over. -/
inductive Section.Unreadable (s : Section) (table : List (Text × Text)) : Prop where
  | whole (value : Text) (e : Json.Fault) (given : valueAt s.variableName table = some value)
    (h : Json.read value.shown = .error e)
  | field (name value : Text) (entry : (name, value) ∈ table)
    (beside : valueAt s.variableName table = none ∨
      ∃ whole es, valueAt s.variableName table = some whole ∧
        Json.read whole.shown = .ok (.mapping es))
    (h : s.IsSpoiledBy name value)

theorem neverFaults_fieldValue (s : Section) (name value : Text) :
    NeverFaults (fieldValue s name value) := by
  unfold fieldValue
  split
  · exact neverFaults_jsonValue s value
  · exact neverFaults_ok _

theorem neverFaults_addField (s : Section) (es : Entries) (name value : Text) :
    NeverFaults (addField s es name value) := by
  simp only [addField]
  split
  · exact neverFaults_ok es
  · split
    · exact (neverFaults_fieldValue s _ value).bind fun d => neverFaults_ok _
    · exact neverFaults_ok _

theorem escapes_fieldValue (s : Section) (name value : Text) :
    Escapes (fieldValue s name value) ↔ s.lists.any name.isString = true ∧ value ≠ [] ∧
      ∃ e, Json.read value.shown = .error e := by
  unfold fieldValue
  split
  · rename_i h
    rw [escapes_jsonValue]
    simp only [Bool.and_eq_true, Bool.not_eq_true', List.isEmpty_eq_false_iff] at h
    simp [h.1, h.2]
  · rename_i h
    refine iff_of_false (escapes_ok _) ?_
    rintro ⟨hl, hv, -⟩
    exact h (by simp [hl, hv])

theorem escapes_addField (s : Section) (es : Entries) (name value : Text) :
    Escapes (addField s es name value) ↔ s.IsSpoiledBy name value := by
  simp only [addField, Section.IsSpoiledBy]
  cases (s.variableName ++ delimiter).isPrefixOf name with
  | false => simp
  | true =>
    generalize Text.splitBy delimiter (name.drop (s.variableName ++ delimiter).length) = way
    match way with
    | [field] =>
      simp only [Bool.not_true, Bool.false_eq_true, if_false, List.length_singleton, if_true,
        escapes_bind, escapes_pure, escapes_fieldValue]
      simp
    | [] => simp
    | _ :: _ :: _ => simp

theorem escapes_fields (s : Section) (table : List (Text × Text)) :
    Escapes (fields s table) ↔ ∃ x ∈ table, s.IsSpoiledBy x.1 x.2 := by
  unfold fields
  refine escapes_foldlM ?_ ?_ table []
  · rintro es ⟨name, value⟩
    exact escapes_addField s es name value
  · rintro es ⟨name, value⟩
    exact neverFaults_addField s es name value

theorem neverFaults_fields (s : Section) (table : List (Text × Text)) :
    NeverFaults (fields s table) := by
  unfold fields
  refine NeverFaults.foldlM ?_ table []
  rintro es ⟨name, value⟩
  exact neverFaults_addField s es name value

theorem neverFaults_sectionValue (s : Section) (table : List (Text × Text)) :
    NeverFaults (sectionValue s table) := by
  simp only [sectionValue]
  split
  · refine (neverFaults_fields s table).bind fun es => ?_
    split <;> exact neverFaults_ok _
  · refine (neverFaults_jsonValue s _).bind fun d => ?_
    split
    · exact neverFaults_ok _
    · exact (neverFaults_fields s table).bind fun es => neverFaults_ok _
    · exact neverFaults_ok _

theorem jsonValue_ok_iff (s : Section) (value : Text) (d : Datum) :
    jsonValue s value = .ok d ↔ Json.read value.shown = .ok d := by
  unfold jsonValue
  split <;> simp_all

theorem escapes_sectionValue (s : Section) (table : List (Text × Text)) :
    Escapes (sectionValue s table) ↔ s.Unreadable table := by
  simp only [sectionValue]
  -- The fields are looked at alone, or after the value of the whole section.
  cases hw : valueAt s.variableName table with
  | none =>
    dsimp only
    rw [escapes_bind, escapes_fields]
    constructor
    · rintro (⟨⟨name, value⟩, hx, hs⟩ | ⟨es, -, h⟩)
      · exact .field name value hx (.inl hw) hs
      · split at h <;> exact absurd h (escapes_ok _)
    · rintro (⟨value, e, hg, -⟩ | ⟨name, value, hx, -, hs⟩)
      · rw [hw] at hg
        cases hg
      · exact .inl ⟨(name, value), hx, hs⟩
  | some whole =>
    dsimp only
    rw [escapes_bind, escapes_jsonValue]
    constructor
    · rintro (⟨e, he⟩ | ⟨d, hd, h⟩)
      · exact .whole whole e hw he
      · split at h
        · exact absurd h (escapes_ok _)
        · rcases escapes_bind.mp h with h | ⟨_, -, h⟩
          · obtain ⟨⟨name, value⟩, hx, hs⟩ := (escapes_fields s table).mp h
            exact .field name value hx (.inr ⟨whole, _, hw, (jsonValue_ok_iff s whole _).mp hd⟩) hs
          · exact absurd h (escapes_ok _)
        · exact absurd h (escapes_ok _)
    · rintro (⟨value, e, hg, he⟩ | ⟨name, value, hx, hnone | ⟨_, es, hg, hd⟩, hs⟩)
      · rw [hw] at hg
        cases hg
        exact .inl ⟨e, he⟩
      · rw [hw] at hnone
        cases hnone
      · rw [hw] at hg
        cases hg
        refine .inr ⟨.mapping es, (jsonValue_ok_iff s whole _).mpr hd, ?_⟩
        exact escapes_bind.mpr (.inl ((escapes_fields s table).mpr ⟨(name, value), hx, hs⟩))

theorem escapes_read (m : Machine) :
    Escapes (read m) ↔ ∃ s ∈ sections, s.Unreadable (lowered m.environment) := by
  refine escapes_filterMapM (fun s => ?_) (fun s => ?_) sections
  · rw [escapes_bind, escapes_sectionValue]
    simp
  · exact (neverFaults_sectionValue s _).bind fun d => neverFaults_ok _

theorem text_of_mem_read {m : Machine} {es : Entries} (h : read m = .ok es) {x : Datum × Datum}
    (hx : x ∈ es) : ∃ t, x.1 = .text t := by
  obtain ⟨s, -, hs⟩ := given_of_mem_filterMapM h hx
  obtain ⟨d, -, hd⟩ := bind_eq_ok.mp hs
  cases d with
  | none => cases hd
  | some d =>
    cases hd
    exact ⟨_, rfl⟩

end Environment

/-! ## Keys -/

namespace ConfigFile

/-- A key is the same as a text only if it is one. -/
theorem isSome_text?_of_sameKey {k key : Datum} (h : k.sameKey key = true) :
    k.text?.isSome = key.text?.isSome := by
  cases k <;> cases key <;> simp_all [Datum.sameKey, Datum.text?, Datum.asInt?]

theorem hasTextKeys_insert (key value : Datum) (es : Entries) :
    hasTextKeys (Entries.insert key value es) = (hasTextKeys es && key.text?.isSome) := by
  induction es with
  | nil => simp [Entries.insert, hasTextKeys]
  | cons e rest ih =>
    obtain ⟨k, v⟩ := e
    unfold hasTextKeys at ih ⊢
    unfold Entries.insert
    split
    · rename_i h
      have hk := isSome_text?_of_sameKey h
      cases hs : key.text?.isSome <;> simp [hk, hs]
    · simp [ih, Bool.and_assoc]

theorem hasTextKeys_overlay (base upper : Entries) :
    hasTextKeys (Entries.overlay base upper) = (hasTextKeys base && hasTextKeys upper) := by
  induction upper generalizing base with
  | nil => simp [Entries.overlay, hasTextKeys]
  | cons e rest ih =>
    obtain ⟨k, v⟩ := e
    rw [Entries.overlay, ih, hasTextKeys_insert]
    simp [hasTextKeys, Bool.and_assoc]

theorem hasTextKeys_iff {es : Entries} :
    hasTextKeys es = true ↔ ∀ x ∈ es, ∃ t, x.1 = .text t := by
  unfold hasTextKeys
  rw [List.all_eq_true]
  refine forall_congr' fun x => imp_congr_right fun _ => ?_
  obtain ⟨key, d⟩ := x
  cases key <;> simp [Datum.text?]

end ConfigFile

/-! ## The sources together -/

namespace Config

open ConfigFile

theorem hasTextKeys_callerSections (overrides : Entries) :
    hasTextKeys (callerSections overrides) = hasTextKeys overrides := by
  rw [Bool.eq_iff_iff, hasTextKeys_iff, hasTextKeys_iff]
  constructor
  · intro h x hx
    cases hn : sectionNamed? x.1 with
    | none => exact h x (List.mem_append_right _ (by simp [hx, hn]))
    | some name =>
      obtain ⟨t, ht, -⟩ := Option.bind_eq_some_iff.mp hn
      exact ⟨t, by cases x with | mk k d => cases k <;> simp_all [Datum.text?]⟩
  · intro h x hx
    rcases List.mem_append.mp hx with hx | hx
    · obtain ⟨name, -, hs⟩ := List.mem_filterMap.mp hx
      obtain ⟨x', -, rfl⟩ := Option.map_eq_some_iff.mp hs
      exact ⟨_, rfl⟩
    · exact h x (List.mem_filter.mp hx).1

theorem hasTextKeys_environment {m : Machine} {es : Entries} (h : Environment.read m = .ok es) :
    hasTextKeys es = true :=
  hasTextKeys_iff.mpr fun _ hx => Environment.text_of_mem_read h hx

/-- Entries that stand for no section are findings, so they break no check off. -/
theorem breaksOff_checkAll (home : Home) (es : Entries) :
    (checkAll home es).BreaksOff (home.isMissingIn es) := by
  have h := Config.breaksOff_check home es
  unfold checkAll
  cases hc : Config.check home es with
  | broken f =>
    rw [hc] at h
    exact h
  | valid c =>
    rw [hc] at h
    cases strangers es with
    | nil => exact h
    | cons issue rest => exact ⟨by simp, h⟩
  | invalid issues =>
    rw [hc] at h
    exact ⟨by simp [h.1], h.2⟩

/-- A file with anything but a mapping at its top bears no sections. -/
theorem layOver_sections (d : Datum) (user : UserConfig) :
    (∃ es, d.opened = .mapping es ∧
        layOver d (.mapping user.sections) = .ok (.mapping (Entries.overlay es user.sections))) ∨
      (∀ es, d.opened ≠ .mapping es) ∧ Escapes (layOver d (.mapping user.sections)) := by
  unfold layOver UserConfig.sections
  cases d.opened with
  | mapping es => exact .inl ⟨es, rfl, rfl⟩
  | set members =>
    refine .inr ⟨by simp, ?_⟩
    dsimp only
    split <;> simp [Failure.isConfigFault]
  | _ => exact .inr ⟨by simp, by simp [Failure.isConfigFault]⟩

/-- The entries of all sources, where the caller goes before the environment and that before
the files. -/
def together (files environment overrides : Entries) : Entries :=
  Entries.overlay files (Entries.overlay environment (callerSections overrides))

/-- What keeps the files from giving sections, other than a fault: the user's file cannot be
taken, the home directory cannot be found, or the global file cannot be read or has no
mapping at its top. -/
inductive Unmerged (m : Machine) (workspace : Path) : Prop where
  | user (h : Untaken m (userFile workspace))
  | home (user : UserConfig) (taken : loadUser m (userFile workspace) = .ok user)
    (h : m.home.expand globalFile = .error .noHome)
  | global (user : UserConfig) (path : Path) (taken : loadUser m (userFile workspace) = .ok user)
    (there : m.home.expand globalFile = .ok path) (h : Unreadable m path)
  | top (user : UserConfig) (path : Path) (d : Datum)
    (taken : loadUser m (userFile workspace) = .ok user)
    (there : m.home.expand globalFile = .ok path) (read : ConfigFile.load m path = .ok d)
    (h : ∀ es, d.opened ≠ .mapping es)

/-- What else than a fault of the configuration gets out of loading it: the files give no
sections, a variable is no JSON, a key is no text, a log goes below a home directory that
cannot be found, or the first finding is about a number that is too long. -/
inductive Loophole (m : Machine) (workspace : Path) (overrides : Entries) : Prop where
  | files (h : Unmerged m workspace)
  | environment (files : Entries) (given : fileSections m workspace = .ok (.mapping files))
    (s : Environment.Section) (known : s ∈ Environment.sections)
    (h : s.Unreadable (Environment.lowered m.environment))
  | keys (files environment : Entries) (given : fileSections m workspace = .ok (.mapping files))
    (read : Environment.read m = .ok environment)
    (h : hasTextKeys files = false ∨ hasTextKeys overrides = false)
  | log (files environment : Entries) (given : fileSections m workspace = .ok (.mapping files))
    (read : Environment.read m = .ok environment)
    (h : m.home.isMissingIn (together files environment overrides))
  | number (files environment : Entries) (given : fileSections m workspace = .ok (.mapping files))
    (read : Environment.read m = .ok environment)
    (h : LongFirst (checkAll m.home (together files environment overrides)))

theorem mapping_of_fileSections {m : Machine} {workspace : Path} {d : Datum}
    (h : fileSections m workspace = .ok d) : ∃ es, d = .mapping es := by
  obtain ⟨user, -, h⟩ := bind_eq_ok.mp h
  obtain ⟨path, -, h⟩ := bind_eq_ok.mp h
  obtain ⟨global, -, h⟩ := bind_eq_ok.mp h
  rcases layOver_sections global user with ⟨es, -, hl⟩ | ⟨-, f, hf, -⟩
  · rw [hl] at h
    cases h
    exact ⟨_, rfl⟩
  · rw [hf] at h
    cases h

/-- The global file is below the user's own home directory, so that no name is looked up. -/
theorem missing_of_expand {home : Home} {f : Failure} (h : home.expand globalFile = .error f) :
    f = .noHome := by
  have hroot : globalFile.root = .relative := by decide
  have hparts : globalFile.parts = (["~", ".config", "nanolint", "config.yaml"] : List Text) := by
    decide
  have hpart : home.ofPart "~" = .ok (home.directory <|> home.accounts.own) := rfl
  unfold Home.expand at h
  rw [hroot, hparts] at h
  dsimp only at h
  rw [if_pos (by decide), hpart] at h
  cases hown : home.directory <|> home.accounts.own with
  | none =>
    rw [hown] at h
    exact (Except.error.inj h).symm
  | some directory =>
    rw [hown] at h
    dsimp only at h
    split at h
    · exact (Except.error.inj h).symm
    · cases h

theorem escapes_fileSections (m : Machine) (workspace : Path) :
    Escapes (fileSections m workspace) ↔ Unmerged m workspace := by
  unfold fileSections
  constructor
  · intro h
    rcases escapes_bind.mp h with h | ⟨user, taken, h⟩
    · exact .user ((escapes_loadUser _ _).mp h)
    rcases escapes_bind.mp h with ⟨f, hf, -⟩ | ⟨path, there, h⟩
    · cases missing_of_expand hf
      exact .home user taken hf
    rcases escapes_bind.mp h with h | ⟨d, read, h⟩
    · exact .global user path taken there ((ConfigFile.escapes_load m path).mp h)
    rcases layOver_sections d user with ⟨es, -, hl⟩ | ⟨hno, -⟩
    · rw [hl] at h
      exact absurd h (escapes_ok _)
    · exact .top user path d taken there read hno
  · intro h
    cases h with
    | user h => exact escapes_bind.mpr (.inl ((escapes_loadUser _ _).mpr h))
    | home user taken h =>
      refine escapes_bind.mpr (.inr ⟨user, taken, escapes_bind.mpr (.inl ?_)⟩)
      rw [h]
      exact escapes_error.mpr rfl
    | global user path taken there h =>
      refine escapes_bind.mpr (.inr ⟨user, taken, escapes_bind.mpr (.inr ⟨path, there, ?_⟩)⟩)
      exact escapes_bind.mpr (.inl ((ConfigFile.escapes_load m path).mpr h))
    | top user path d taken there read h =>
      refine escapes_bind.mpr (.inr ⟨user, taken, escapes_bind.mpr (.inr ⟨path, there, ?_⟩)⟩)
      refine escapes_bind.mpr (.inr ⟨d, read, ?_⟩)
      rcases layOver_sections d user with ⟨es, hes, -⟩ | ⟨-, hl⟩
      · exact absurd hes (h es)
      · exact hl

theorem escapes_combined (m : Machine) (files overrides : Entries) :
    Escapes (combined m (.mapping files) overrides) ↔
      Escapes (Environment.read m) ∨ ∃ environment, Environment.read m = .ok environment ∧
        ((hasTextKeys files = false ∨ hasTextKeys overrides = false) ∨
          m.home.isMissingIn (together files environment overrides) ∨
          LongFirst (checkAll m.home (together files environment overrides))) := by
  unfold combined
  rw [escapes_bind]
  refine or_congr_right (exists_congr fun environment => and_congr_right fun read => ?_)
  -- Only the files and the caller can bring in a key that is no text.
  have hkeys : hasTextKeys (together files environment overrides) =
      (hasTextKeys files && hasTextKeys overrides) := by
    unfold together
    rw [hasTextKeys_overlay, hasTextKeys_overlay, hasTextKeys_environment read,
      hasTextKeys_callerSections, Bool.true_and]
  show Escapes (if hasTextKeys (together files environment overrides) then
    (checkAll m.home (together files environment overrides)).toExcept.mapError rejection
    else throw .textKeysOnly) ↔ _
  split
  · rename_i h
    rw [escapes_rejection (breaksOff_checkAll _ _)]
    rw [hkeys, Bool.and_eq_true] at h
    simp [h.1, h.2]
  · rename_i h
    rw [hkeys, Bool.not_eq_true, Bool.and_eq_false_iff] at h
    exact iff_of_true (escapes_throw.mpr rfl) (.inl h)

theorem escapes_load (m : Machine) (workspace : Option Path) (requireLinter : Bool)
    (overrides : Entries) :
    Escapes (load m workspace requireLinter overrides) ↔
      Loophole m (workspace.getD m.cwd) overrides := by
  have hcombined (files : Entries)
      (given : fileSections m (workspace.getD m.cwd) = .ok (.mapping files))
      (h : Escapes (combined m (.mapping files) overrides)) :
      Escapes (load m workspace requireLinter overrides) :=
    escapes_bind.mpr (.inr ⟨_, given, escapes_bind.mpr (.inl h)⟩)
  constructor
  · intro h
    rcases escapes_bind.mp h with h | ⟨d, given, h⟩
    · exact .files ((escapes_fileSections _ _).mp h)
    obtain ⟨files, rfl⟩ := mapping_of_fileSections given
    rcases escapes_bind.mp h with h | ⟨c, -, h⟩
    · rcases (escapes_combined m files overrides).mp h with h | ⟨environment, read, h | h | h⟩
      · obtain ⟨s, known, h⟩ := (Environment.escapes_read m).mp h
        exact .environment files given s known h
      · exact .keys files environment given read h
      · exact .log files environment given read h
      · exact .number files environment given read h
    · -- A setting that is not made is a fault.
      exfalso
      dsimp only at h
      split at h
      · split at h
        · exact Bool.noConfusion (escapes_throw.mp h)
        · exact absurd h (escapes_pure c)
      · exact absurd h (escapes_pure c)
  · intro h
    cases h with
    | files h => exact escapes_bind.mpr (.inl ((escapes_fileSections _ _).mpr h))
    | environment files given s known h =>
      refine hcombined files given ((escapes_combined m files overrides).mpr (.inl ?_))
      exact (Environment.escapes_read m).mpr ⟨s, known, h⟩
    | keys files environment given read h =>
      refine hcombined files given ((escapes_combined m files overrides).mpr (.inr ?_))
      exact ⟨environment, read, .inl h⟩
    | log files environment given read h =>
      refine hcombined files given ((escapes_combined m files overrides).mpr (.inr ?_))
      exact ⟨environment, read, .inr (.inl h)⟩
    | number files environment given read h =>
      refine hcombined files given ((escapes_combined m files overrides).mpr (.inr ?_))
      exact ⟨environment, read, .inr (.inr h)⟩

/-- Loading a configuration gives one or ends with a fault of the configuration, exactly
where there is no loophole. -/
theorem load_ok_or_fault_iff (m : Machine) (workspace : Option Path) (requireLinter : Bool)
    (overrides : Entries) :
    ((∃ c, load m workspace requireLinter overrides = .ok c) ∨
      ∃ f, load m workspace requireLinter overrides = .error (.fault f) ∧ f.family = .config) ↔
      ¬Loophole m (workspace.getD m.cwd) overrides := by
  rw [← escapes_load m workspace requireLinter overrides]
  cases load m workspace requireLinter overrides with
  | ok c => simp
  | error f => cases f <;> simp [Failure.isConfigFault]

/-- A list in the global file ends in a failure that no caller expects. -/
theorem load_list_escapes :
    let path : Place := ["home", ".config", "nanolint", "config.yaml"]
    let files : FileSystem := .ofNodes [([], .directory), (["home"], .directory),
      (["home", ".config"], .directory), (["home", ".config", "nanolint"], .directory),
      (path, .file [0x2d, 0x20, 0x61, 0x0a] false)]
    let m : Machine := ⟨files, ⟨.slash, []⟩, [("HOME", "/home")], .alone "/root"⟩
    Escapes (load m none false []) := by
  decide +kernel

end Config

end EditorLint
