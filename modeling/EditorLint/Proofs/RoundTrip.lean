import EditorLint.Proofs.Decoding
import EditorLint.Proofs.FlatSettings
import EditorLint.Proofs.Saving
import EditorLint.Proofs.Template

/-!
# Writing and loading the user's configuration

A form is filled in with the texts of a configuration as they are, so they are read back only
as far as YAML takes them as they are.  `loadUser_writeUser_iff` says when it does: of texts
that stand on one line, with nothing in them that ends a plain scalar or begins a comment, all
are read back exactly if none has the form of something else, such as a number, a truth value
or a date.  A text that is not like that may come back cut off (`loadUser_writeUser_comment`).

The form is a flat document.  Each key has a slot in it, which is filled if the setting is
made, and what the check of a setting is given is what stands in the slot of its key.
-/

namespace EditorLint

namespace Yaml

theorem FlatDocument.ofBytes_chars {doc : FlatDocument} (h : doc.Reads) :
    Input.ofBytes (Utf8.encodeChars doc.chars) = ⟨doc.chars, none⟩ := by
  refine Input.ofBytes_encodeChars (fun hreturn => ?_) fun ch hch => ?_
  · rcases isInline_chars h _ hreturn with h | h <;> cases h
  · rcases isInline_chars h ch hch with h | rfl
    · simp only [isInline, Bool.and_eq_true] at h
      exact h.1.1
    · rfl

end Yaml

namespace UserConfig

open Yaml

/-! ## The form is read as it stands -/

/-- Whether the texts of a configuration stand on one line and are read as they stand. -/
def IsPlain (c : UserConfig) : Prop :=
  ∀ t ∈ c.texts, Text.ofChars (charsOf t) = t ∧ ReadsPlain (charsOf t)

def fieldNames : List (List Char) :=
  ["eslint_path".toList, "shell_path".toList, "config_names".toList, "fix_on_save".toList,
    "log_level".toList]

/-- The parts that the form of a configuration may have. -/
inductive HasPart (c : UserConfig) : FlatPart → Prop where
  | remark (line : List Char) (h : Lexer.IsRemark line) : HasPart c (.remark line)
  | text (key : List Char) (hkey : key ∈ fieldNames) (t : Text) (h : t ∈ c.texts) :
    HasPart c (.entry (.text key (charsOf t)))
  | names (h : c.names ≠ []) :
    HasPart c (.entry (.list "config_names".toList (c.names.map charsOf)))
  | fixes : HasPart c (fixPart c.fixes)
  | level : HasPart c (.entry (.text "log_level".toList c.level.name.toList))

variable {c : UserConfig}

theorem hasPart_setting {name example? : String} {o : Option Text} {p : FlatPart}
    (hp : p ∈ settingParts name example? o) (hname : name.toList ∈ fieldNames)
    (hexample : Lexer.IsRemark example?.toList) (htexts : ∀ t ∈ o, t ∈ c.texts) :
    c.HasPart p := by
  match o, htexts with
  | none, _ | some [], _ =>
    rw [List.mem_singleton.mp hp]
    exact .remark _ hexample
  | some (x :: value), htexts =>
    rw [List.mem_singleton.mp hp]
    exact .text _ hname _ (htexts _ rfl)

theorem hasPart_names {p : FlatPart} (hp : p ∈ nameParts c.names) : c.HasPart p := by
  cases hnames : c.names with
  | nil =>
    rw [hnames] at hp
    rcases List.mem_cons.mp hp with rfl | hp
    · exact .remark _ (by decide)
    · rw [List.mem_singleton.mp hp]
      exact .remark _ (by decide)
  | cons t names =>
    have hne : c.names ≠ [] := by
      rw [hnames]
      exact List.cons_ne_nil t names
    rw [hnames] at hp
    rw [List.mem_singleton.mp hp, ← hnames]
    exact .names hne

theorem hasPart_level : c.HasPart (levelPart c.level) := by
  unfold levelPart
  split
  · rename_i hlevel
    rw [hlevel]
    exact .remark _ (by decide)
  · exact .level

theorem hasPart_of_mem {p : FlatPart} (hp : p ∈ c.parts) : c.HasPart p := by
  simp only [parts, List.mem_append, List.mem_cons, List.not_mem_nil, or_false] at hp
  rcases hp with ((((rfl | rfl | rfl | hp) | rfl | rfl | hp) | rfl | rfl | hp) |
    rfl | rfl | rfl | rfl | rfl | rfl)
  case inl.inl.inl.inr.inr.inr =>
    exact hasPart_setting hp (by decide) (by decide) fun t ht => by
      simp [texts, Option.mem_def.mp ht]
  case inl.inl.inr.inr.inr =>
    exact hasPart_setting hp (by decide) (by decide) fun t ht => by
      simp [texts, Option.mem_def.mp ht]
  case inl.inr.inr.inr => exact hasPart_names hp
  case inr.inr.inr.inl => exact .fixes
  case inr.inr.inr.inr.inr.inr => exact hasPart_level
  all_goals exact .remark _ (by decide +kernel)

theorem isKey_fieldNames : ∀ key ∈ fieldNames, Lexer.IsKey key := by
  intro key hkey
  simp only [fieldNames, List.mem_cons, List.not_mem_nil, or_false] at hkey
  rcases hkey with rfl | rfl | rfl | rfl | rfl <;>
    exact ⟨⟨_, rfl, by decide⟩, List.all_eq_true.mp (by decide), by decide⟩

theorem HasPart.reads {p : FlatPart} (h : c.HasPart p) (hplain : c.IsPlain) : p.Reads := by
  cases h with
  | remark line h => exact h
  | text key hkey t h => exact ⟨isKey_fieldNames key hkey, (hplain t h).2⟩
  | names h =>
    refine ⟨isKey_fieldNames _ (by decide), by simpa using h, fun item hitem => ?_⟩
    obtain ⟨t, ht, rfl⟩ := List.mem_map.mp hitem
    exact (hplain t (by simp [texts, ht])).2
  | fixes =>
    refine ⟨isKey_fieldNames _ (by decide), ?_⟩
    cases c.fixes <;> decide
  | level =>
    refine ⟨isKey_fieldNames _ (by decide), ?_⟩
    cases c.level <;> decide

theorem plainValue_truth (b : Bool) :
    PlainValue (if b then "true" else "false").toList (.plain (.bool b)) := by
  refine ⟨.bool, ?_, ?_⟩
  · cases b <;> decide +kernel
  · cases b <;> rfl

theorem resolve_level (level : Log.Level) :
    resolve (Text.ofChars level.name.toList) = standardTag "str" := by
  cases level <;> decide +kernel

/-- The texts of the form stand for something if none of the configuration has another form. -/
theorem HasPart.valued {p : FlatPart} (h : c.HasPart p) (hplain : c.IsPlain)
    (hresolve : ∀ t ∈ c.texts, resolve t = standardTag "str") :
    ∀ e ∈ p.entry?, ∀ t ∈ e.values, ∃ v, PlainValue t v := by
  have htext : ∀ t ∈ c.texts, ∃ v, PlainValue (charsOf t) v := fun t ht =>
    ⟨_, (plainValue_iff (by rw [(hplain t ht).1]; exact hresolve t ht)).mpr rfl⟩
  intro e he t ht
  cases h with
  | remark line h => cases he
  | text key hkey u h =>
    cases he
    rw [List.mem_singleton.mp ht]
    exact htext u h
  | names h =>
    cases he
    obtain ⟨u, hu, rfl⟩ := List.mem_map.mp ht
    exact htext u (by simp [texts, hu])
  | fixes =>
    cases he
    rw [List.mem_singleton.mp ht]
    exact ⟨_, plainValue_truth c.fixes⟩
  | level =>
    cases he
    rw [List.mem_singleton.mp ht]
    exact ⟨_, (plainValue_iff (resolve_level c.level)).mpr rfl⟩

/-! ## The entries of the form -/

/-- The keys that may stand in the form, each with its entry if it does. -/
def slots (c : UserConfig) : List (List Char × Option FlatEntry) :=
  [("eslint_path".toList, (c.eslint.map charsOf).map (.text "eslint_path".toList)),
    ("shell_path".toList, (c.shell.map charsOf).map (.text "shell_path".toList)),
    ("config_names".toList, if (c.names.map charsOf).isEmpty then none
      else some (.list "config_names".toList (c.names.map charsOf))),
    ("fix_on_save".toList,
      some (.text "fix_on_save".toList (if c.fixes then "true" else "false").toList)),
    ("log_level".toList, if c.level = defaultLevel then none
      else some (.text "log_level".toList c.level.name.toList))]

theorem nonempty_of_isPlain (h : c.IsPlain) : ∀ t ∈ c.texts, t ≠ [] := by
  rintro t ht rfl
  cases (h [] ht).2.begins

theorem entries_settingParts (name example? : String) {o : Option Text} (h : ∀ t ∈ o, t ≠ []) :
    (settingParts name example? o).filterMap FlatPart.entry? =
      ((o.map charsOf).map (.text name.toList)).toList := by
  match o, h with
  | none, _ => rfl
  | some [], h => exact absurd rfl (h [] rfl)
  | some (x :: value), _ => rfl

theorem entries_nameParts (names : List Text) :
    (nameParts names).filterMap FlatPart.entry? =
      (if (names.map charsOf).isEmpty then none
        else some (.list "config_names".toList (names.map charsOf))).toList := by
  cases names <;> rfl

theorem entries_levelPart (level : Log.Level) :
    [levelPart level].filterMap FlatPart.entry? =
      (if level = defaultLevel then none
        else some (.text "log_level".toList level.name.toList)).toList := by
  cases level <;> rfl

/-- The entries of the form are those of the slots that are filled. -/
theorem filterMap_parts (h : c.IsPlain) :
    c.parts.filterMap FlatPart.entry? = c.slots.filterMap (·.2) := by
  have hne := nonempty_of_isPlain h
  have heslint := entries_settingParts "eslint_path" "# eslint_path: /usr/local/bin/eslint"
    (o := c.eslint) fun t ht => hne t (by simp [texts, Option.mem_def.mp ht])
  have hshell := entries_settingParts "shell_path" "# shell_path: /bin/sh"
    (o := c.shell) fun t ht => hne t (by simp [texts, Option.mem_def.mp ht])
  unfold parts
  rw [List.filterMap_append, List.filterMap_append, List.filterMap_append]
  show (settingParts _ _ c.eslint).filterMap FlatPart.entry? ++
    (settingParts _ _ c.shell).filterMap FlatPart.entry? ++
    (nameParts c.names).filterMap FlatPart.entry? ++
    (FlatEntry.text _ _ :: [levelPart c.level].filterMap FlatPart.entry?) = _
  rw [heslint, hshell, entries_nameParts, entries_levelPart, List.filterMap_eq_flatMap_toList]
  simp only [slots, List.flatMap_cons, List.flatMap_nil, List.append_assoc, List.append_nil]
  rfl

theorem key_slots : ∀ x ∈ c.slots, ∀ e ∈ x.2, e.key = x.1 := by
  have hsome {key : List Char} {o : Option (List Char)} :
      ∀ e ∈ o.map (FlatEntry.text key), e.key = key := by
    intro e he
    obtain ⟨t, -, rfl⟩ := Option.map_eq_some_iff.mp he
    rfl
  have hnot {p : Prop} [Decidable p] {e : FlatEntry} :
      ∀ e' ∈ (if p then none else some e), e'.key = e.key := by
    intro e' he
    split at he
    · cases he
    · rw [Option.some.inj he]
  unfold slots
  simp only [List.forall_mem_cons]
  exact ⟨hsome, hsome, hnot, fun e he => by rw [← Option.some.inj he]; rfl, hnot, by simp⟩

section Slots

variable {xs : List (List Char × Option FlatEntry)} (hkeys : ∀ x ∈ xs, ∀ e ∈ x.2, e.key = x.1)
include hkeys

theorem sublist_slots : ((xs.filterMap (·.2)).map FlatEntry.key).Sublist (xs.map (·.1)) := by
  induction xs with
  | nil => exact .slnil
  | cons x xs ih =>
    obtain ⟨key, o⟩ := x
    have ih := ih fun y hy => hkeys y (List.mem_cons_of_mem _ hy)
    cases o with
    | none => exact ih.cons key
    | some e =>
      have hkey : e.key = key := hkeys _ List.mem_cons_self e rfl
      rw [List.map_cons, ← hkey]
      exact ih.cons_cons e.key

theorem find?_slot {key : List Char} {o : Option FlatEntry} (hdiffer : (xs.map (·.1)).Nodup)
    (hmem : (key, o) ∈ xs) : (xs.filterMap (·.2)).find? (·.key == key) = o := by
  induction xs with
  | nil => cases hmem
  | cons x xs ih =>
    obtain ⟨key', o'⟩ := x
    have hmore : ∀ y ∈ xs, ∀ e ∈ y.2, e.key = y.1 := fun y hy =>
      hkeys y (List.mem_cons_of_mem _ hy)
    rw [List.map_cons, List.nodup_cons] at hdiffer
    rcases List.mem_cons.mp hmem with heq | hmem
    · cases heq
      cases o with
      | some e =>
        have hkey : e.key = key := hkeys _ List.mem_cons_self e rfl
        simp [hkey]
      | none =>
        refine List.find?_eq_none.mpr fun e he hkey => hdiffer.1 ?_
        rw [← eq_of_beq hkey]
        exact (sublist_slots hmore).subset (List.mem_map_of_mem he)
    · have hne : key' ≠ key := by
        rintro rfl
        exact hdiffer.1 (List.mem_map.mpr ⟨_, hmem, rfl⟩)
      have ih := ih hmore hdiffer.2 hmem
      cases o' with
      | none => exact ih
      | some e =>
        have hkey : e.key = key' := hkeys _ List.mem_cons_self e rfl
        show (e :: xs.filterMap (·.2)).find? (·.key == key) = o
        rw [List.find?_cons_of_neg (by simpa [hkey] using hne)]
        exact ih

end Slots

/-! ## The form as a document -/

def document (c : UserConfig) : FlatDocument := .ofParts c.parts

theorem entries_document (h : c.IsPlain) :
    c.document.entries.map (·.1) = c.slots.filterMap (·.2) := by
  rw [← filterMap_parts h]
  exact FlatDocument.entries_ofParts c.parts

theorem reads_document (h : c.IsPlain) : c.document.Reads := by
  refine FlatDocument.reads_ofParts (fun p hp => (hasPart_of_mem hp).reads h) ?_
  rw [filterMap_parts h]
  have hfix : ("fix_on_save".toList,
      some (FlatEntry.text "fix_on_save".toList (if c.fixes then "true" else "false").toList)) ∈
        c.slots := List.mem_of_getElem? (show c.slots[3]? = _ from rfl)
  exact List.ne_nil_of_mem (List.mem_filterMap.mpr ⟨_, hfix, rfl⟩)

theorem named_document (h : c.IsPlain) : c.document.Named := by
  have hkeys : (c.document.entries.map (·.1.key)).Sublist fieldNames := by
    have hmap : c.document.entries.map (·.1.key) =
        (c.slots.filterMap (·.2)).map FlatEntry.key := by
      rw [← entries_document h, List.map_map]
      rfl
    rw [hmap]
    exact sublist_slots key_slots
  have hnames : ∀ key ∈ fieldNames, resolve (Text.ofChars key) = standardTag "str" := by
    decide +kernel
  exact ⟨fun x hx => hnames _ (hkeys.subset (List.mem_map.mpr ⟨x, hx, rfl⟩)),
    hkeys.nodup (by decide)⟩

/-! ## What the check of the entries takes -/

theorem check_agrees_iff {es : Entries} :
    (∃ d, check es = .valid d ∧ c.agrees d) ↔
      (∃ a, Check.optionalField [] es "eslint_path" (Check.nullable Check.text) = .valid a ∧
        a.getD none = c.eslint) ∧
      (∃ a, Check.optionalField [] es "shell_path" (Check.nullable Check.text) = .valid a ∧
        a.getD none = c.shell) ∧
      (∃ a, Check.optionalField [] es "config_names" (Check.list Check.text) = .valid a ∧
        a.getD [] = c.names) ∧
      (∃ a, Check.optionalField [] es "fix_on_save" Check.truth = .valid a ∧
        a.getD false = c.fixes) ∧
      ∃ a, Check.optionalField [] es "log_level" LogOutput.checkLevel = .valid a ∧
        a.getD defaultLevel = c.level := by
  simp only [check, Checked.map_eq_valid, Checked.both_eq_valid, agrees, Bool.and_eq_true,
    beq_iff_eq]
  constructor
  · rintro ⟨d, ⟨p, ⟨heslint, hshell, hnames, hfixes, hlevel⟩, rfl⟩,
      ⟨⟨⟨seslint, sshell⟩, snames⟩, sfixes⟩, slevel⟩
    exact ⟨⟨_, heslint, seslint.symm⟩, ⟨_, hshell, sshell.symm⟩, ⟨_, hnames, snames.symm⟩,
      ⟨_, hfixes, sfixes.symm⟩, ⟨_, hlevel, slevel.symm⟩⟩
  · rintro ⟨⟨a₁, heslint, seslint⟩, ⟨a₂, hshell, sshell⟩, ⟨a₃, hnames, snames⟩,
      ⟨a₄, hfixes, sfixes⟩, ⟨a₅, hlevel, slevel⟩⟩
    exact ⟨⟨a₁, a₂, a₃, a₄, a₅⟩,
      ⟨(a₁, a₂, a₃, a₄, a₅), ⟨heslint, hshell, hnames, hfixes, hlevel⟩, rfl⟩,
      ⟨⟨⟨seslint.symm, sshell.symm⟩, snames.symm⟩, sfixes.symm⟩, slevel.symm⟩

theorem truth_of_plainDatum {b : Bool} {d : Datum} {loc : Check.Loc}
    (h : PlainDatum (if b then "true" else "false").toList d) :
    Check.truth loc d = .valid b := by
  have hbool : shape? (resolve (Text.ofChars (if b then "true" else "false").toList)) =
      some (.scalar .bool) := by
    cases b <;> decide +kernel
  obtain ⟨v, ⟨type, hshape, hv⟩, hd⟩ := h
  rw [hbool] at hshape
  cases hshape
  cases b <;>
  · rw [← Except.ok.inj hv] at hd
    rw [← Option.some.inj hd]
    rfl

theorem checkLevel_of_plainDatum {level : Log.Level} {d : Datum} {loc : Check.Loc}
    (h : PlainDatum level.name.toList d) : LogOutput.checkLevel loc d = .valid level := by
  obtain ⟨v, hv, hd⟩ := h
  rw [(plainValue_iff (resolve_level level)).mp hv] at hd
  rw [← Option.some.inj hd]
  cases level <;> rfl

theorem optional_charsOf {o : Option Text} (h : ∀ t ∈ o, Text.ofChars (charsOf t) = t) :
    (o.map charsOf).map Text.ofChars = o ∧
      ((∀ s ∈ o.map charsOf, resolve (Text.ofChars s) = standardTag "str") ↔
        ∀ t ∈ o, resolve t = standardTag "str") := by
  cases o with
  | none => simp
  | some t => simp [h t rfl]

theorem list_charsOf {ts : List Text} (h : ∀ t ∈ ts, Text.ofChars (charsOf t) = t) :
    (ts.map charsOf).map Text.ofChars = ts ∧
      ((∀ s ∈ ts.map charsOf, resolve (Text.ofChars s) = standardTag "str") ↔
        ∀ t ∈ ts, resolve t = standardTag "str") := by
  induction ts with
  | nil => simp
  | cons t ts ih =>
    obtain ⟨ht, hts⟩ := List.forall_mem_cons.mp h
    obtain ⟨hmap, hall⟩ := ih hts
    exact ⟨by rw [List.map_cons, List.map_cons, ht, hmap],
      by rw [List.map_cons, List.forall_mem_cons, List.forall_mem_cons, ht, hall]⟩

theorem forall_texts {p : Text → Prop} : (∀ t ∈ c.texts, p t) ↔
    (∀ t ∈ c.eslint, p t) ∧ (∀ t ∈ c.shell, p t) ∧ ∀ t ∈ c.names, p t := by
  simp [texts, or_imp, forall_and]

/-- The check of the entries that the form is read as takes the configuration again exactly
if no text in it has another form. -/
theorem check_document_iff (h : c.IsPlain) {ds : Entries}
    (hds : List.Forall₂ FlatEntry.Means (c.slots.filterMap (·.2)) ds) :
    (∃ d, check ds = .valid d ∧ c.agrees d) ↔ ∀ t ∈ c.texts, resolve t = standardTag "str" := by
  have hslot {i : Nat} {key : List Char} {o : Option FlatEntry}
      (hi : c.slots[i]? = some (key, o)) : (c.slots.filterMap (·.2)).find? (·.key == key) = o :=
    find?_slot key_slots (show fieldNames.Nodup by decide) (List.mem_of_getElem? hi)
  have heslint := optionalText_iff hds [] (hslot (i := 0) rfl)
  have hshell := optionalText_iff hds [] (hslot (i := 1) rfl)
  have hnames := optionalTexts_iff hds [] (hslot (i := 2) rfl)
  have hfixes : Check.optionalField [] ds "fix_on_save" Check.truth = .valid (some c.fixes) :=
    optionalField_text hds [] (hslot (i := 3) rfl) fun _ => truth_of_plainDatum
  have hlevel : ∃ a, Check.optionalField [] ds "log_level" LogOutput.checkLevel = .valid a ∧
      a.getD defaultLevel = c.level := by
    -- The level that holds anyway is not written, and is the default again.
    have hentry := hslot (i := 4) rfl
    by_cases hdefault : c.level = defaultLevel
    · rw [if_pos hdefault] at hentry
      exact ⟨none, Check.optionalField_eq_valid.mpr (by rw [given_none hds hentry]),
        hdefault.symm⟩
    · rw [if_neg hdefault] at hentry
      exact ⟨_, optionalField_text hds [] hentry fun _ => checkLevel_of_plainDatum, rfl⟩
  obtain ⟨hplain₁, hplain₂, hplain₃⟩ := forall_texts.mp fun t ht => (h t ht).1
  obtain ⟨heslint', hresolve₁⟩ := optional_charsOf hplain₁
  obtain ⟨hshell', hresolve₂⟩ := optional_charsOf hplain₂
  obtain ⟨hnames', hresolve₃⟩ := list_charsOf hplain₃
  rw [heslint', hresolve₁] at heslint
  rw [hshell', hresolve₂] at hshell
  rw [hnames', hresolve₃] at hnames
  rw [check_agrees_iff, forall_texts, heslint, hshell, hnames]
  exact ⟨fun hall => ⟨hall.1, hall.2.1, hall.2.2.1⟩, fun hall =>
    ⟨hall.1, hall.2.1, hall.2.2, ⟨_, hfixes, rfl⟩, hlevel⟩⟩

end UserConfig

theorem FileSystem.contains_of_read {fs : FileSystem} {cwd p : Path} {bytes : List UInt8}
    (h : fs.read cwd p = .ok bytes) : fs.contains cwd p = .ok true := by
  unfold read at h
  unfold contains
  split at h
  · rename_i hfound
    rw [hfound]
  all_goals cases h

namespace ConfigFile

open Yaml UserConfig

theorem loadUser_of_read {m : Machine} {path : Path} {bytes : List UInt8}
    (h : m.files.read m.cwd path = .ok bytes) :
    loadUser m path =
      (document path bytes).bind fun d => userOf path (if d.isTruthy then d else .mapping []) := by
  have hprobe : m.probe path = .ok true := FileSystem.contains_of_read h
  unfold loadUser load
  rw [hprobe, h]
  show Except.bind ((document path bytes).bind fun d => .ok (if d.isTruthy then d else .mapping []))
    (userOf path) = _
  cases document path bytes <;> rfl

theorem userOf_means {path : Path} {es : List FlatEntry} {ds : Entries}
    (h : List.Forall₂ FlatEntry.Means es ds) :
    userOf path (.mapping ds) = (UserConfig.check ds).toExcept.mapError rejection := by
  have hkeys : hasTextKeys ds = true := by
    refine List.all_eq_true.mpr fun x hx => ?_
    obtain ⟨k, d⟩ := x
    obtain ⟨e, -, hmeans⟩ := forall₂_right h _ hx
    rw [hmeans.key]
    rfl
  unfold userOf
  simp only [Datum.opened, hkeys, if_true]

/-- A flat document in a file is loaded exactly if it has a value, and its entries pass their
checks. -/
theorem loadUser_chars_iff {m : Machine} {path : Path} {doc : FlatDocument} {c : UserConfig}
    (hread : m.files.read m.cwd path = .ok (Utf8.encodeChars doc.chars)) (h : doc.Reads)
    (hnamed : doc.Named) :
    loadUser m path = .ok c ↔ ∃ ds, readValue ⟨doc.chars, none⟩ = .ok (.mapping ds) ∧
      UserConfig.check ds = .valid c := by
  obtain ⟨hmapping, -⟩ := doc.readValue_chars h hnamed
  rw [loadUser_of_read hread]
  unfold document
  rw [FlatDocument.ofBytes_chars h]
  cases hvalue : readValue ⟨doc.chars, none⟩ with
  | error e => exact iff_of_false (fun he => by cases he) (fun ⟨_, hd, _⟩ => by cases hd)
  | ok d =>
    obtain ⟨ds, rfl, hds⟩ := hmapping d hvalue
    -- A mapping with entries counts as something, so it is what is checked.
    have hne : ds ≠ [] := by
      rintro rfl
      have hentries := List.map_eq_nil_iff.mp (List.forall₂_nil_right_iff.mp hds)
      exact h.nonempty hentries
    have htruthy : (Datum.mapping ds).isTruthy = true := by
      cases ds with
      | nil => exact absurd rfl hne
      | cons x ds => rfl
    show userOf path (if (Datum.mapping ds).isTruthy then .mapping ds else .mapping []) = _ ↔ _
    rw [if_pos htruthy, userOf_means hds]
    constructor
    · intro hcheck
      refine ⟨ds, rfl, Checked.toExcept_eq_ok.mp ?_⟩
      cases hresult : (UserConfig.check ds).toExcept with
      | error f =>
        rw [hresult] at hcheck
        cases hcheck
      | ok d =>
        rw [hresult] at hcheck
        exact hcheck
    · rintro ⟨ds', hds', hcheck⟩
      cases hds'
      rw [hcheck]
      rfl

/-- Where a configuration can be written whose texts stand on one line and are read as they
stand, it is written, and what is loaded then agrees with it exactly if none of its texts has
the form of something else. -/
theorem loadUser_writeUser_iff (m : Machine) (path : Path) {c : UserConfig} (hplain : c.IsPlain)
    {fs emptied : FileSystem} (hdirectory : m.files.provideDirectory m.cwd path.parent = .ok fs)
    (hopen : fs.write m.cwd path [] = .ok emptied) :
    (writeUser m.files m.cwd path c).2 = .ok () ∧
      ((∃ d, loadUser { m with files := (writeUser m.files m.cwd path c).1 } path = .ok d ∧
          c.agrees d) ↔
        ∀ t ∈ c.texts, resolve t = standardTag "str") := by
  have hbytes : Encoding.utf8.encode c.template = .ok (Utf8.encodeChars c.document.chars) := by
    show (Utf8.encode c.template).mapError Failure.ofSurrogate = _
    unfold Utf8.encode
    rw [template_eq fun t ht => (hplain t ht).1, Text.chars?_ofChars]
    rfl
  have hwrite : writeUser m.files m.cwd path c =
      TextFile.write fs m.cwd path Encoding.utf8.encode c.template := by
    unfold writeUser
    rw [hdirectory]
  obtain ⟨hok, hread⟩ := TextFile.write_encodable hopen hbytes
  rw [hwrite]
  refine ⟨hok, ?_⟩
  -- From here on the file is a flat document, of which the value is known.
  have hreads := reads_document hplain
  have hnamed := named_document hplain
  obtain ⟨hmapping, hvalued⟩ := c.document.readValue_chars hreads hnamed
  let written : Machine :=
    { m with files := (TextFile.write fs m.cwd path Encoding.utf8.encode c.template).1 }
  have hload (d : UserConfig) := loadUser_chars_iff (m := written) (c := d) hread hreads hnamed
  simp only [written] at hload
  simp only [hload]
  constructor
  · rintro ⟨d, ⟨ds, hvalue, hcheck⟩, hagrees⟩
    obtain ⟨_, heq, hds⟩ := hmapping _ hvalue
    cases heq
    rw [entries_document hplain] at hds
    exact (check_document_iff hplain hds).mp ⟨d, hcheck, hagrees⟩
  · intro hresolve
    obtain ⟨v, hvalue⟩ := hvalued fun x hx t ht => by
      have hentry : x.1 ∈ c.parts.filterMap FlatPart.entry? := by
        rw [← FlatDocument.entries_ofParts]
        exact List.mem_map_of_mem hx
      obtain ⟨p, hp, he⟩ := List.mem_filterMap.mp hentry
      exact (hasPart_of_mem hp).valued hplain hresolve x.1 he t ht
    obtain ⟨ds, rfl, hds⟩ := hmapping v hvalue
    rw [entries_document hplain] at hds
    obtain ⟨d, hcheck, hagrees⟩ := (check_document_iff hplain hds).mpr hresolve
    exact ⟨d, ⟨ds, hvalue, hcheck⟩, hagrees⟩

/-- Paths, a name and a level that all read back, in a directory that is made for them. -/
theorem loadUser_writeUser_paths :
    let m : Machine := ⟨.empty, ⟨.slash, []⟩, [], .alone "/root"⟩
    let path : Path := ⟨.slash, [".nanolint", "config.yaml"]⟩
    let c : UserConfig := ⟨some (some "/usr/local/bin/eslint"), some (some "/bin/sh -l"),
      some [".eslintrc.json", "eslint.config.ts"], some true, some .info⟩
    c.IsPlain ∧ (writeUser m.files m.cwd path c).2 = .ok () ∧
      ∃ d, loadUser { m with files := (writeUser m.files m.cwd path c).1 } path = .ok d ∧
        c.agrees d := by
  intro m path c
  have hplain : c.IsPlain := by
    unfold UserConfig.IsPlain
    decide +kernel
  have hwritten := loadUser_writeUser_iff m path hplain rfl rfl
  exact ⟨hplain, hwritten.1, hwritten.2.mpr (by decide +kernel)⟩

/-- A path with a comment in it is written, and what is loaded then ends before the comment. -/
theorem loadUser_writeUser_comment :
    let m : Machine := ⟨.empty, ⟨.slash, []⟩, [], .alone "/root"⟩
    let path : Path := ⟨.slash, [".nanolint", "config.yaml"]⟩
    let c : UserConfig := { UserConfig.empty with eslintPath := some (some "a # b") }
    (writeUser m.files m.cwd path c).2 = .ok () ∧
      ∃ d, loadUser { m with files := (writeUser m.files m.cwd path c).1 } path = .ok d ∧
        d.eslint = some (Text.ofString "a") ∧ ¬c.agrees d := by
  intro m path c
  have hload : (loadUser { m with files := (writeUser m.files m.cwd path c).1 } path).toOption.map
      (fun d => (d.eslint, c.agrees d)) = some (some (Text.ofString "a"), false) := by
    decide +kernel
  have hwrite : (writeUser m.files m.cwd path c).2.toOption = some () := by decide +kernel
  obtain ⟨d, hd, hboth⟩ := exists_ok_of_toOption hload
  obtain ⟨heslint, hagrees⟩ := Prod.mk.inj hboth
  exact ⟨ok_of_toOption hwrite, d, hd, heslint, by simp [hagrees]⟩

end ConfigFile

end EditorLint
