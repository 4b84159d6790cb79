import EditorLint.Proofs.Checks
import EditorLint.Proofs.FlatValue
import EditorLint.Proofs.Setting

/-!
# Settings in a flat document

What the checks of settings make of a flat document.  They take a plain scalar as a text
exactly if it has no other form: of one that has, no check that wants a text gets its
characters (`written?_iff`).
-/

namespace EditorLint

/-! ## Checks of texts -/

namespace Checked

theorem all_map_eq_valid {ι α : Type} {check : ι → Checked α} {is : List ι} {as : List α} :
    all (is.map check) = valid as ↔ List.Forall₂ (fun i a => check i = valid a) is as := by
  induction is generalizing as with
  | nil =>
    rw [List.forall₂_nil_left_iff]
    simp [all, eq_comm]
  | cons i is ih =>
    rw [List.map_cons, all, map_eq_valid, List.forall₂_cons_left_iff]
    simp only [both_eq_valid, ih]
    constructor
    · rintro ⟨⟨a, as⟩, ⟨ha, has⟩, rfl⟩
      exact ⟨a, as, ha, has, rfl⟩
    · rintro ⟨a, as, ha, has, rfl⟩
      exact ⟨(a, as), ⟨ha, has⟩, rfl⟩

end Checked

namespace Check

theorem texts_eq_valid {loc : Loc} {ds : List Datum} {ts : List Text} :
    list text loc (.list ds) = .valid ts ↔ List.Forall₂ (fun d t => d.written? = some t) ds ts := by
  have hsnd : ((places loc ds.length).zip ds).map (·.2) = ds :=
    List.map_snd_zip (by simp [places])
  show Checked.all (((places loc ds.length).zip ds).map fun x => text x.1 x.2) = _ ↔ _
  rw [Checked.all_map_eq_valid]
  simp only [text_valid_iff]
  conv => rhs; rw [← hsnd]
  exact (List.forall₂_map_left_iff (R := fun d t => Datum.written? d = some t)).symm

theorem nullable_text_eq_valid {loc : Loc} {d : Datum} {t : Text} :
    nullable text loc d = .valid (some t) ↔ d.written? = some t := by
  cases d with
  | null => simp [nullable, Datum.written?]
  | _ =>
    rw [← text_valid_iff loc]
    simp [nullable, Checked.map_eq_valid]

end Check

namespace Yaml

/-! ## What plain scalars are to checks -/

theorem written?_stampValue {t : Text} {d : Datum} (h : stampValue t = .ok d) :
    d.written? = none := by
  unfold stampValue at h
  simp only [bind, Except.bind, pure, Except.pure] at h
  repeat' split at h
  all_goals
    cases h
    try rfl

theorem written?_ofScalar {type : ScalarType} {tag t : Text} {mark : Mark} {v : Value} {d : Datum}
    (h : Value.ofScalar type (.scalar tag t mark) t = .ok v)
    (hd : v.datum? (fun _ => none) = some d) (htext : type ≠ .text) (hbinary : type ≠ .binary) :
    d.written? = none := by
  cases type with
  | text => exact absurd rfl htext
  | binary => exact absurd rfl hbinary
  | null =>
    rw [← Except.ok.inj h] at hd
    rw [← Option.some.inj hd]
    rfl
  | bool | int =>
    obtain ⟨x, -, rfl⟩ := map_eq_ok h
    rw [← Option.some.inj hd]
    rfl
  | float =>
    obtain ⟨x, -, rfl⟩ := map_eq_ok h
    cases x <;>
    · rw [← Option.some.inj hd]
      rfl
  | stamp =>
    obtain ⟨x, hx, rfl⟩ := map_eq_ok h
    rw [← Option.some.inj hd]
    cases hstamp : stampValue t with
    | error e =>
      rw [stampOf, hstamp] at hx
      cases hx
    | ok d' =>
      rw [stampOf, hstamp] at hx
      rw [← Except.ok.inj hx]
      exact written?_stampValue hstamp

/-- A plain scalar is a text to a check if it has no other form. -/
theorem PlainDatum.written?_iff {t : List Char} {d : Datum} (h : PlainDatum t d) :
    d.written? = some (Text.ofChars t) ↔ resolve (Text.ofChars t) = standardTag "str" := by
  have hbinary : ∀ name ∈ formNames, shape? (standardTag name) ≠ some (.scalar .binary) := by decide
  have htext : ∀ name ∈ formNames,
      shape? (standardTag name) = some (.scalar .text) → name = "str" := by decide
  have hstr : shape? (standardTag "str") = some (.scalar .text) := by decide
  obtain ⟨v, ⟨type, hshape, hv⟩, hd⟩ := h
  obtain ⟨name, hname, htag⟩ := resolve_eq (Text.ofChars t)
  by_cases htype : type = .text
  · subst htype
    refine iff_of_true ?_ ?_
    · rw [← Except.ok.inj hv] at hd
      rw [← Option.some.inj hd]
      rfl
    · rw [htag, htext name hname (htag ▸ hshape)]
  · have hnot : type ≠ .binary := by
      rintro rfl
      exact hbinary name hname (htag ▸ hshape)
    rw [written?_ofScalar hv hd htype hnot]
    refine iff_of_false (by simp) fun hresolve => htype ?_
    rw [hresolve, hstr] at hshape
    cases hshape
    rfl

theorem written?_all_iff {items : List (List Char)} {ds : List Datum}
    (h : List.Forall₂ PlainDatum items ds) :
    List.Forall₂ (fun d t => d.written? = some t) ds (items.map Text.ofChars) ↔
      ∀ t ∈ items, resolve (Text.ofChars t) = standardTag "str" := by
  induction h with
  | nil => simp
  | cons hd _ ih =>
    rw [List.map_cons, List.forall₂_cons, hd.written?_iff, ih, List.forall_mem_cons]

/-! ## What is given in a flat document -/

theorem ofChars_beq (s t : List Char) : (Text.ofChars s == Text.ofChars t) = (s == t) := by
  have hinj : Function.Injective Text.ofChars :=
    List.map_injective_iff.mpr fun _ _ h => Code.scalar.inj h
  rw [Bool.eq_iff_iff, beq_iff_eq, beq_iff_eq]
  exact hinj.eq_iff

theorem FlatEntry.Means.key {e : FlatEntry} {k d : Datum} (h : e.Means (k, d)) :
    k = .text (Text.ofChars e.key) := by
  cases e <;> exact h.1

section Given

variable {es : List FlatEntry} {ds : Entries} (h : List.Forall₂ FlatEntry.Means es ds)
  {name : String} (loc : Check.Loc)
include h

/-- What a document gives under a name is what the first entry with this key means. -/
theorem rel_given (name : String) :
    Option.Rel (fun e d => FlatEntry.Means e (.string name, d))
      (es.find? (·.key == name.toList)) (Check.given name ds) := by
  induction h with
  | nil => exact .none
  | @cons e x es ds he _ ih =>
    obtain ⟨k, d⟩ := x
    have hkey : k.sameKey (.string name) = (e.key == name.toList) := by
      rw [he.key]
      exact ofChars_beq e.key name.toList
    unfold Check.given Entries.get?
    rw [hkey, List.find?_cons]
    cases hname : e.key == name.toList with
    | false => exact ih
    | true =>
      have hk : k = .string name := by
        rw [he.key, eq_of_beq hname]
        rfl
      exact .some (hk ▸ he)

theorem given_none (hentry : es.find? (·.key == name.toList) = none) :
    Check.given name ds = none := by
  have hrel := rel_given h name
  rw [hentry] at hrel
  cases hgiven : Check.given name ds with
  | none => rfl
  | some d =>
    rw [hgiven] at hrel
    cases hrel

theorem given_entry {e : FlatEntry} (hentry : es.find? (·.key == name.toList) = some e) :
    ∃ d, Check.given name ds = some d ∧ e.Means (.string name, d) := by
  have hrel := rel_given h name
  rw [hentry] at hrel
  cases hgiven : Check.given name ds with
  | none =>
    rw [hgiven] at hrel
    cases hrel
  | some d =>
    rw [hgiven] at hrel
    cases hrel with
    | some hmeans => exact ⟨d, rfl, hmeans⟩

/-- The text of an entry is taken as it stands there if it has no other form. -/
theorem optionalText_iff {o : Option (List Char)}
    (hentry : es.find? (·.key == name.toList) = o.map (.text name.toList)) :
    (∃ a, Check.optionalField loc ds name (Check.nullable Check.text) = .valid a ∧
        a.getD none = o.map Text.ofChars) ↔
      ∀ t ∈ o, resolve (Text.ofChars t) = standardTag "str" := by
  simp only [Check.optionalField_eq_valid]
  cases o with
  | none =>
    rw [given_none h hentry]
    simp
  | some t =>
    obtain ⟨d, hgiven, -, hd⟩ := given_entry h hentry
    rw [hgiven]
    simp only [Option.mem_def, Option.some.injEq, forall_eq', Option.map_some]
    rw [← hd.written?_iff, ← Check.nullable_text_eq_valid]
    constructor
    · rintro ⟨_, ⟨a, ha, rfl⟩, rfl⟩
      exact ha
    · intro ha
      exact ⟨_, ⟨_, ha, rfl⟩, rfl⟩

/-- The texts of an entry are taken as they stand there if they have no other form. -/
theorem optionalTexts_iff {items : List (List Char)}
    (hentry : es.find? (·.key == name.toList) =
      if items.isEmpty then none else some (.list name.toList items)) :
    (∃ a, Check.optionalField loc ds name (Check.list Check.text) = .valid a ∧
        a.getD [] = items.map Text.ofChars) ↔
      ∀ t ∈ items, resolve (Text.ofChars t) = standardTag "str" := by
  simp only [Check.optionalField_eq_valid]
  cases items with
  | nil =>
    rw [given_none h hentry]
    simp
  | cons item more =>
    obtain ⟨_, hgiven, -, ds', rfl, hds⟩ := given_entry h hentry
    rw [hgiven, ← written?_all_iff hds, ← Check.texts_eq_valid]
    constructor
    · rintro ⟨_, ⟨ts, hts, rfl⟩, hsame⟩
      rw [← hsame]
      exact hts
    · intro hts
      exact ⟨_, ⟨_, hts, rfl⟩, rfl⟩

/-- An entry is taken as what a check makes of all that its text can stand for. -/
theorem optionalField_text {α : Type} {check : Check.Loc → Datum → Checked α} {a : α}
    {value : List Char} (hentry : es.find? (·.key == name.toList) = some (.text name.toList value))
    (hcheck : ∀ d, PlainDatum value d → check (loc ++ [Text.ofString name]) d = .valid a) :
    Check.optionalField loc ds name check = .valid (some a) := by
  obtain ⟨d, hgiven, -, hd⟩ := given_entry h hentry
  rw [Check.optionalField_eq_valid, hgiven]
  exact ⟨a, hcheck d hd, rfl⟩

end Given

end Yaml

end EditorLint
