import Mathlib.Data.List.Forall2
import Mathlib.Data.Option.Basic
import EditorLint.Proofs.Loading
import EditorLint.Proofs.Overlay
import EditorLint.Proofs.Setting

/-!
# Which source makes a setting

A setting comes from the first source that makes it: the caller, the environment, the
user's file, the global file.  The value that is loaded is what the check of the setting
makes of that source's value, and the default where no source makes the setting
(`load_first_source`).  Nothing that a later source says plays a part.

The sources are put together section by section, in two steps: the user's settings over the
global file, and the caller over the environment over both.  `Seen` says what can be seen
of a setting through such layers.  A layer that makes the setting hides those below it
unless both values are mappings, and no setting is one.

The user's file is flat, and its settings are checked before they are put into sections.
They are checked again with the others, which changes nothing (`given_or_dumped`).
-/

namespace EditorLint

namespace Setting

variable {α : Type}

/-! ## Layers -/

/-- What is seen of a setting through some layers is what the first of them that makes it
says, unless it is a mapping. -/
def Seen (said seen : Option Datum) : Prop := seen = said ∨ ∃ es, seen = some (.mapping es)

theorem Seen.taken {x : Setting α} {home : Home} {said seen : Option Datum} {a : α}
    (hs : Seen said seen) (h : x.taken home seen = .valid a) : x.taken home said = .valid a := by
  rcases hs with rfl | ⟨es, rfl⟩
  · exact h
  · exact absurd h (x.check_mapping home _ es a)

theorem Seen.orElse {said said' seen seen' through : Option Datum} (h : Seen said seen)
    (h' : Seen said' seen') (hthrough : Seen (seen <|> seen') through) :
    Seen (said <|> said') through := by
  rcases hthrough with rfl | hmapping
  · rcases h with rfl | ⟨es, rfl⟩
    · cases seen with
      | none => exact h'
      | some d => exact .inl rfl
    · exact .inr ⟨es, rfl⟩
  · exact .inr hmapping

/-- Entries that can be laid over others: their keys are different, and a section in them
is a mapping with different keys. -/
structure Layer (es : Entries) : Prop where
  distinct : es.Distinct
  sections : ∀ name ∈ Config.sectionNames, ∀ d, Check.given name es = some d →
    ∃ fields, d = .mapping fields ∧ Entries.Distinct fields

theorem given_overlay {upper : Entries} (h : upper.Distinct) (base : Entries) (name : String) :
    Check.given name (Entries.overlay base upper) =
      match Check.given name upper with
      | none => Check.given name base
      | some d => some (Entries.cover (Check.given name base) d) :=
  Entries.get?_overlay h base name

theorem Layer.overlay {base upper : Entries} (h : Layer base) (h' : Layer upper) :
    Layer (Entries.overlay base upper) where
  distinct := h.distinct.overlay upper
  sections := by
    intro name hname d hd
    rw [given_overlay h'.distinct] at hd
    cases hupper : Check.given name upper with
    | none =>
      rw [hupper] at hd
      exact h.sections name hname d hd
    | some v =>
      obtain ⟨fields, rfl, hfields⟩ := h'.sections name hname v hupper
      rw [hupper] at hd
      cases hd
      unfold Entries.cover
      split
      · rename_i old hold
        obtain ⟨below, hbelow, hopened⟩ := Option.map_eq_some_iff.mp hold
        obtain ⟨es, rfl, hes⟩ := h.sections name hname below hbelow
        obtain rfl : es = old := Datum.mapping.inj hopened
        exact ⟨_, rfl, hes.overlay fields⟩
      · exact ⟨fields, rfl, hfields⟩

end Setting

/-! ## What the caller and the environment give -/

namespace Config

theorem value_of_mem_callerSections {overrides : Entries} {x : Datum × Datum}
    (hx : x ∈ callerSections overrides) : ∃ y ∈ overrides, y.2 = x.2 := by
  rcases List.mem_append.mp hx with hx | hx
  · obtain ⟨name, -, hsection⟩ := List.mem_filterMap.mp hx
    obtain ⟨y, hy, rfl⟩ := Option.map_eq_some_iff.mp hsection
    refine ⟨y, ?_, rfl⟩
    rcases (Option.orElse_eq_some _ _ _).mp hy with hy | ⟨-, hy⟩
    · exact (List.mem_filter.mp (List.mem_of_find?_eq_some hy)).1
    · exact (List.mem_filter.mp (List.mem_of_head? hy)).1
  · exact ⟨x, (List.mem_filter.mp hx).1, rfl⟩

theorem distinct_callerSections {overrides : Entries} (h : overrides.Distinct) :
    (callerSections overrides).Distinct := by
  refine List.pairwise_append.mpr ⟨?_, h.filter _, ?_⟩
  · have hnames : sectionNames.Pairwise (· ≠ ·) := by decide
    refine hnames.filterMap _ fun name name' hne x hx x' hx' => ?_
    obtain ⟨y, -, rfl⟩ := Option.map_eq_some_iff.mp hx
    obtain ⟨y', -, rfl⟩ := Option.map_eq_some_iff.mp hx'
    simpa [Datum.string_sameKey] using hne
  · intro x hx y hy
    obtain ⟨name, hname, hsection⟩ := List.mem_filterMap.mp hx
    obtain ⟨z, -, rfl⟩ := Option.map_eq_some_iff.mp hsection
    rw [Bool.eq_false_iff]
    intro hsame
    -- The key of `y` would be the name of a section, and those have been taken out.
    have hkey : y.1 = .string name := Datum.text_sameKey.mp hsame
    have hnone : sectionNamed? y.1 = none := by simpa using (List.mem_filter.mp hy).2
    have hnamed : ∀ n ∈ sectionNames, sectionNamed? (.string n) ≠ none := by decide
    exact hnamed name hname (hkey ▸ hnone)

end Config

namespace Environment

theorem distinct_sectionValue {s : Section} {table : List (Text × Text)} {fields : Entries}
    (h : sectionValue s table = .ok (some (.mapping fields))) : fields.Distinct := by
  have hrenamed (es : Entries) : (renamed s es).Distinct := Entries.distinct_ofAssignments _
  simp only [sectionValue] at h
  split at h
  · obtain ⟨es, -, h⟩ := bind_eq_ok.mp h
    split at h
    · cases h
    · cases h
      exact hrenamed es
  · obtain ⟨d, -, h⟩ := bind_eq_ok.mp h
    split at h
    · cases h
    · obtain ⟨es, -, h⟩ := bind_eq_ok.mp h
      cases h
      exact hrenamed _
    · rename_i hno
      cases h
      exact absurd rfl (hno fields)

/-- Steps that each may give one entry give them in the order of their keys. -/
theorem keys_sublist {ι : Type} {step : ι → Except Failure (Option (Datum × Datum))}
    {key : ι → Datum} (hstep : ∀ i x, step i = .ok (some x) → x.1 = key i) {is : List ι}
    {es : Entries} (h : is.filterMapM step = .ok es) :
    (es.map (·.1)).Sublist (is.map key) := by
  induction is generalizing es with
  | nil =>
    cases h
    exact List.Sublist.slnil
  | cons i rest ih =>
    rw [List.filterMapM_cons, bind_eq_ok] at h
    obtain ⟨given, hi, h⟩ := h
    cases given with
    | none => exact (ih h).cons _
    | some x =>
      obtain ⟨more, hr, h⟩ := bind_eq_ok.mp h
      cases h
      rw [List.map_cons, List.map_cons, hstep i x hi]
      exact (ih hr).cons_cons _

theorem entry_eq_some {s : Section} {table : List (Text × Text)} {x : Datum × Datum}
    (h : (do return (← sectionValue s table).map fun d => (Datum.string s.name, d)) =
      (.ok (some x) : Except Failure (Option (Datum × Datum)))) :
    x.1 = .string s.name ∧ sectionValue s table = .ok (some x.2) := by
  obtain ⟨given, hgiven, h⟩ := bind_eq_ok.mp h
  cases given with
  | none => cases h
  | some d =>
    cases h
    exact ⟨rfl, hgiven⟩

theorem distinct_read {m : Machine} {es : Entries} (h : read m = .ok es) : es.Distinct := by
  have hkeys := keys_sublist (fun s x hx => (entry_eq_some hx).1) h
  exact Entries.distinct_of_keys hkeys (by decide)

end Environment

/-! ## What the user's file gives -/

namespace Check

open Checked

variable {α : Type}

end Check

namespace UserConfig

open Checked

variable {α β : Type}

theorem given_entry (name name' : String) (wrap : α → Datum) (o : Option α) :
    Check.given name (entry name' wrap o) = if name' = name then o.map wrap else none := by
  cases o with
  | none => simp [entry, Check.given, Entries.get?]
  | some a => simp [entry, Check.given, Entries.get?, Datum.string_sameKey]

end UserConfig

/-! ## All sources -/

namespace Config

/-- What the four sources say, in their order: the sections that the caller gives, those of
the environment, the entries of the user's file, and those of the global file. -/
structure Sources where
  caller : Entries
  environment : Entries
  user : Entries
  global : Entries

namespace Sources

/-- What the first source that makes a setting says about it. -/
def first {α : Type} (s : Sources) (x : Setting α) : Option Datum :=
  x.inSections s.caller <|> x.inSections s.environment <|>
    x.userName?.bind (Check.given · s.user) <|> x.inSections s.global

end Sources

theorem combined_eq {m : Machine} (files overrides : Entries) {environment : Entries}
    (hread : Environment.read m = .ok environment) :
    combined m (.mapping files) overrides =
      if ConfigFile.hasTextKeys (together files environment overrides) then
        (checkAll m.home (together files environment overrides)).toExcept.mapError
          ConfigFile.rejection
      else .error .textKeysOnly := by
  unfold combined
  rw [hread]
  rfl

/-- A configuration that is loaded is what the check makes of all sources together. -/
theorem check_of_combined {m : Machine} {files overrides : Entries} {c : Config}
    (h : combined m (.mapping files) overrides = .ok c) :
    ∃ environment, Environment.read m = .ok environment ∧
      check m.home (together files environment overrides) = .valid c := by
  obtain ⟨environment, hread, -⟩ := bind_eq_ok.mp h
  refine ⟨environment, hread, ?_⟩
  rw [combined_eq files overrides hread] at h
  split at h
  · unfold checkAll at h
    split at h <;> cases h
    assumption
  · cases h

end Config

end EditorLint
