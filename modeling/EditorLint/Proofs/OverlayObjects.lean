import Mathlib.Data.List.Forall2
import EditorLint.Proofs.OverlayLaws
import EditorLint.Settings.Load

/-!
# Overlays of objects

A mapping may be an object: others refer to it, and it can be changed in place.  To overlay two
such mappings, the lower one is copied, and the entries of the upper one are assigned to the
copy one after the other; where both have mappings at a key, what is assigned is their overlay,
made in the same way (`Fills`).  A copy is flat, so it shares with the original what that
refers to.

No object that was there before is changed by that, however the two share their parts
(`Fills.frame`).  So all that could be read before is read as it was, and what is read of the
new mapping is the overlay of what is read of the two (`exists_fills`).
-/

namespace EditorLint

namespace Objects

/-! ## Objects and what is read of them -/

/-- What an object refers to: a value that is none, or an object by its number. -/
inductive Slot where
  | plain (d : Datum)
  | object (i : Nat)

/-- The slots of a mapping, by their keys. -/
abbrev Slots := List (Text × Slot)

/-- A mapping or a list. -/
inductive Object where
  | mapping (slots : Slots)
  | list (items : List Slot)

abbrev Store := List Object

/-- Slots with another one at a key: in place where the key stands, at the end where it does
not. -/
def put (key : Text) (v : Slot) : Slots → Slots
  | [] => [(key, v)]
  | (k, w) :: rest => if k = key then (k, v) :: rest else (k, w) :: put key v rest

/-- The store in which a slot has been assigned to a key of a mapping. -/
def Store.assign (σ : Store) (i : Nat) (key : Text) (v : Slot) : Store :=
  match σ[i]? with
  | some (.mapping slots) => σ.set i (.mapping (put key v slots))
  | _ => σ

/-- The slots of the mapping that a slot refers to. -/
def Store.mapping? (σ : Store) : Slot → Option Slots
  | .object i =>
    match σ[i]? with
    | some (.mapping slots) => some slots
    | _ => none
  | .plain _ => none

/-- The slots of the mappings that stand at a key of a mapping and in another slot, if both are
mappings. -/
def Store.meet? (σ : Store) (i : Nat) (key : Text) (v : Slot) : Option (Slots × Slots) :=
  (((σ.mapping? (.object i)).bind (·.lookup key)).bind σ.mapping?).bind fun below =>
    (σ.mapping? v).map fun above => (below, above)

/-- Slots are assigned to a mapping one after the other.  Where mappings meet, a copy of the one
that is there is filled with the slots of the other one, and takes its place. -/
inductive Fills : Store → Nat → Slots → Store → Prop where
  | done {σ : Store} {i : Nat} : Fills σ i [] σ
  | merged {σ σ' σ'' : Store} {i : Nat} {key : Text} {v : Slot} {below above rest : Slots}
    (both : σ.meet? i key v = some (below, above))
    (inner : Fills (σ ++ [.mapping below]) σ.length above σ')
    (more : Fills (σ'.assign i key (.object σ.length)) i rest σ'') :
    Fills σ i ((key, v) :: rest) σ''
  | replaced {σ σ' : Store} {i : Nat} {key : Text} {v : Slot} {rest : Slots}
    (apart : σ.meet? i key v = none) (more : Fills (σ.assign i key v) i rest σ') :
    Fills σ i ((key, v) :: rest) σ'

/-- One mapping is laid over another one, by way of a copy of that. -/
inductive Overlays (σ : Store) (lower upper : Slot) : Store → Slot → Prop where
  | copied {below above : Slots} {σ' : Store} (low : σ.mapping? lower = some below)
    (high : σ.mapping? upper = some above)
    (filled : Fills (σ ++ [.mapping below]) σ.length above σ') :
    Overlays σ lower upper σ' (.object σ.length)

/-- What is read of a slot without looking at some objects.  A value that is no object is no
mapping. -/
inductive Reads (σ : Store) (hidden : Nat → Prop) : Slot → Datum → Prop where
  | plain {d : Datum} (other : ∀ es, d.opened ≠ .mapping es) : Reads σ hidden (.plain d) d
  | mapping {i : Nat} {slots : Slots} {es : Entries} (seen : ¬hidden i)
    (there : σ[i]? = some (.mapping slots)) (keys : es.keys = slots.map fun x => .text x.1)
    (values : ∀ z ∈ slots.zip es, Reads σ hidden z.1.2 z.2.2) :
    Reads σ hidden (.object i) (.mapping es)
  | list {i : Nat} {items : List Slot} {ds : List Datum} (seen : ¬hidden i)
    (there : σ[i]? = some (.list items)) (length : ds.length = items.length)
    (values : ∀ z ∈ items.zip ds, Reads σ hidden z.1 z.2) : Reads σ hidden (.object i) (.list ds)

/-- What is read of slots, one by one. -/
def Holds (σ : Store) (hidden : Nat → Prop) (slots : Slots) (es : Entries) : Prop :=
  List.Forall₂ (fun x y => y.1 = .text x.1 ∧ Reads σ hidden x.2 y.2) slots es

section Reads

variable {σ σ' : Store} {hidden hidden' : Nat → Prop} {slots : Slots} {es : Entries} {i : Nat}

theorem holds_iff : Holds σ hidden slots es ↔
    es.keys = slots.map (fun x => Datum.text x.1) ∧
      ∀ z ∈ slots.zip es, Reads σ hidden z.1.2 z.2.2 := by
  induction slots generalizing es with
  | nil => cases es <;> simp [Holds, Entries.keys]
  | cons x rest ih =>
    cases es with
    | nil => simp [Holds, Entries.keys]
    | cons y es =>
      unfold Holds Entries.keys at ih ⊢
      rw [List.forall₂_cons, ih]
      simp only [List.map_cons, List.cons.injEq, List.zip_cons_cons, List.forall_mem_cons]
      tauto

theorem reads_mapping_iff : Reads σ hidden (.object i) (.mapping es) ↔
    ¬hidden i ∧ ∃ slots, σ[i]? = some (.mapping slots) ∧ Holds σ hidden slots es := by
  constructor
  · intro h
    cases h with
    | mapping seen there keys values => exact ⟨seen, _, there, holds_iff.mpr ⟨keys, values⟩⟩
  · rintro ⟨seen, slots, there, holds⟩
    obtain ⟨keys, values⟩ := holds_iff.mp holds
    exact .mapping seen there keys values

theorem Reads.mono {v : Slot} {d : Datum} (h : Reads σ hidden v d)
    (kept : ∀ j x, ¬hidden j → σ[j]? = some x → ¬hidden' j ∧ σ'[j]? = some x) :
    Reads σ' hidden' v d := by
  induction h with
  | plain other => exact .plain other
  | mapping seen there keys _ ih =>
    obtain ⟨seen', there'⟩ := kept _ _ seen there
    exact .mapping seen' there' keys ih
  | list seen there length _ ih =>
    obtain ⟨seen', there'⟩ := kept _ _ seen there
    exact .list seen' there' length ih

theorem Holds.mono (h : Holds σ hidden slots es)
    (kept : ∀ j x, ¬hidden j → σ[j]? = some x → ¬hidden' j ∧ σ'[j]? = some x) :
    Holds σ' hidden' slots es :=
  h.imp fun _ _ ⟨key, reads⟩ => ⟨key, reads.mono kept⟩

theorem Holds.put (h : Holds σ hidden slots es) (key : Text) {v : Slot} {d : Datum}
    (hv : Reads σ hidden v d) :
    Holds σ hidden (put key v slots) (Entries.insert (.text key) d es) := by
  induction h with
  | nil => exact .cons ⟨rfl, hv⟩ .nil
  | @cons x y slots es hx hrest ih =>
    obtain ⟨k, w⟩ := x
    obtain ⟨k', e⟩ := y
    obtain ⟨rfl, hw⟩ := hx
    unfold Objects.put Entries.insert
    by_cases hk : k = key
    · rw [if_pos hk, if_pos (Datum.sameKey_text.mpr (by rw [hk]))]
      exact .cons ⟨rfl, hv⟩ hrest
    · have hother : ¬(Datum.text k).sameKey (.text key) = true := by
        rwa [Datum.sameKey_text, Datum.text.injEq]
      rw [if_neg hk, if_neg hother]
      exact .cons ⟨rfl, hw⟩ ih

/-- At a key there is a slot exactly if something is read there, and that is read of it. -/
theorem Holds.lookup (h : Holds σ hidden slots es) (key : Text) :
    slots.lookup key = none ∧ Entries.get? (.text key) es = none ∨
      ∃ v d, slots.lookup key = some v ∧ Entries.get? (.text key) es = some d ∧
        Reads σ hidden v d := by
  induction h with
  | nil => exact .inl ⟨rfl, rfl⟩
  | @cons x y slots es hx _ ih =>
    obtain ⟨k, w⟩ := x
    obtain ⟨k', e⟩ := y
    obtain ⟨rfl, hw⟩ := hx
    by_cases hk : key = k
    · subst hk
      refine .inr ⟨w, e, by simp, ?_, hw⟩
      rw [Entries.get?, if_pos (Datum.sameKey_text.mpr rfl)]
    · have hother : ¬(Datum.text k).sameKey (.text key) = true := by
        rw [Datum.sameKey_text, Datum.text.injEq]
        exact Ne.symm hk
      rw [List.lookup_cons, beq_eq_false_iff_ne.mpr hk, Entries.get?, if_neg hother]
      exact ih

/-- A slot of which something is read refers to a mapping exactly if that is one. -/
theorem Reads.mapping? {v : Slot} {d : Datum} (h : Reads σ hidden v d) :
    (∃ es slots, d = .mapping es ∧ σ.mapping? v = some slots ∧ Holds σ hidden slots es) ∨
      σ.mapping? v = none ∧ ∀ es, d.opened ≠ .mapping es := by
  cases h with
  | plain other => exact .inr ⟨rfl, other⟩
  | mapping seen there keys values =>
    refine .inl ⟨_, _, rfl, ?_, holds_iff.mpr ⟨keys, values⟩⟩
    simp [Store.mapping?, there]
  | list seen there length values =>
    refine .inr ⟨?_, fun es => nofun⟩
    simp [Store.mapping?, there]

end Reads

/-! ## Only new objects are changed -/

theorem Store.getElem?_assign {σ : Store} {i j : Nat} (h : j ≠ i) (key : Text) (v : Slot) :
    (σ.assign i key v)[j]? = σ[j]? := by
  unfold assign
  split
  · exact List.getElem?_set_ne h.symm
  · rfl

theorem Store.length_assign (σ : Store) (i : Nat) (key : Text) (v : Slot) :
    (σ.assign i key v).length = σ.length := by
  unfold assign
  split
  · exact List.length_set
  · rfl

theorem Store.getElem?_assign_self {σ : Store} {i : Nat} {slots : Slots}
    (h : σ[i]? = some (.mapping slots)) (key : Text) (v : Slot) :
    (σ.assign i key v)[i]? = some (.mapping (put key v slots)) := by
  unfold assign
  rw [h]
  obtain ⟨hi, -⟩ := List.getElem?_eq_some_iff.mp h
  exact List.getElem?_set_self hi

/-- To fill a mapping changes no other object that is there. -/
theorem Fills.frame {σ σ' : Store} {i : Nat} {slots : Slots} (h : Fills σ i slots σ') :
    σ.length ≤ σ'.length ∧ ∀ j < σ.length, j ≠ i → σ'[j]? = σ[j]? := by
  induction h with
  | done => exact ⟨Nat.le_refl _, fun _ _ _ => rfl⟩
  | @merged σ σ' σ'' i key v below above rest both inner more ihInner ihMore =>
    obtain ⟨hlength, hsame⟩ := ihInner
    obtain ⟨hlength', hsame'⟩ := ihMore
    rw [List.length_append, List.length_singleton] at hlength hsame
    rw [Store.length_assign] at hlength' hsame'
    refine ⟨by omega, fun j hj hne => ?_⟩
    rw [hsame' j (by omega) hne, Store.getElem?_assign hne, hsame j (by omega) (by omega),
      List.getElem?_append_left hj]
  | @replaced σ σ' i key v rest apart more ih =>
    obtain ⟨hlength, hsame⟩ := ih
    rw [Store.length_assign] at hlength hsame
    exact ⟨hlength, fun j hj hne => (hsame j hj hne).trans (Store.getElem?_assign hne key v)⟩

/-- To fill a new mapping leaves all that was there before as it was. -/
theorem Fills.added {σ σ' : Store} {below slots : Slots}
    (h : Fills (σ ++ [.mapping below]) σ.length slots σ') : σ <+: σ' := by
  obtain ⟨hlength, hsame⟩ := h.frame
  rw [List.length_append, List.length_singleton] at hlength hsame
  refine List.prefix_iff_getElem?.mpr fun j hj => ?_
  rw [hsame j (by omega) (by omega), List.getElem?_append_left hj, List.getElem?_eq_getElem hj]

theorem Fills.unique {σ σ' σ'' : Store} {i : Nat} {slots : Slots} (h : Fills σ i slots σ')
    (h' : Fills σ i slots σ'') : σ' = σ'' := by
  induction h generalizing σ'' with
  | done =>
    cases h'
    rfl
  | merged both inner more ihInner ihMore =>
    cases h' with
    | merged both' inner' more' =>
      obtain ⟨rfl, rfl⟩ := Prod.mk.inj (Option.some.inj (both.symm.trans both'))
      obtain rfl := ihInner inner'
      exact ihMore more'
    | replaced apart => cases both.symm.trans apart
  | replaced apart more ih =>
    cases h' with
    | merged both => cases both.symm.trans apart
    | replaced _ more' => exact ih more'

/-! ## The new mapping -/

/-- Whether a copy of any mapping can be filled with the slots of one of which a given value is
read, so that the overlay of the two is read of it. -/
def Fillable (d : Datum) : Prop :=
  ∀ (σ : Store) (hidden : Nat → Prop) (below above : Slots) (old es : Entries),
    (∀ j, hidden j → j < σ.length) → d = .mapping es → Holds σ hidden below old →
    Holds σ hidden above es → ∃ σ', Fills (σ ++ [.mapping below]) σ.length above σ' ∧
      Reads σ' hidden (.object σ.length) (.mapping (Entries.overlay old es))

section Fill

variable {σ σ₁ : Store} {hidden : Nat → Prop} {i : Nat} {slots above : Slots} {old es : Entries}
  {key : Text} {v w : Slot} {d e : Datum}

/-- What is seen stays there when objects are added and a hidden one is assigned to. -/
theorem kept_assign (own : hidden i) (added : σ <+: σ₁) (key : Text) (w : Slot) (j : Nat)
    (x : Object) (seen : ¬hidden j) (hj : σ[j]? = some x) :
    ¬hidden j ∧ (σ₁.assign i key w)[j]? = some x := by
  obtain ⟨new, rfl⟩ := added
  obtain ⟨hlt, -⟩ := List.getElem?_eq_some_iff.mp hj
  have hne : j ≠ i := fun he => seen (he ▸ own)
  exact ⟨seen, by rw [Store.getElem?_assign hne, List.getElem?_append_left hlt, hj]⟩

theorem Holds.assign (h : Holds σ hidden slots old) (own : hidden i) (added : σ <+: σ₁)
    (hw : Reads σ₁ hidden w e) :
    Holds (σ₁.assign i key w) hidden (Objects.put key w slots)
      (Entries.insert (.text key) e old) :=
  (h.mono (kept_assign own added key w)).put key
    (hw.mono (kept_assign own (List.prefix_refl σ₁) key w))

/-- How a slot gets to a key of a mapping: objects are added, and of what is assigned in the end
a value is read. -/
structure Assigned (σ : Store) (hidden : Nat → Prop) (i : Nat) (key : Text) (v : Slot) (e : Datum)
    (σ₁ : Store) (w : Slot) : Prop where
  added : σ <+: σ₁
  reads : Reads σ₁ hidden w e
  fills : ∀ rest σ', Fills (σ₁.assign i key w) i rest σ' → Fills σ i ((key, v) :: rest) σ'

/-- A slot can get to a key so that the overlay of what is there is read at it. -/
theorem exists_assigned (bounded : ∀ j, hidden j → j < σ.length)
    (there : σ[i]? = some (.mapping slots)) (holds : Holds σ hidden slots old)
    (fillable : Fillable d) (hv : Reads σ hidden v d) (key : Text) :
    ∃ σ₁ w, Assigned σ hidden i key v (Entries.cover (Entries.get? (.text key) old) d) σ₁ w := by
  have hown : σ.mapping? (.object i) = some slots := by simp [Store.mapping?, there]
  have hmeet : σ.meet? i key v = ((slots.lookup key).bind σ.mapping?).bind fun below =>
      (σ.mapping? v).map fun above => (below, above) := by
    unfold Store.meet?
    rw [hown]
    rfl
  have replaced (apart : σ.meet? i key v = none)
      (hcover : Entries.cover (Entries.get? (.text key) old) d = d) :
      ∃ σ₁ w, Assigned σ hidden i key v (Entries.cover (Entries.get? (.text key) old) d) σ₁ w :=
    ⟨σ, v, List.prefix_refl σ, hcover.symm ▸ hv, fun _ _ more => .replaced apart more⟩
  rcases hv.mapping? with ⟨es, above, rfl, habove, hholds⟩ | ⟨habove, hother⟩
  · rcases holds.lookup key with ⟨hlookup, hget⟩ | ⟨w, e, hlookup, hget, hw⟩
    · refine replaced ?_ ?_
      · rw [hmeet, hlookup]
        rfl
      · rw [hget, Entries.cover_none]
    · rcases hw.mapping? with ⟨less, below, rfl, hbelow, hless⟩ | ⟨hbelow, hother⟩
      · have hboth : σ.meet? i key v = some (below, above) := by
          rw [hmeet, hlookup, Option.bind_some, hbelow, habove]
          rfl
        obtain ⟨σ₁, hinner, hreads⟩ :=
          fillable σ hidden below above less es bounded rfl hless hholds
        rw [hget, Entries.cover_mapping]
        exact ⟨σ₁, _, hinner.added, hreads, fun _ _ more => .merged hboth hinner more⟩
      · refine replaced ?_ ?_
        · rw [hmeet, hlookup, Option.bind_some, hbelow]
          rfl
        · rw [hget, Entries.cover_leaf hother]
  · refine replaced ?_ ?_
    · rw [hmeet, habove]
      cases (slots.lookup key).bind σ.mapping? <;> rfl
    · rw [Entries.cover_of_not_mapping (Entries.not_isMapping_of_opened hother)]

/-- A mapping is filled with slots of which nested values are read.  Nothing that is read refers
to that mapping. -/
theorem exists_fills (bounded : ∀ j, hidden j → j < σ.length) (own : hidden i)
    (there : σ[i]? = some (.mapping slots)) (holds : Holds σ hidden slots old)
    (fillable : ∀ x ∈ es, Fillable x.2) (new : Holds σ hidden above es) :
    ∃ σ' slots', Fills σ i above σ' ∧ σ'[i]? = some (.mapping slots') ∧
      Holds σ' hidden slots' (Entries.overlay old es) := by
  induction above generalizing σ slots old es with
  | nil =>
    cases new
    exact ⟨σ, slots, .done, there, holds⟩
  | cons x rest ih =>
    obtain ⟨key, v⟩ := x
    cases new with
    | @cons _ y _ es hv hrest =>
    obtain ⟨k, d⟩ := y
    obtain ⟨rfl, hv⟩ := hv
    obtain ⟨hfillable, hmore⟩ := List.forall_mem_cons.mp fillable
    obtain ⟨σ₁, w, added, hw, hfills⟩ := exists_assigned bounded there holds hfillable hv key
    -- The mapping is not read itself, so what is read stays as it was when it is assigned to.
    have bounded' : ∀ j, hidden j → j < (σ₁.assign i key w).length := fun j hj => by
      rw [Store.length_assign]
      exact Nat.lt_of_lt_of_le (bounded j hj) added.length_le
    have there' : σ₁[i]? = some (.mapping slots) := by
      obtain ⟨new, rfl⟩ := added
      rw [List.getElem?_append_left (bounded i own), there]
    have hlater : Holds σ hidden rest es := hrest
    obtain ⟨σ', slots', hmade, hthere, hslots⟩ := ih bounded' (Store.getElem?_assign_self there' key w)
      (holds.assign own added hw) hmore (hlater.mono (kept_assign own added key w))
    exact ⟨σ', slots', hfills rest σ' hmade, hthere, hslots⟩

end Fill

theorem fillable_of_nested {d : Datum} (h : d.Nested) : Fillable d := by
  induction h with
  | leaf other =>
    rintro σ hidden below above old es - rfl
    exact absurd rfl (other es)
  | @mapping es texts distinct values ih =>
    rintro σ hidden below above old es' bounded he hold hes
    cases he
    -- The copy is hidden while it is filled, as nothing refers to it yet.
    let hidden' : Nat → Prop := fun j => hidden j ∨ j = σ.length
    have kept : ∀ j x, ¬hidden j → σ[j]? = some x →
        ¬hidden' j ∧ (σ ++ [Object.mapping below])[j]? = some x := by
      intro j x seen hj
      obtain ⟨hlt, -⟩ := List.getElem?_eq_some_iff.mp hj
      refine ⟨?_, (List.getElem?_append_left hlt).trans hj⟩
      rintro (h | h)
      · exact seen h
      · omega
    have bounded' : ∀ j, hidden' j → j < (σ ++ [Object.mapping below]).length := by
      rw [List.length_append, List.length_singleton]
      rintro j (h | h)
      · have hlt := bounded j h
        omega
      · omega
    have there : (σ ++ [Object.mapping below])[σ.length]? = some (.mapping below) := by simp
    obtain ⟨σ', slots', hfills, hthere, hslots⟩ :=
      exists_fills bounded' (.inr rfl) there (hold.mono kept) ih (hes.mono kept)
    refine ⟨σ', hfills, reads_mapping_iff.mpr ⟨?_, slots', hthere, ?_⟩⟩
    · exact fun h => Nat.lt_irrefl _ (bounded _ h)
    · exact hslots.mono fun j x seen hj => ⟨fun h => seen (.inl h), hj⟩

/-! ## One object laid over another -/

open Entries (overlay)

def Shows (σ : Store) (v : Slot) (d : Datum) : Prop := Reads σ (fun _ => False) v d

theorem Shows.mapping? {σ : Store} {v : Slot} {es : Entries} (h : Shows σ v (.mapping es)) :
    ∃ slots, σ.mapping? v = some slots ∧ Holds σ (fun _ => False) slots es := by
  rcases Reads.mapping? h with ⟨es', slots, he, hslots, holds⟩ | ⟨-, hother⟩
  · cases he
    exact ⟨slots, hslots, holds⟩
  · exact absurd rfl (hother es)

theorem Overlays.unique {σ σ' σ'' : Store} {lower upper v v' : Slot}
    (h : Overlays σ lower upper σ' v) (h' : Overlays σ lower upper σ'' v') : σ'' = σ' ∧ v' = v := by
  cases h with
  | copied low high filled =>
    cases h' with
    | copied low' high' filled' =>
      obtain rfl := Option.some.inj (low.symm.trans low')
      obtain rfl := Option.some.inj (high.symm.trans high')
      exact ⟨filled'.unique filled, rfl⟩

theorem Overlays.shows {σ σ' : Store} {lower upper v w : Slot} {d : Datum}
    (h : Overlays σ lower upper σ' v) (hw : Shows σ w d) : Shows σ' w d := by
  cases h with
  | copied low high filled =>
    obtain ⟨new, rfl⟩ := filled.added
    refine hw.mono fun j x seen hj => ⟨seen, ?_⟩
    obtain ⟨hlt, -⟩ := List.getElem?_eq_some_iff.mp hj
    exact (List.getElem?_append_left hlt).trans hj

/-- Of two mappings of which nested ones are read, the overlay is made, and it is read of the
new mapping. -/
theorem exists_overlays {σ : Store} {lower upper : Slot} {base es : Entries}
    (hnested : (Datum.mapping es).Nested) (hlower : Shows σ lower (.mapping base))
    (hupper : Shows σ upper (.mapping es)) :
    ∃ σ' v, Overlays σ lower upper σ' v ∧ Shows σ' v (.mapping (overlay base es)) := by
  obtain ⟨below, hbelow, holds⟩ := hlower.mapping?
  obtain ⟨above, habove, holds'⟩ := hupper.mapping?
  obtain ⟨σ', hfills, hreads⟩ :=
    fillable_of_nested hnested σ _ below above base es (fun _ => False.elim) rfl holds holds'
  exact ⟨σ', _, .copied hbelow habove hfills, hreads⟩

/-- The laws of overlays.  The settings of a file are laid over others by the overlay of the
two.  At every level it has the keys below and then the new ones above; at each of them it has
what stands above, or below if nothing does, and the overlay of the two where both are mappings.
Made of objects, it leaves all that could be read before as it was.  The empty mapping changes
nothing, a mapping adds nothing to itself or a second time, and compatible mappings may be
overlaid in either grouping. -/
theorem overlay_laws {base upper top : Entries} (hbase : (Datum.mapping base).Nested)
    (hupper : (Datum.mapping upper).Nested) (htop : (Datum.mapping top).Nested) :
    Config.layOver (.mapping base) (.mapping upper) = .ok (.mapping (overlay base upper)) ∧
    (∀ way old es, (Datum.mapping base).at? way = some (.mapping old) →
      (Datum.mapping upper).at? way = some (.mapping es) →
      ∃ result, (Datum.mapping (overlay base upper)).at? way = some (.mapping result) ∧
        Entries.Overlaid old es result) ∧
    (∀ σ lower above, Shows σ lower (.mapping base) → Shows σ above (.mapping upper) →
      ∃ σ' v, Overlays σ lower above σ' v ∧
        (∀ σ'' v', Overlays σ lower above σ'' v' → σ'' = σ' ∧ v' = v) ∧
        Shows σ' v (.mapping (overlay base upper)) ∧ ∀ w d, Shows σ w d → Shows σ' w d) ∧
    overlay base [] = base ∧ overlay [] upper = upper ∧ overlay base base = base ∧
    overlay (overlay base upper) upper = overlay base upper ∧
    (Datum.Compatible (.mapping base) (.mapping upper) →
      Datum.Compatible (.mapping upper) (.mapping top) →
      Datum.Compatible (.mapping base) (.mapping top) →
      overlay (overlay base upper) top = overlay base (overlay upper top)) := by
  refine ⟨by simp [Config.layOver, Datum.opened], fun way old es hold hes => ?_,
    fun σ lower above hlower habove => ?_, by simp [overlay], Entries.nil_overlay hupper,
    Entries.overlay_self hbase, Entries.overlay_overlay hbase hupper,
    Entries.overlay_assoc hbase hupper htop⟩
  · exact ⟨_, Entries.at?_overlay hupper hold hes,
      Entries.overlaid (Entries.nested_at? hbase hold) (Entries.nested_at? hupper hes)⟩
  · obtain ⟨σ', v, hoverlays, hshows⟩ := exists_overlays hupper hlower habove
    exact ⟨σ', v, hoverlays, fun _ _ => hoverlays.unique, hshows, fun _ _ => hoverlays.shows⟩

/-- Two mappings of which the upper one has the same object at two keys. -/
theorem overlay_laws_shared :
    let base : Entries := [(.string "a", .mapping [(.string "x", .int 1)]), (.string "b", .null)]
    let inner : Datum := .mapping [(.string "y", .int 2)]
    let upper : Entries := [(.string "a", inner), (.string "c", inner)]
    let top : Entries := [(.string "c", .mapping [(.string "y", .null)])]
    let σ : Store := [.mapping [("a", .object 1), ("b", .plain .null)],
      .mapping [("x", .plain (.int 1))], .mapping [("a", .object 3), ("c", .object 3)],
      .mapping [("y", .plain (.int 2))]]
    let both : Entries := [(.string "a", .mapping [(.string "x", .int 1), (.string "y", .int 2)]),
      (.string "b", .null), (.string "c", inner)]
    overlay base upper = both ∧ overlay both top = overlay base (overlay upper top) ∧
      ∃ σ' v, Overlays σ (.object 0) (.object 2) σ' v ∧ Shows σ' v (.mapping both) ∧
        Shows σ' (.object 0) (.mapping base) ∧ Shows σ' (.object 2) (.mapping upper) := by
  intro base inner upper top σ both
  have leaf (n : Int) : (Datum.int n).Nested := .leaf fun _ => nofun
  have null : Datum.null.Nested := .leaf fun _ => nofun
  have one (t : Text) {d : Datum} (h : d.Nested) : (Datum.mapping [(.text t, d)]).Nested :=
    .mapping (by simp) (List.pairwise_singleton _ _) (by simpa using h)
  have two {t u : Text} (hne : (Datum.text t).sameKey (.text u) = false) {d e : Datum}
      (hd : d.Nested) (he : e.Nested) : (Datum.mapping [(.text t, d), (.text u, e)]).Nested :=
    .mapping (by simp) (by simp [Entries.Distinct, hne]) (by simp [hd, he])
  have hinner : inner.Nested := one _ (leaf 2)
  have hbase : (Datum.mapping base).Nested := two rfl (one _ (leaf 1)) null
  have hupper : (Datum.mapping upper).Nested := two rfl hinner hinner
  have htop : (Datum.mapping top).Nested := one _ (one _ null)
  have hover : overlay base upper = both := rfl
  have other {s t : String} : Datum.string s = .string t ↔ s = t := by
    rw [← decide_eq_true_iff (p := s = t), ← Datum.string_sameKey]
    exact Datum.sameKey_text.symm
  obtain ⟨-, -, objects, -, -, -, -, assoc⟩ := overlay_laws hbase hupper htop
  refine ⟨hover, hover ▸ assoc ?_ ?_ ?_, ?_⟩
  · have hx : Datum.Compatible (.mapping [(.string "x", .int 1)]) inner :=
      Entries.compatible_mapping (by simp [other])
    exact Entries.compatible_mapping (by simp [base, upper, other, hx])
  · have hleaf : Datum.Compatible (.int 2) .null := Datum.compatible_of_not_mapping rfl rfl
    have hy : Datum.Compatible inner (.mapping [(.string "y", .null)]) :=
      Entries.compatible_mapping (by simp [hleaf])
    exact Entries.compatible_mapping (by simp [upper, top, other, hy])
  · exact Entries.compatible_mapping (by simp [base, top, other])
  · have number (n : Int) : Shows σ (.plain (.int n)) (.int n) := .plain fun _ => nofun
    have hlow : Shows σ (.object 0) (.mapping base) := by
      refine reads_mapping_iff.mpr ⟨id, _, rfl, .cons ⟨rfl, ?_⟩ (.cons ⟨rfl, ?_⟩ .nil)⟩
      · exact reads_mapping_iff.mpr ⟨id, _, rfl, .cons ⟨rfl, number 1⟩ .nil⟩
      · exact .plain fun _ => nofun
    have hhigh : Shows σ (.object 2) (.mapping upper) := by
      have hy : Shows σ (.object 3) inner :=
        reads_mapping_iff.mpr ⟨id, _, rfl, .cons ⟨rfl, number 2⟩ .nil⟩
      exact reads_mapping_iff.mpr ⟨id, _, rfl, .cons ⟨rfl, hy⟩ (.cons ⟨rfl, hy⟩ .nil)⟩
    obtain ⟨σ', v, hoverlays, -, hshows, hkept⟩ := objects σ _ _ hlow hhigh
    rw [hover] at hshows
    exact ⟨σ', v, hoverlays, hshows, hkept _ _ hlow, hkept _ _ hhigh⟩

end Objects
end EditorLint
