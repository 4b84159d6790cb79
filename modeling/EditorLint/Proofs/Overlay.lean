import EditorLint.Datum.Overlay

/-!
# What is read at a key of overlaid mappings

A mapping whose keys are all different is laid over another one.  At a key that it has, its
value covers what lies below; at any other key, what lies below shows through
(`get?_overlay`).  A value that is no mapping covers completely, so nothing of what lies
below can be seen there.

Keys are different when they are not the same key by value.  The statements are about keys
that are texts, which are the same as no other key.
-/

namespace EditorLint

namespace Datum

/-- A key is the same as a text only if it is that text. -/
theorem sameKey_text {k : Datum} {t : Text} : k.sameKey (.text t) = true ↔ k = .text t := by
  cases k <;> simp [sameKey, asInt?]

theorem text_sameKey {k : Datum} {t : Text} : (Datum.text t).sameKey k = true ↔ k = .text t := by
  rw [← sameKey_text]
  cases k <;> simp [sameKey, asInt?, Bool.beq_comm]

theorem string_sameKey (s t : String) :
    (Datum.string s).sameKey (.string t) = decide (s = t) := by
  show (Text.ofString s == Text.ofString t) = decide (s = t)
  rw [Bool.eq_iff_iff, beq_iff_eq, decide_eq_true_iff]
  constructor
  · intro h
    have hchars := congrArg Text.chars? h
    simp only [Text.ofString, Text.chars?_ofChars, Option.some.injEq] at hchars
    exact String.toList_injective hchars
  · rintro rfl
    rfl

end Datum

namespace Entries

def Distinct (es : Entries) : Prop := es.Pairwise fun x y => x.1.sameKey y.1 = false

theorem distinct_of_keys {es : Entries} {keys : List Datum} (h : (es.map (·.1)).Sublist keys)
    (hkeys : keys.Pairwise fun k k' => k.sameKey k' = false) : Distinct es :=
  List.pairwise_map.mp (hkeys.sublist h)

section Insert

variable {key value : Datum} {es : Entries} {t : Text}

/-- A new value shows at its key, and nothing changes at any other one. -/
theorem get?_insert (key value : Datum) (es : Entries) (t : Text) :
    get? (.text t) (insert key value es) =
      if key.sameKey (.text t) then some value else get? (.text t) es := by
  induction es with
  | nil => rfl
  | cons x rest ih =>
    obtain ⟨k, v⟩ := x
    by_cases hk : k = .text t
    · subst hk
      cases hkey : (Datum.text t).sameKey key with
      | true =>
        obtain rfl := Datum.text_sameKey.mp hkey
        simp [insert, get?, hkey]
      | false =>
        have hother : key.sameKey (.text t) = false := by
          rw [Bool.eq_false_iff, ne_eq, Datum.sameKey_text, ← Datum.text_sameKey, hkey]
          exact Bool.false_ne_true
        simp [insert, get?, hkey, hother, Datum.text_sameKey.mpr rfl]
    · have hk : k.sameKey (.text t) = false := by
        rwa [Bool.eq_false_iff, ne_eq, Datum.sameKey_text]
      cases hkey : k.sameKey key with
      | true =>
        -- The key is the same as `k`, which is not the text, so it is not the text either.
        have hother : key.sameKey (.text t) = false := by
          rw [Bool.eq_false_iff, ne_eq, Datum.sameKey_text]
          rintro rfl
          exact Bool.noConfusion (hk.symm.trans hkey)
        simp [insert, get?, hkey, hk, hother]
      | false => simp [insert, get?, hkey, hk, ih]

/-- The keys after an insertion are the keys before it and the new one. -/
theorem key_of_mem_insert {x : Datum × Datum} (hx : x ∈ insert key value es) :
    x.1 = key ∨ ∃ y ∈ es, y.1 = x.1 := by
  induction es with
  | nil =>
    rw [insert, List.mem_singleton] at hx
    exact .inl (by rw [hx])
  | cons y rest ih =>
    obtain ⟨k, v⟩ := y
    unfold insert at hx
    split at hx
    · rcases List.mem_cons.mp hx with rfl | hx
      · exact .inr ⟨(k, v), List.mem_cons_self, rfl⟩
      · exact .inr ⟨x, List.mem_cons_of_mem _ hx, rfl⟩
    · rcases List.mem_cons.mp hx with rfl | hx
      · exact .inr ⟨(k, v), List.mem_cons_self, rfl⟩
      · rcases ih hx with h | ⟨y, hy, h⟩
        · exact .inl h
        · exact .inr ⟨y, List.mem_cons_of_mem _ hy, h⟩

theorem Distinct.insert (h : Distinct es) (key value : Datum) :
    Distinct (Entries.insert key value es) := by
  induction es with
  | nil => exact List.pairwise_singleton _ _
  | cons x rest ih =>
    obtain ⟨k, v⟩ := x
    obtain ⟨hfirst, hrest⟩ := List.pairwise_cons.mp h
    unfold Entries.insert
    split
    · exact List.pairwise_cons.mpr ⟨hfirst, hrest⟩
    · rename_i hother
      refine List.pairwise_cons.mpr ⟨fun y hy => ?_, ih hrest⟩
      rcases key_of_mem_insert hy with hkey | ⟨z, hz, hkey⟩
      · rw [hkey]
        exact Bool.eq_false_iff.mpr hother
      · rw [← hkey]
        exact hfirst z hz

theorem Distinct.foldl_insert (h : Distinct es) (as : Entries) :
    Distinct (as.foldl (fun acc (k, v) => Entries.insert k v acc) es) := by
  induction as generalizing es with
  | nil => exact h
  | cons a rest ih => exact ih (h.insert a.1 a.2)

theorem distinct_ofAssignments (as : Entries) : Distinct (ofAssignments as) :=
  Distinct.foldl_insert List.Pairwise.nil as

end Insert

/-- Whatever is laid over entries whose keys are different, the keys stay different. -/
theorem Distinct.overlay {base : Entries} (h : Distinct base) (upper : Entries) :
    Distinct (Entries.overlay base upper) := by
  induction upper generalizing base with
  | nil => exact h
  | cons x rest ih =>
    rw [Entries.overlay]
    exact ih (h.insert x.1 _)

theorem get?_eq_none {es : Entries} {t : Text} (h : ∀ x ∈ es, x.1 ≠ .text t) :
    get? (.text t) es = none := by
  induction es with
  | nil => rfl
  | cons x rest ih =>
    obtain ⟨k, v⟩ := x
    have hk : ¬k.sameKey (.text t) = true := mt Datum.sameKey_text.mp (h _ List.mem_cons_self)
    rw [get?, if_neg hk]
    exact ih fun y hy => h y (List.mem_cons_of_mem _ hy)

theorem mem_of_get? {key d : Datum} {es : Entries} (h : get? key es = some d) :
    ∃ x ∈ es, x.2 = d := by
  induction es with
  | nil => cases h
  | cons x rest ih =>
    obtain ⟨k, v⟩ := x
    rw [get?] at h
    split at h
    · cases h
      exact ⟨(k, _), List.mem_cons_self, rfl⟩
    · obtain ⟨y, hy, hd⟩ := ih h
      exact ⟨y, List.mem_cons_of_mem _ hy, hd⟩

/-- Where the upper mapping has a key, its value covers what lies below. -/
theorem get?_overlay {upper : Entries} (h : Distinct upper) (base : Entries) (t : Text) :
    get? (.text t) (overlay base upper) =
      match get? (.text t) upper with
      | none => get? (.text t) base
      | some d => some (cover (get? (.text t) base) d) := by
  induction upper generalizing base with
  | nil => simp [overlay, get?]
  | cons x rest ih =>
    obtain ⟨k, v⟩ := x
    obtain ⟨hfirst, hrest⟩ := List.pairwise_cons.mp h
    rw [overlay, ih hrest, get?_insert]
    by_cases hk : k = .text t
    · subst hk
      -- The key comes once, so the rest leaves alone what has been put there.
      have hnone : get? (.text t) rest = none := by
        refine get?_eq_none fun y hy hkey => ?_
        have hsame := hfirst y hy
        rw [hkey] at hsame
        exact Bool.noConfusion (hsame.symm.trans (Datum.text_sameKey.mpr rfl))
      simp [hnone, get?, Datum.sameKey_text.mpr rfl]
    · have hk : k.sameKey (.text t) = false := by
        rwa [Bool.eq_false_iff, ne_eq, Datum.sameKey_text]
      simp [get?, hk]

end Entries

end EditorLint
