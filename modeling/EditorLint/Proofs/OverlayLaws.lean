import EditorLint.Proofs.Overlay

/-!
# The laws of overlays

Nested mappings have texts as keys, each once in a mapping.  An overlay of two of them has at
every level the keys of the lower one, in their order, and then the new ones of the upper one
(`keys_overlay`).  What stands at a key follows from what the two mappings have there
(`get?_overlay`), so an overlay is known from its keys and from what is read at them
(`eq_of_keys_of_get?`), and the laws are read off that way:

* the empty mapping changes nothing, above or below (`nil_overlay`);
* a mapping over itself is itself (`overlay_self`), and a second time it adds nothing
  (`overlay_overlay`);
* three mappings may be overlaid in either grouping, unless one of them has a mapping where
  another one has something else (`overlay_assoc`).
-/

namespace EditorLint

namespace Datum

def isMapping : Datum → Bool
  | mapping _ => true
  | _ => false

/-- What stands at the end of a way of keys. -/
def at? : List Text → Datum → Option Datum
  | [], d => some d
  | t :: way, mapping es => (Entries.get? (.text t) es).bind (at? way)
  | _ :: _, _ => none

/-- A mapping of which every key is a text that comes once, and which holds values of the same
kind; or a value that is no mapping at all. -/
inductive Nested : Datum → Prop where
  | leaf {d : Datum} (other : ∀ es, d.opened ≠ .mapping es) : Nested d
  | mapping {es : Entries} (texts : ∀ x ∈ es, ∃ t, x.1 = .text t) (distinct : es.Distinct)
    (values : ∀ x ∈ es, Nested x.2) : Nested (.mapping es)

/-- Whether at no way of keys one value has a mapping and the other one something else. -/
def Compatible (d e : Datum) : Prop :=
  ∀ way x y, d.at? way = some x → e.at? way = some y → x.isMapping = y.isMapping

theorem Nested.of_mapping {es : Entries} (h : Nested (.mapping es)) :
    (∀ x ∈ es, ∃ t, x.1 = .text t) ∧ es.Distinct ∧ ∀ x ∈ es, Nested x.2 := by
  cases h with
  | leaf other => exact absurd rfl (other es)
  | mapping texts distinct values => exact ⟨texts, distinct, values⟩

theorem mapping_of_at? {way : List Text} {d : Datum} {es : Entries}
    (h : d.at? way = some (.mapping es)) : ∃ es', d = .mapping es' := by
  cases way with
  | nil => exact ⟨es, Option.some.inj h⟩
  | cons t way =>
    cases d with
    | mapping es' => exact ⟨es', rfl⟩
    | _ => cases h

theorem Compatible.get? {es es' : Entries} (h : Compatible (.mapping es) (.mapping es'))
    {t : Text} {d d' : Datum} (hd : Entries.get? (.text t) es = some d)
    (hd' : Entries.get? (.text t) es' = some d') : Compatible d d' := by
  intro way x y hx hy
  apply h (t :: way) x y
  · show (Entries.get? (.text t) es).bind (at? way) = some x
    rw [hd]
    exact hx
  · show (Entries.get? (.text t) es').bind (at? way) = some y
    rw [hd']
    exact hy

/-- Where one of two compatible values is a mapping, so is the other. -/
theorem Compatible.isMapping_eq {d e : Datum} (h : Compatible d e) : d.isMapping = e.isMapping :=
  h [] d e rfl rfl

theorem compatible_of_not_mapping {d e : Datum} (hd : d.isMapping = false)
    (he : e.isMapping = false) : Compatible d e := by
  intro way x y hx hy
  cases way with
  | nil =>
    cases hx
    cases hy
    exact hd.trans he.symm
  | cons t way =>
    cases d with
    | mapping es => cases hd
    | _ => cases hx

theorem mapping_of_isMapping {d : Datum} (h : d.isMapping = true) : ∃ es, d = .mapping es := by
  cases d with
  | mapping es => exact ⟨es, rfl⟩
  | _ => cases h

end Datum

namespace Entries

open Datum

def keys (es : Entries) : List Datum := es.map (·.1)

/-! ## Keys and values -/

section Keys

variable {es es' base upper : Entries}

/-- A key that is there keeps its place, and a new one comes to the end. -/
theorem keys_insert (key value : Datum) (es : Entries) :
    keys (insert key value es) = if has key es then keys es else keys es ++ [key] := by
  induction es with
  | nil => rfl
  | cons x rest ih =>
    obtain ⟨k, v⟩ := x
    unfold keys at ih ⊢
    unfold has at ih ⊢
    cases hk : k.sameKey key with
    | true => simp [insert, get?, hk]
    | false =>
      simp only [insert, get?, hk, Bool.false_eq_true, if_false, List.map_cons, ih]
      split <;> rfl

theorem has_insert (key value : Datum) (es : Entries) (t : Text) :
    has (.text t) (insert key value es) = (key.sameKey (.text t) || has (.text t) es) := by
  unfold has
  rw [get?_insert]
  cases key.sameKey (.text t) <;> rfl

/-- An overlay has the keys below, and then the new ones above. -/
theorem keys_overlay (texts : ∀ x ∈ upper, ∃ t, x.1 = .text t) (distinct : upper.Distinct)
    (base : Entries) :
    keys (overlay base upper) = keys base ++ (keys upper).filter fun key => !has key base := by
  induction upper generalizing base with
  | nil => simp [overlay, keys]
  | cons x rest ih =>
    obtain ⟨key, value⟩ := x
    obtain ⟨hfirst, hrest⟩ := List.pairwise_cons.mp distinct
    obtain ⟨⟨t, rfl⟩, htexts⟩ := List.forall_mem_cons.mp texts
    let below := insert (.text t) (cover (get? (.text t) base) value) base
    -- The keys that follow are others, so they are new here exactly if they were before.
    have hlater : (keys rest).filter (fun key => !has key below) =
        (keys rest).filter fun key => !has key base := by
      refine List.filter_congr fun key hkey => ?_
      obtain ⟨y, hy, rfl⟩ := List.mem_map.mp hkey
      obtain ⟨u, hu⟩ := htexts y hy
      have hother := hfirst y hy
      rw [hu] at hother ⊢
      rw [has_insert, hother, Bool.false_or]
    show keys (overlay below rest) = _
    rw [ih htexts hrest below, hlater, keys_insert]
    cases hnew : has (.text t) base <;> simp [keys, hnew]

theorem get?_of_mem (distinct : es.Distinct) {t : Text} {d : Datum}
    (h : (Datum.text t, d) ∈ es) : get? (.text t) es = some d := by
  induction es with
  | nil => cases h
  | cons x rest ih =>
    obtain ⟨hfirst, hrest⟩ := List.pairwise_cons.mp distinct
    obtain ⟨k, v⟩ := x
    rcases List.mem_cons.mp h with he | h
    · cases he
      rw [get?, if_pos (sameKey_text.mpr rfl)]
    · have hother : ¬k.sameKey (.text t) = true := Bool.eq_false_iff.mp (hfirst _ h)
      rw [get?, if_neg hother]
      exact ih hrest h

theorem mem_of_get?_text {t : Text} {d : Datum} (h : get? (.text t) es = some d) :
    (Datum.text t, d) ∈ es := by
  induction es with
  | nil => cases h
  | cons x rest ih =>
    obtain ⟨k, v⟩ := x
    rw [get?] at h
    split at h
    · rename_i hk
      cases h
      rw [sameKey_text.mp hk]
      exact List.mem_cons_self
    · exact List.mem_cons_of_mem _ (ih h)

/-- Entries with the same keys in the same order, at which the same is read, are the same. -/
theorem eq_of_keys_of_get? (texts : ∀ x ∈ es, ∃ t, x.1 = .text t) (distinct : es.Distinct)
    (hkeys : keys es = keys es') (h : ∀ t, get? (.text t) es = get? (.text t) es') : es = es' := by
  -- On the entries: the first ones are the same, and what is read behind them does not depend on
  -- them.
  induction es generalizing es' with
  | nil => exact (List.map_eq_nil_iff.mp hkeys.symm).symm
  | cons x rest ih =>
    cases es' with
    | nil => cases hkeys
    | cons x' rest' =>
      obtain ⟨k, v⟩ := x
      obtain ⟨k', v'⟩ := x'
      obtain ⟨rfl, hrest⟩ := List.cons.inj hkeys
      obtain ⟨⟨t, rfl⟩, htexts⟩ := List.forall_mem_cons.mp texts
      obtain ⟨hfirst, hdistinct⟩ := List.pairwise_cons.mp distinct
      have hsame : (Datum.text t).sameKey (.text t) = true := sameKey_text.mpr rfl
      obtain rfl : v = v' := by
        have hv := h t
        rw [get?, get?, if_pos hsame, if_pos hsame] at hv
        exact Option.some.inj hv
      refine congrArg _ (ih htexts hdistinct hrest fun u => ?_)
      by_cases hu : u = t
      · -- The key comes once, so nothing is read at it in what follows.
        subst hu
        have hgone {more : Entries} (hm : keys more = keys rest) : get? (.text u) more = none := by
          refine get?_eq_none fun y hy hkey => ?_
          have hmem : y.1 ∈ keys rest := hm ▸ List.mem_map_of_mem hy
          obtain ⟨z, hz, hzkey⟩ := List.mem_map.mp hmem
          have hother := hfirst z hz
          rw [hzkey, hkey, hsame] at hother
          cases hother
        rw [hgone rfl, hgone hrest.symm]
      · have hother : ¬(Datum.text t).sameKey (.text u) = true := by
          rw [sameKey_text, Datum.text.injEq]
          exact Ne.symm hu
        have hrest := h u
        rwa [get?, get?, if_neg hother, if_neg hother] at hrest

end Keys

/-! ## What covers what -/

@[simp] theorem cover_none (d : Datum) : cover none d = d := by
  cases d <;> simp [cover]

@[simp] theorem cover_mapping (old es : Entries) :
    cover (some (.mapping old)) (.mapping es) = .mapping (overlay old es) := by
  simp [cover, opened]

theorem cover_of_not_mapping {d : Datum} (h : d.isMapping = false) (below : Option Datum) :
    cover below d = d := by
  cases d with
  | mapping es => cases h
  | _ => simp [cover]

theorem cover_leaf {d : Datum} (other : ∀ es, d.opened ≠ .mapping es) (above : Datum) :
    cover (some d) above = above := by
  cases above with
  | mapping es =>
    unfold cover
    split
    · rename_i old hold
      exact absurd (Option.some.inj hold) (other old)
    · rfl
  | _ => simp [cover]

theorem not_isMapping_of_opened {d : Datum} (other : ∀ es, d.opened ≠ .mapping es) :
    d.isMapping = false := by
  cases d with
  | mapping es => exact absurd rfl (other es)
  | _ => rfl

theorem nested_cover {below : Option Datum} {d : Datum} (hd : Nested d)
    (hbelow : ∀ b, below = some b → Nested b) : Nested (cover below d) := by
  -- On the value that covers, as the covering does.
  induction hd generalizing below with
  | leaf other =>
    rw [cover_of_not_mapping (not_isMapping_of_opened other)]
    exact .leaf other
  | @mapping es texts distinct values ih =>
    cases below with
    | none =>
      rw [cover_none]
      exact .mapping texts distinct values
    | some b =>
      cases hbelow b rfl with
      | leaf other =>
        rw [cover_leaf other]
        exact .mapping texts distinct values
      | @mapping old otexts odistinct ovalues =>
        rw [cover_mapping]
        have hkey : ∀ x ∈ overlay old es, ∃ t, x.1 = .text t := by
          intro x hx
          have hmem : x.1 ∈ keys (overlay old es) := List.mem_map_of_mem hx
          rw [keys_overlay texts distinct] at hmem
          rcases List.mem_append.mp hmem with hmem | hmem
          · obtain ⟨y, hy, hkey⟩ := List.mem_map.mp hmem
            exact hkey ▸ otexts y hy
          · obtain ⟨y, hy, hkey⟩ := List.mem_map.mp (List.mem_filter.mp hmem).1
            exact hkey ▸ texts y hy
        refine .mapping hkey (odistinct.overlay es) fun x hx => ?_
        obtain ⟨k, v⟩ := x
        obtain ⟨t, rfl⟩ := hkey _ hx
        have hread := get?_of_mem (odistinct.overlay es) hx
        rw [get?_overlay distinct] at hread
        have hold : ∀ b, get? (.text t) old = some b → Nested b := fun b hb =>
          ovalues _ (mem_of_get?_text hb)
        split at hread
        · exact hold v hread
        · rename_i above habove
          cases hread
          exact ih _ (mem_of_get?_text habove) hold

theorem nested_overlay {base upper : Entries} (hbase : Nested (.mapping base))
    (hupper : Nested (.mapping upper)) : Nested (.mapping (overlay base upper)) := by
  rw [← cover_mapping]
  exact nested_cover hupper fun b hb => Option.some.inj hb ▸ hbase

/-! ## Laws -/

/-- An overlay is known from its keys and from what is read at them. -/
theorem overlay_eq {base upper es : Entries} (hbase : Nested (.mapping base))
    (hupper : Nested (.mapping upper)) (hkeys : keys (overlay base upper) = keys es)
    (h : ∀ t, get? (.text t) (overlay base upper) = get? (.text t) es) :
    overlay base upper = es := by
  obtain ⟨texts, distinct, -⟩ := (nested_overlay hbase hupper).of_mapping
  exact eq_of_keys_of_get? texts distinct hkeys h

theorem compatible_mapping {es es' : Entries} (h : ∀ x ∈ es, ∀ y ∈ es', x.1 = y.1 →
    Compatible x.2 y.2) : Compatible (.mapping es) (.mapping es') := by
  intro way d e hd he
  cases way with
  | nil =>
    cases hd
    cases he
    rfl
  | cons t way =>
    obtain ⟨v, hv, hd⟩ := Option.bind_eq_some_iff.mp hd
    obtain ⟨w, hw, he⟩ := Option.bind_eq_some_iff.mp he
    exact h _ (mem_of_get?_text hv) _ (mem_of_get?_text hw) rfl way d e hd he

theorem nested_nil : Nested (.mapping []) := .mapping (by simp) .nil (by simp)

/-- A mapping over the empty one is itself. -/
theorem nil_overlay {upper : Entries} (h : Nested (.mapping upper)) : overlay [] upper = upper := by
  obtain ⟨texts, distinct, -⟩ := h.of_mapping
  refine overlay_eq nested_nil h ?_ fun t => ?_
  · rw [keys_overlay texts distinct]
    have hall : (keys upper).filter (fun key => !has key []) = keys upper :=
      List.filter_eq_self.mpr fun _ _ => rfl
    exact hall
  · rw [get?_overlay distinct]
    cases get? (.text t) upper <;> simp [get?]

theorem filter_has_self {es : Entries} (texts : ∀ x ∈ es, ∃ t, x.1 = .text t)
    (distinct : es.Distinct) : (keys es).filter (fun key => !has key es) = [] := by
  refine List.filter_eq_nil_iff.mpr fun key hkey => ?_
  obtain ⟨⟨k, v⟩, hx, rfl⟩ := List.mem_map.mp hkey
  obtain ⟨t, rfl⟩ := texts _ hx
  simp [has, get?_of_mem distinct hx]

theorem cover_self {d : Datum} (h : Nested d) : cover (some d) d = d := by
  induction h with
  | leaf other => exact cover_leaf other _
  | @mapping es texts distinct values ih =>
    have hnested : Nested (.mapping es) := .mapping texts distinct values
    rw [cover_mapping, overlay_eq hnested hnested]
    · rw [keys_overlay texts distinct, filter_has_self texts distinct, List.append_nil]
    · intro t
      rw [get?_overlay distinct]
      cases hread : get? (.text t) es with
      | none => rfl
      | some d => exact congrArg some (ih _ (mem_of_get?_text hread))

theorem overlay_self {es : Entries} (h : Nested (.mapping es)) : overlay es es = es := by
  have hself := cover_self h
  rw [cover_mapping] at hself
  exact Datum.mapping.inj hself

/-- A value that has covered something covers it again with the same result. -/
theorem cover_cover {below : Option Datum} {d : Datum} (hd : Nested d)
    (hbelow : ∀ b, below = some b → Nested b) :
    cover (some (cover below d)) d = cover below d := by
  induction hd generalizing below with
  | leaf other =>
    have hleaf := not_isMapping_of_opened other
    rw [cover_of_not_mapping hleaf, cover_of_not_mapping hleaf]
  | @mapping es texts distinct values ih =>
    have hnested : Nested (.mapping es) := .mapping texts distinct values
    cases below with
    | none =>
      rw [cover_none]
      exact cover_self hnested
    | some b =>
      cases hbelow b rfl with
      | leaf other =>
        rw [cover_leaf other]
        exact cover_self hnested
      | @mapping old otexts odistinct ovalues =>
        have hold : Nested (.mapping old) := .mapping otexts odistinct ovalues
        rw [cover_mapping, cover_mapping, overlay_eq (nested_overlay hold hnested) hnested]
        -- No key is new the second time.
        · have hnew : (keys es).filter (fun key => !has key (overlay old es)) = [] := by
            refine List.filter_eq_nil_iff.mpr fun key hkey => ?_
            obtain ⟨⟨k, v⟩, hx, rfl⟩ := List.mem_map.mp hkey
            obtain ⟨t, rfl⟩ := texts _ hx
            simp [has, get?_overlay distinct, get?_of_mem distinct hx]
          rw [keys_overlay texts distinct, hnew, List.append_nil]
        · intro t
          rw [get?_overlay distinct, get?_overlay distinct]
          cases hread : get? (.text t) es with
          | none => rfl
          | some d =>
            exact congrArg some (ih _ (mem_of_get?_text hread) fun b hb =>
              ovalues _ (mem_of_get?_text hb))

theorem overlay_overlay {base upper : Entries} (hbase : Nested (.mapping base))
    (hupper : Nested (.mapping upper)) :
    overlay (overlay base upper) upper = overlay base upper := by
  have hagain : cover (some (cover (some (.mapping base)) _)) _ = _ :=
    cover_cover hupper fun b hb => Option.some.inj hb ▸ hbase
  rw [cover_mapping, cover_mapping] at hagain
  exact Datum.mapping.inj hagain

/-- The keys of three mappings in their order do not depend on the grouping. -/
theorem keys_assoc {es es' es'' : Entries} (texts' : ∀ x ∈ es', ∃ t, x.1 = .text t)
    (distinct' : es'.Distinct) (texts'' : ∀ x ∈ es'', ∃ t, x.1 = .text t)
    (distinct'' : es''.Distinct) (hover : Nested (.mapping (overlay es' es''))) :
    keys (overlay (overlay es es') es'') = keys (overlay es (overlay es' es'')) := by
  obtain ⟨textsOver, distinctOver, -⟩ := hover.of_mapping
  have hhas : ∀ key ∈ keys es'', (!has key (overlay es es')) = (!has key es' && !has key es) := by
    intro key hkey
    obtain ⟨x, hx, rfl⟩ := List.mem_map.mp hkey
    obtain ⟨t, ht⟩ := texts'' x hx
    rw [ht]
    unfold has
    rw [get?_overlay distinct']
    cases get? (.text t) es' <;> simp
  calc keys (overlay (overlay es es') es'')
      = keys es ++ (keys es').filter (fun key => !has key es)
          ++ (keys es'').filter (fun key => !has key (overlay es es')) := by
        rw [keys_overlay texts'' distinct'', keys_overlay texts' distinct']
    _ = keys es ++ (keys es').filter (fun key => !has key es)
          ++ (keys es'').filter (fun key => !has key es' && !has key es) := by
        rw [List.filter_congr hhas]
    _ = keys es ++ (keys es' ++ (keys es'').filter fun key => !has key es').filter
          (fun key => !has key es) := by
        rw [List.filter_append, List.filter_filter, List.append_assoc]
        simp only [Bool.and_comm]
    _ = keys (overlay es (overlay es' es'')) := by
        rw [keys_overlay textsOver distinctOver, keys_overlay texts'' distinct'']

theorem cover_assoc {d d' d'' : Datum} (h : Nested d) (h' : Nested d') (h'' : Nested d'')
    (hlow : Compatible d d') (hhigh : Compatible d' d'') (hfar : Compatible d d'') :
    cover (some (cover (some d) d')) d'' = cover (some d) (cover (some d') d'') := by
  induction h generalizing d' d'' with
  | @leaf d other =>
    -- None of the three is a mapping, so the last one replaces the others.
    have hleaf'' : d''.isMapping = false :=
      hfar.isMapping_eq.symm.trans (not_isMapping_of_opened other)
    simp only [cover_of_not_mapping hleaf'']
  | @mapping es texts distinct values ih =>
    obtain ⟨es', rfl⟩ := mapping_of_isMapping hlow.isMapping_eq.symm
    obtain ⟨es'', rfl⟩ := mapping_of_isMapping hfar.isMapping_eq.symm
    obtain ⟨texts', distinct', values'⟩ := h'.of_mapping
    obtain ⟨texts'', distinct'', values''⟩ := h''.of_mapping
    have hlower := nested_overlay (.mapping texts distinct values) h'
    have hhigher := nested_overlay h' h''
    have hkeys : keys (overlay (overlay es es') es'') = keys (overlay es (overlay es' es'')) :=
      keys_assoc texts' distinct' texts'' distinct'' hhigher
    obtain ⟨-, distinctOver, -⟩ := hhigher.of_mapping
    simp only [cover_mapping]
    refine congrArg _ (overlay_eq hlower h'' hkeys fun t => ?_)
    rw [get?_overlay distinct'', get?_overlay distinct', get?_overlay distinctOver,
      get?_overlay distinct'']
    cases hread'' : get? (.text t) es'' with
    | none => rfl
    | some v'' =>
      cases hread' : get? (.text t) es' with
      | none => simp only [cover_none]
      | some v' =>
        cases hread : get? (.text t) es with
        | none => simp only [cover_none]
        | some v =>
          exact congrArg some (ih _ (mem_of_get?_text hread) (values' _ (mem_of_get?_text hread'))
            (values'' _ (mem_of_get?_text hread'')) (hlow.get? hread hread')
            (hhigh.get? hread' hread'') (hfar.get? hread hread''))

theorem overlay_assoc {es es' es'' : Entries} (h : Nested (.mapping es))
    (h' : Nested (.mapping es')) (h'' : Nested (.mapping es''))
    (hlow : Compatible (.mapping es) (.mapping es'))
    (hhigh : Compatible (.mapping es') (.mapping es''))
    (hfar : Compatible (.mapping es) (.mapping es'')) :
    overlay (overlay es es') es'' = overlay es (overlay es' es'') := by
  have hassoc := cover_assoc h h' h'' hlow hhigh hfar
  simp only [cover_mapping] at hassoc
  exact Datum.mapping.inj hassoc

/-! ## Every level -/

/-- One mapping laid over another one, as seen at one level: the keys in their order, and what
stands at each of them. -/
structure Overlaid (base upper result : Entries) : Prop where
  order : keys result = keys base ++ (keys upper).filter fun key => !has key base
  value : ∀ t, get? (.text t) result =
    match get? (.text t) base, get? (.text t) upper with
    | below, none => below
    | some (.mapping old), some (.mapping es) => some (.mapping (overlay old es))
    | _, some d => some d

theorem overlaid {base upper : Entries} (hbase : Nested (.mapping base))
    (hupper : Nested (.mapping upper)) : Overlaid base upper (overlay base upper) := by
  obtain ⟨-, -, values⟩ := hbase.of_mapping
  obtain ⟨texts, distinct, -⟩ := hupper.of_mapping
  refine ⟨keys_overlay texts distinct base, fun t => ?_⟩
  rw [get?_overlay distinct]
  cases hupper : get? (.text t) upper with
  | none => rfl
  | some d =>
    cases hbelow : get? (.text t) base with
    | none => simp
    | some below =>
      have hnested : below.Nested := values _ (mem_of_get?_text hbelow)
      -- Two mappings are laid over one another, and otherwise the upper value stands.
      cases hnested with
      | leaf other =>
        dsimp only
        rw [cover_leaf other]
        cases below with
        | mapping old => exact absurd rfl (other old)
        | _ => cases d <;> rfl
      | mapping =>
        cases d with
        | mapping es => simp
        | _ => simp [cover]

/-- Down a way on which both sides have mappings, the overlay has the overlay of the two. -/
theorem at?_overlay {way : List Text} {base upper old es : Entries}
    (hupper : Nested (.mapping upper)) (hold : (Datum.mapping base).at? way = some (.mapping old))
    (hes : (Datum.mapping upper).at? way = some (.mapping es)) :
    (Datum.mapping (overlay base upper)).at? way = some (.mapping (overlay old es)) := by
  induction way generalizing base upper with
  | nil =>
    cases hold
    cases hes
    rfl
  | cons t way ih =>
    obtain ⟨-, distinct, values⟩ := hupper.of_mapping
    obtain ⟨below, hbelow, hold⟩ := Option.bind_eq_some_iff.mp hold
    obtain ⟨above, habove, hes⟩ := Option.bind_eq_some_iff.mp hes
    obtain ⟨base', rfl⟩ := mapping_of_at? hold
    obtain ⟨upper', rfl⟩ := mapping_of_at? hes
    have hread : get? (.text t) (overlay base upper) = some (.mapping (overlay base' upper')) := by
      rw [get?_overlay distinct, habove, hbelow]
      simp
    show (get? (.text t) (overlay base upper)).bind (at? way) = _
    rw [hread]
    exact ih (values _ (mem_of_get?_text habove)) hold hes

theorem nested_at? {way : List Text} {d x : Datum} (h : Nested d) (hx : d.at? way = some x) :
    Nested x := by
  induction way generalizing d with
  | nil =>
    cases hx
    exact h
  | cons t way ih =>
    cases d with
    | mapping es =>
      obtain ⟨y, hy, hx⟩ := Option.bind_eq_some_iff.mp hx
      exact ih (h.of_mapping.2.2 _ (mem_of_get?_text hy)) hx
    | _ => cases hx

end Entries

end EditorLint
