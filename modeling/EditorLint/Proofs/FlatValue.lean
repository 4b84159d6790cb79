import EditorLint.Proofs.GraphValues

/-!
# The value of a flat document

A flat document is read as a mapping from its keys to what its texts stand for, each by
its form.  It is read if all of its texts stand for something.
-/

namespace EditorLint.Yaml

/-- What a plain scalar stands for, as a datum. -/
def PlainDatum (t : List Char) (d : Datum) : Prop :=
  ∃ v, PlainValue t v ∧ v.datum? (fun _ => none) = some d

theorem map_eq_ok {ε α β : Type} {f : α → β} {x : Except ε α} {b : β} (h : x.map f = .ok b) :
    ∃ a, x = .ok a ∧ f a = b := by
  cases x with
  | error e => cases h
  | ok a => exact ⟨a, rfl, Except.ok.inj h⟩

theorem PlainValue.parts {t : List Char} {v : Value} (h : PlainValue t v) : v.parts = [] := by
  obtain ⟨type, -, hv⟩ := h
  cases type with
  | null | text => rw [← Except.ok.inj hv]; rfl
  | float =>
    obtain ⟨x, -, rfl⟩ := map_eq_ok hv
    cases x <;> rfl
  | bool | int | binary | stamp =>
    obtain ⟨x, -, rfl⟩ := map_eq_ok hv
    rfl

namespace FlatEntry

def values : FlatEntry → List (List Char)
  | text _ value => [value]
  | list _ items => items

def Means : FlatEntry → Datum × Datum → Prop
  | text key value, (k, d) => k = .text (Text.ofChars key) ∧ PlainDatum value d
  | list key items, (k, d) => k = .text (Text.ofChars key) ∧
    ∃ ds, d = .list ds ∧ List.Forall₂ PlainDatum items ds

end FlatEntry

/-- Whether the keys of a document are names, and different ones. -/
structure FlatDocument.Named (doc : FlatDocument) : Prop where
  names : ∀ x ∈ doc.entries, resolve (Text.ofChars x.1.key) = standardTag "str"
  differ : (doc.entries.map (·.1.key)).Nodup

theorem forall₂_right {α β : Type} {R : α → β → Prop} {l : List α} {l' : List β}
    (h : List.Forall₂ R l l') : ∀ b ∈ l', ∃ a ∈ l, R a b := by
  induction h with
  | nil => simp
  | cons hab _ ih =>
    intro b hb
    rcases List.mem_cons.mp hb with rfl | hb
    · exact ⟨_, List.mem_cons_self, hab⟩
    · obtain ⟨a, ha, hr⟩ := ih b hb
      exact ⟨a, List.mem_cons_of_mem _ ha, hr⟩

theorem FlatEntry.Stands.isText {g : Graph} {e : FlatEntry} {x : Nat × Nat} (h : e.Stands g x) :
    g.IsText e.key x.1 := by
  cases e with
  | text key value => exact h.1
  | list key items => exact h.1

theorem Graph.Holds.isRoot {g : Graph} {es : List FlatEntry} {xs : List (Nat × Nat)}
    (h : g.Holds es xs) (hnames : ∀ e ∈ es, resolve (Text.ofChars e.key) = standardTag "str")
    (hdiffer : (es.map FlatEntry.key).Nodup) :
    g.IsRoot (es.flatMap fun e => e.key :: e.values) xs := by
  have hmem {e : FlatEntry} (he : e ∈ es) {t : List Char} (ht : t ∈ e.key :: e.values) :
      t ∈ es.flatMap fun e => e.key :: e.values := List.mem_flatMap.mpr ⟨e, he, ht⟩
  refine ⟨h.grown, h.root, fun x hx => ?_, fun x hx => ?_, ?_⟩
  · obtain ⟨e, he, -, -, hstands⟩ := forall₂_right h.entries x hx
    refine ⟨⟨e.key, hmem he List.mem_cons_self, hstands.isText, hnames e he⟩, ?_⟩
    cases e with
    | text key value =>
      exact ⟨hstands.2.1, .inl ⟨value, hmem he (by simp [FlatEntry.values]), hstands.2⟩⟩
    | list key items =>
      obtain ⟨-, hsize, is, mark, hnode, hitems⟩ := hstands
      refine ⟨hsize, .inr ⟨is, mark, hnode, fun j hj => ?_⟩⟩
      obtain ⟨item, hitem, hlater, htext⟩ := forall₂_right hitems j hj
      exact ⟨hlater, item, hmem he (List.mem_cons_of_mem _ hitem), htext⟩
  · obtain ⟨e, -, hkey, hvalue, -⟩ := forall₂_right h.entries x hx
    exact ⟨hkey, hvalue⟩
  · have hentries := h.entries
    clear h hmem
    induction hentries with
    | nil => exact .nil
    | @cons e x es xs hx hrest ih =>
      rw [List.map_cons, List.nodup_cons] at hdiffer
      have hmore := ih (fun e he => hnames e (List.mem_cons_of_mem _ he)) hdiffer.2
      refine .cons (fun y hy => ?_) hmore
      obtain ⟨e', he', -, -, hstands⟩ := forall₂_right hrest y hy
      refine ⟨e.key, e'.key, ⟨hx.2.2.isText, hnames e List.mem_cons_self⟩,
        ⟨hstands.isText, hnames e' (List.mem_cons_of_mem _ he')⟩, fun heq => hdiffer.1 ?_⟩
      rw [heq]
      exact List.mem_map_of_mem he'

theorem forall₂_comp {α β γ : Type} {R : α → β → Prop} {S : β → γ → Prop} {T : α → γ → Prop}
    {l : List α} {m : List β} {n : List γ} (h : List.Forall₂ R l m) (h' : List.Forall₂ S m n)
    (ht : ∀ a ∈ l, ∀ b ∈ m, ∀ c, R a b → S b c → T a c) : List.Forall₂ T l n := by
  induction h generalizing n with
  | nil =>
    cases h'
    exact .nil
  | cons hab _ ih =>
    cases h' with
    | cons hbc hrest =>
      have hfirst := ht _ List.mem_cons_self _ List.mem_cons_self _ hab hbc
      exact .cons hfirst (ih hrest fun a ha b hb =>
        ht a (List.mem_cons_of_mem _ ha) b (List.mem_cons_of_mem _ hb))

namespace Graph.Read

variable {g : Graph} {vs : Values} {data : Nat → Option Datum}

theorem ordered (h : g.Read vs) : vs.Ordered := by
  intro i v hv j hj
  rcases h.rest i v hv with ⟨t, ht⟩ | ⟨-, hparts⟩
  · rw [(h.text i t v ht hv).parts] at hj
    cases hj
  · exact hparts j hj

theorem plainDatum (h : g.Read vs) {t : List Char} {i : Nat} {d : Datum} (ht : g.IsText t i)
    (hdata : ∀ i v, vs.getD i none = some v → data i = v.datum? data)
    (hi : (vs.getD i none).isSome) (hd : data i = some d) : PlainDatum t d := by
  obtain ⟨v, hv⟩ := Option.isSome_iff_exists.mp hi
  have hplain := h.text i t v ht hv
  refine ⟨v, hplain, ?_⟩
  rw [← hd, hdata i v hv]
  refine Value.datum?_congr fun j hj => ?_
  rw [hplain.parts] at hj
  cases hj

theorem means (h : g.Read vs) {e : FlatEntry} {x : Nat × Nat} {k d : Datum} (he : e.Stands g x)
    (hname : resolve (Text.ofChars e.key) = standardTag "str")
    (hdata : ∀ i v, vs.getD i none = some v → data i = v.datum? data)
    (hkey : (vs.getD x.1 none).isSome) (hvalue : (vs.getD x.2 none).isSome)
    (hk : data x.1 = some k) (hd : data x.2 = some d) : e.Means (k, d) := by
  have hkey' : k = .text (Text.ofChars e.key) := by
    obtain ⟨v, hv, hvk⟩ := h.plainDatum he.isText hdata hkey hk
    rw [(plainValue_iff hname).mp hv] at hvk
    exact (Option.some.inj hvk).symm
  cases e with
  | text key value => exact ⟨hkey', h.plainDatum he.2 hdata hvalue hd⟩
  | list key items =>
    obtain ⟨-, -, is, mark, hnode, hitems⟩ := he
    obtain ⟨v, hv⟩ := Option.isSome_iff_exists.mp hvalue
    rcases h.rest _ v hv with ⟨t, -, mark', htext⟩ | ⟨hfinal, hparts⟩
    · rw [hnode] at htext
      cases htext
    · have hlist : v = .list is := by rw [hfinal, Graph.final, hnode]
      subst hlist
      rw [hdata _ _ hv] at hd
      obtain ⟨ds, hds, rfl⟩ := Option.map_eq_some_iff.mp hd
      exact ⟨hkey', ds, rfl, forall₂_comp hitems (mapM_eq_some.mp hds) fun item _ i hi d htext hd =>
        h.plainDatum htext.2 hdata (hparts i hi).2 hd⟩

end Graph.Read

/-- A flat document with different names is read as the mapping of its entries, if it is read;
and it is read where all its texts have values. -/
theorem FlatDocument.readValue_chars {doc : FlatDocument} (h : doc.Reads) (hnamed : doc.Named) :
    (∀ d, readValue ⟨doc.chars, none⟩ = .ok d → ∃ ds, d = .mapping ds ∧
      List.Forall₂ FlatEntry.Means (doc.entries.map (·.1)) ds) ∧
    ((∀ x ∈ doc.entries, ∀ t ∈ x.1.values, ∃ v, PlainValue t v) →
      ∃ d, readValue ⟨doc.chars, none⟩ = .ok d) := by
  obtain ⟨g, xs, hgraph, hholds⟩ := readGraph_chars h
  let es := doc.entries.map (·.1)
  have hnames : ∀ e ∈ es, resolve (Text.ofChars e.key) = standardTag "str" := by
    intro e he
    obtain ⟨x, hx, rfl⟩ := List.mem_map.mp he
    exact hnamed.names x hx
  have hdiffer : (es.map FlatEntry.key).Nodup := by
    rw [List.map_map]
    exact hnamed.differ
  have hroot := hholds.isRoot hnames hdiffer
  obtain ⟨hresult, hexists⟩ := Graph.values_root hroot
  have hread : readValue ⟨doc.chars, none⟩ = (g.values 0).map fun vs => vs.datum 0 := by
    unfold readValue
    rw [hgraph]
    rfl
  constructor
  · intro d hd
    cases hvs : g.values 0 with
    | error e =>
      rw [hread, hvs] at hd
      cases hd
    | ok vs =>
      rw [hread, hvs] at hd
      obtain rfl := Except.ok.inj hd
      have hgood := hresult vs hvs
      obtain ⟨v, hv⟩ := Option.isSome_iff_exists.mp hgood.root
      obtain ⟨data, hdatum, hdata⟩ := hgood.ordered.exists_data hv
      have hdata' : ∀ i v, vs.getD i none = some v → data i = v.datum? data :=
        fun i v hv => (hdata i v hv).1
      -- The root is no text, so its value is the mapping of its entries.
      rcases hgood.rest 0 v hv with ⟨t, ht⟩ | ⟨hfinal, hparts⟩
      · exact absurd ht (hroot.not_isText t)
      · rw [hroot.final] at hfinal
        subst hfinal
        rw [hdata' 0 _ hv] at hdatum
        obtain ⟨ds, hds, hmapping⟩ := Option.map_eq_some_iff.mp hdatum
        refine ⟨ds, hmapping.symm, forall₂_comp hholds.entries (mapM_eq_some.mp hds) ?_⟩
        intro e he ⟨k, w⟩ hx y hstands hy
        obtain ⟨dk, hk, hy⟩ := Option.bind_eq_some_iff.mp hy
        obtain ⟨dw, hw, hy⟩ := Option.bind_eq_some_iff.mp hy
        obtain rfl := Option.some.inj hy
        have hpart {j : Nat} (hj : j ∈ [k, w]) : (vs.getD j none).isSome :=
          (hparts j (List.mem_flatMap.mpr ⟨(k, w), hx, hj⟩)).2
        exact hgood.means hstands.2.2 (hnames e he) hdata' (hpart (by simp)) (hpart (by simp)) hk hw
  · intro hvalued
    obtain ⟨vs, hvs⟩ := hexists fun t ht => by
      obtain ⟨e, he, ht⟩ := List.mem_flatMap.mp ht
      rcases List.mem_cons.mp ht with rfl | ht
      · exact ⟨_, (plainValue_iff (hnames e he)).mpr rfl⟩
      · obtain ⟨x, hx, rfl⟩ := List.mem_map.mp he
        exact hvalued x hx t ht
    exact ⟨vs.datum 0, by rw [hread, hvs]; rfl⟩

end EditorLint.Yaml
