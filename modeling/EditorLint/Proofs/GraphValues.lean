import EditorLint.Proofs.FlatGraph
import EditorLint.Proofs.Settling
import Mathlib.Data.List.Perm.Subperm
import Mathlib.Data.List.TakeWhile

/-!
# Reading the values of a graph

The values of a graph whose root is a mapping of texts and of lists of texts.  A node is
met before the collection around it is read, and what waits to be read stands in the order
in which it was met; when nothing waits any more every value is final.
-/

namespace EditorLint.Yaml

/-- What the text of a plain scalar stands for. -/
def PlainValue (t : List Char) (v : Value) : Prop :=
  ∃ type, shape? (resolve (Text.ofChars t)) = some (.scalar type) ∧
    Value.ofScalar type (.scalar (resolve (Text.ofChars t)) (Text.ofChars t) default)
      (Text.ofChars t) = .ok v

theorem ofScalar_mark {type : ScalarType} {tag text text' : Text} {mark : Mark} (mark' : Mark)
    {v : Value} (h : Value.ofScalar type (.scalar tag text mark) text' = .ok v) :
    Value.ofScalar type (.scalar tag text mark') text' = .ok v := by
  cases type with
  | binary =>
    unfold Value.ofScalar binaryValue at h ⊢
    dsimp only at h ⊢
    split at h
    · cases h
    · split at h
      · exact h
      · cases h
  | _ => exact h

def formNames : List String :=
  ["bool", "float", "int", "merge", "null", "timestamp", "value", "yaml", "str"]

theorem resolve_eq (t : Text) : ∃ name ∈ formNames, resolve t = standardTag name := by
  unfold resolve
  split
  · exact ⟨"str", by decide, rfl⟩
  · exact ⟨"str", by decide, rfl⟩
  · dsimp only
    repeat' split
    · exact ⟨"bool", by decide, rfl⟩
    · exact ⟨"float", by decide, rfl⟩
    · exact ⟨"int", by decide, rfl⟩
    · exact ⟨"merge", by decide, rfl⟩
    · exact ⟨"null", by decide, rfl⟩
    · exact ⟨"timestamp", by decide, rfl⟩
    · exact ⟨"value", by decide, rfl⟩
    · exact ⟨"yaml", by decide, rfl⟩
    · exact ⟨"str", by decide, rfl⟩

theorem shape_resolve (t : Text) (c : Collection) :
    shape? (resolve t) ≠ some (.collection c) := by
  have hall : ∀ name ∈ formNames, ((shape? (standardTag name)).any fun
      | .collection _ => true
      | .scalar _ => false) = false := by decide
  obtain ⟨name, hname, htag⟩ := resolve_eq t
  intro hc
  have := hall name hname
  rw [← htag, hc] at this
  cases this

/-! ## Constructions -/

namespace Construct

variable {α β : Type} {valued : Prop} {s s' : Construction}

/-- What a construction comes to: something holds of its result if it has one, and it has one
where all texts have values. -/
def Yields (valued : Prop) (r : Construct α) (s : Construction) (Q : α → Construction → Prop) :
    Prop :=
  (∀ a s', r.run s = .ok (a, s') → Q a s') ∧ (valued → ∃ a s', r.run s = .ok (a, s'))

theorem run_bind {r : Construct α} {a : α} (f : α → Construct β) (h : r.run s = .ok (a, s')) :
    (r >>= f).run s = (f a).run s' := by
  rw [StateT.run_bind, h]
  rfl

namespace Yields

variable {r : Construct α} {f : α → Construct β} {Q Q' : α → Construction → Prop}
  {R : β → Construction → Prop}

theorem of_run {a : α} (h : r.run s = .ok (a, s')) (hq : Q a s') : Yields valued r s Q := by
  refine ⟨fun b s₁ hb => ?_, fun _ => ⟨a, s', h⟩⟩
  obtain ⟨rfl, rfl⟩ := Prod.mk.inj (Except.ok.inj (h.symm.trans hb))
  exact hq

theorem bind (h : Yields valued r s Q) (hf : ∀ a s', Q a s' → Yields valued (f a) s' R) :
    Yields valued (r >>= f) s R := by
  constructor
  · intro b s₂ hb
    rw [StateT.run_bind] at hb
    cases hr : r.run s with
    | error e =>
      rw [hr] at hb
      cases hb
    | ok x =>
      obtain ⟨a, s₁⟩ := x
      rw [hr] at hb
      exact (hf a s₁ (h.1 a s₁ hr)).1 b s₂ hb
  · intro hv
    obtain ⟨a, s₁, hr⟩ := h.2 hv
    obtain ⟨b, s₂, hb⟩ := (hf a s₁ (h.1 a s₁ hr)).2 hv
    exact ⟨b, s₂, (run_bind f hr).trans hb⟩

theorem after {a : α} (h : r.run s = .ok (a, s')) (hf : Yields valued (f a) s' R) :
    Yields valued (r >>= f) s R :=
  ⟨fun b s₂ hb => hf.1 b s₂ ((run_bind f h).symm.trans hb), fun hv => by
    obtain ⟨b, s₂, hb⟩ := hf.2 hv
    exact ⟨b, s₂, (run_bind f h).trans hb⟩⟩

theorem of_error {e : Error} (h : r.run s = .error e) (hv : ¬valued) : Yields valued r s Q :=
  ⟨fun a s' hr => absurd (h.symm.trans hr) (by simp), fun hvalued => absurd hvalued hv⟩

theorem given {valued' : Prop} (h : Yields valued r s Q) (hv : valued' → valued) :
    Yields valued' r s Q := ⟨h.1, fun hvalued => h.2 (hv hvalued)⟩

theorem mono (h : Yields valued r s Q) (hq : ∀ a s', Q a s' → Q' a s') : Yields valued r s Q' :=
  ⟨fun a s' hr => hq a s' (h.1 a s' hr), h.2⟩

end Yields

end Construct

/-! ## The state of a reading -/

def Graph.final (g : Graph) (i : Nat) : Value :=
  match g.node i with
  | .sequence _ is _ => .list is
  | n => .mapping n.entries

/-- The sequence with a number is a list of texts that stand after it. -/
def Graph.IsList (g : Graph) (texts : List (List Char)) (i : Nat) : Prop :=
  ∃ is mark, g.node i = .sequence (standardTag "seq") is mark ∧
    ∀ j ∈ is, i < j ∧ ∃ t ∈ texts, g.IsText t j

/-- A node that a flat document can refer to: a text, or a list of texts. -/
def Graph.Part (g : Graph) (texts : List (List Char)) (i : Nat) : Prop :=
  i < g.size ∧ ((∃ t ∈ texts, g.IsText t i) ∨ g.IsList texts i)

theorem Graph.IsList.not_isText {g : Graph} {texts : List (List Char)} {i : Nat}
    (h : g.IsList texts i) (t : List Char) : ¬g.IsText t i := by
  obtain ⟨is, mark, hnode, -⟩ := h
  rintro ⟨-, mark', htext⟩
  rw [hnode] at htext
  cases htext

/-- A reading of the values of a graph, of which the collections before `next` are read, in the
order in which they were met.  Whatever has a value is a text, or is read, or waits. -/
structure Sound (g : Graph) (texts : List (List Char)) (next : Nat) (s : Construction) : Prop where
  graph : s.graph = g
  size : s.values.size = g.size
  text : ∀ i t v, g.IsText t i → s.values.getD i none = some v → PlainValue t v
  rest : ∀ i v, s.values.getD i none = some v → (∃ t, g.IsText t i) ∨
    (v = g.final i ∧ ∀ j ∈ v.parts, i < j ∧ (s.values.getD j none).isSome) ∨
    ∃ j, next ≤ j ∧ s.met[j]? = some i
  nodup : s.met.toList.Nodup
  known : ∀ i ∈ s.met, (s.values.getD i none).isSome
  lists : ∀ i ∈ s.met, i ≠ 0 → g.IsList texts i
  ahead : next ≤ s.met.size

/-- What has a value still has one, and what waits still waits. -/
structure Grows (s s' : Construction) : Prop where
  values : ∀ i, (s.values.getD i none).isSome → (s'.values.getD i none).isSome
  met : ∀ j i : Nat, s.met[j]? = some i → s'.met[j]? = some i

theorem Grows.refl (s : Construction) : Grows s s := ⟨fun _ h => h, fun _ _ h => h⟩

theorem Grows.trans {s s' s'' : Construction} (h : Grows s s') (h' : Grows s' s'') : Grows s s'' :=
  ⟨fun i hi => h'.values i (h.values i hi), fun j i hi => h'.met j i (h.met j i hi)⟩

theorem getD_set {vs : Values} {i : Nat} (v : Value) (hi : i < vs.size) (j : Nat) :
    (vs.setIfInBounds i (some v)).getD j none = if i = j then some v else vs.getD j none := by
  rw [Array.getD_eq_getD_getElem?, Array.getD_eq_getD_getElem?, Array.getElem?_setIfInBounds]
  split
  · rfl
  · rfl

theorem isSome_set {vs : Values} {i j : Nat} (v : Value) (hi : i < vs.size)
    (h : (vs.getD j none).isSome) : ((vs.setIfInBounds i (some v)).getD j none).isSome := by
  rw [getD_set v hi]
  split
  · rfl
  · exact h

theorem getElem?_push_of_some {met : Array Nat} {i j k : Nat} (h : met[k]? = some j) :
    (met.push i)[k]? = some j := by
  obtain ⟨hk, -⟩ := Array.getElem?_eq_some_iff.mp h
  rw [Array.getElem?_push, if_neg (Nat.ne_of_lt hk), h]

theorem Graph.IsText.unique {g : Graph} {t u : List Char} {i : Nat} (h : g.IsText t i)
    (h' : g.IsText u i) : t = u := by
  obtain ⟨-, mark, hnode⟩ := h
  obtain ⟨-, mark', hnode'⟩ := h'
  have htexts := (Node.scalar.inj (hnode.symm.trans hnode')).2.1
  have := congrArg Text.chars? htexts
  rw [Text.chars?_ofChars, Text.chars?_ofChars] at this
  exact Option.some.inj this

/-- A node gets a value, and perhaps its turn comes or passes: what is there to be said about it
is said, and whatever else waited still waits. -/
theorem Sound.assign {g : Graph} {texts : List (List Char)} {next next' i : Nat}
    {s : Construction} {met : Array Nat} {v : Value} (h : Sound g texts next s)
    (hi : i < s.values.size) (htext : ∀ t, g.IsText t i → PlainValue t v)
    (hself : (∃ t, g.IsText t i) ∨
      (v = g.final i ∧ ∀ j ∈ v.parts, i < j ∧ (s.values.getD j none).isSome) ∨
      ∃ j, next' ≤ j ∧ met[j]? = some i)
    (hwait : ∀ j k, next ≤ j → s.met[j]? = some k → i ≠ k → ∃ j, next' ≤ j ∧ met[j]? = some k)
    (hmet : ∀ k ∈ met, k ∈ s.met ∨ k = i ∧ g.IsList texts i) (hnodup : met.toList.Nodup)
    (hahead : next' ≤ met.size) :
    Sound g texts next' { s with values := s.values.setIfInBounds i (some v), met := met } := by
  -- What is said of a part is said of the one that gets the value by hypothesis, and of the others
  -- as before.
  refine ⟨h.graph, ?_, fun j u w hu hw => ?_, fun j w hw => ?_, hnodup, fun j hj => ?_,
    fun j hj hne => ?_, hahead⟩
  · rw [Array.size_setIfInBounds]
    exact h.size
  · rw [getD_set v hi] at hw
    split at hw
    · rename_i hij
      subst hij
      rw [← Option.some.inj hw]
      exact htext u hu
    · exact h.text j u w hu hw
  · rw [getD_set v hi] at hw
    split at hw
    · rename_i hij
      subst hij
      rw [← Option.some.inj hw]
      rcases hself with hself | ⟨hfinal, hparts⟩ | hself
      · exact .inl hself
      · exact .inr (.inl ⟨hfinal, fun k hk => ⟨(hparts k hk).1, isSome_set v hi (hparts k hk).2⟩⟩)
      · exact .inr (.inr hself)
    · rename_i hij
      rcases h.rest j w hw with hothers | ⟨hfinal, hparts⟩ | ⟨k, hk, hwaits⟩
      · exact .inl hothers
      · exact .inr (.inl ⟨hfinal, fun k hk => ⟨(hparts k hk).1, isSome_set v hi (hparts k hk).2⟩⟩)
      · exact .inr (.inr (hwait k j hk hwaits hij))
  · show ((s.values.setIfInBounds i (some v)).getD j none).isSome
    rcases hmet j hj with hj | ⟨rfl, -⟩
    · exact isSome_set v hi (h.known j hj)
    · rw [getD_set v hi, if_pos rfl]
      rfl
  · rcases hmet j hj with hj | ⟨rfl, hlist⟩
    · exact h.lists j hj hne
    · exact hlist

theorem Sound.set_text {g : Graph} {texts : List (List Char)} {next i : Nat} {s : Construction}
    {t : List Char} {v : Value}
    (h : Sound g texts next s) (ht : g.IsText t i) (hv : PlainValue t v) :
    Sound g texts next { s with values := s.values.setIfInBounds i (some v) } := by
  have hi : i < s.values.size := by
    rw [h.size]
    exact ht.1
  exact h.assign hi (fun u hu => ht.unique hu ▸ hv) (.inl ⟨t, ht⟩)
    (fun j k hj hk _ => ⟨j, hj, hk⟩) (fun k hk => .inl hk) h.nodup h.ahead

namespace Construct

variable {g : Graph} {texts : List (List Char)} {next i : Nat} {s : Construction}

theorem run_meet_known (h : (s.values.getD i none).isSome) : (meet i).run s = .ok ((), s) := by
  obtain ⟨v, hv⟩ := Option.isSome_iff_exists.mp h
  have hvalue : (value? i).run s = .ok (some v, s) := by
    rw [← hv]
    rfl
  unfold meet
  rw [run_bind _ hvalue]
  rfl

theorem meet_text {t : List Char} (h : Sound g texts next s) (ht : g.IsText t i) :
    Yields (∃ v, PlainValue t v) (meet i) s fun _ s' =>
      Sound g texts next s' ∧ Grows s s' ∧ (s'.values.getD i none).isSome := by
  -- A part that is met a second time has its value already.
  by_cases hknown : (s.values.getD i none).isSome
  · exact .of_run (run_meet_known hknown) ⟨h, .refl s, hknown⟩
  · have hvalue : (value? i).run s = .ok (none, s) := by
      rw [← Option.not_isSome_iff_eq_none.mp hknown]
      rfl
    obtain ⟨hi, mark, hnode⟩ := ht
    have hnode' : (node i).run s = .ok (g.node i, s) := by
      rw [← h.graph]
      rfl
    unfold meet
    refine .after hvalue ?_
    dsimp only
    refine .after hnode' ?_
    rw [hnode]
    dsimp only [Node.tag]
    -- Without a type for its tag, or where the type refuses it, a text has no value.
    cases hshape : shape? (resolve (Text.ofChars t)) with
    | none =>
      refine .of_error rfl ?_
      rintro ⟨v, type, htype, -⟩
      rw [hshape] at htype
      cases htype
    | some shape =>
      cases shape with
      | collection c => exact absurd hshape (shape_resolve _ c)
      | scalar type =>
        dsimp only
        have htext : s.graph.scalarText (s.graph.size + 1) i = .ok (Text.ofChars t) := by
          rw [h.graph, Graph.scalarText, hnode]
        refine .after (show (get : Construct Construction).run s = .ok (s, s) from rfl) ?_
        rw [htext]
        have hlift : (liftM (Except.ok (Text.ofChars t) : Except Error Text) :
            Construct Text).run s = .ok (Text.ofChars t, s) := rfl
        refine .after hlift ?_
        cases hresult : Value.ofScalar type
            (.scalar (resolve (Text.ofChars t)) (Text.ofChars t) mark) (Text.ofChars t) with
        | error e =>
          refine .of_error rfl ?_
          rintro ⟨v, type', htype, hv⟩
          obtain rfl := Shape.scalar.inj (Option.some.inj (hshape.symm.trans htype))
          rw [ofScalar_mark mark hv] at hresult
          cases hresult
        | ok v =>
          have hv : PlainValue t v := ⟨type, hshape, ofScalar_mark default hresult⟩
          have hi' : i < s.values.size := by
            rw [h.size]
            exact hi
          refine .of_run rfl ⟨h.set_text ⟨hi, mark, hnode⟩ hv,
            ⟨fun j hj => isSome_set v hi' hj, fun _ _ hj => hj⟩, ?_⟩
          rw [getD_set v hi', if_pos rfl]
          rfl

theorem meet_list {valued : Prop} (h : Sound g texts next s) (hi : i < g.size)
    (hlist : g.IsList texts i) :
    Yields valued (meet i) s fun _ s' =>
      Sound g texts next s' ∧ Grows s s' ∧ (s'.values.getD i none).isSome := by
  by_cases hknown : (s.values.getD i none).isSome
  · exact .of_run (run_meet_known hknown) ⟨h, .refl s, hknown⟩
  · have hvalue : (value? i).run s = .ok (none, s) := by
      rw [← Option.not_isSome_iff_eq_none.mp hknown]
      rfl
    have hnode' : (node i).run s = .ok (g.node i, s) := by
      rw [← h.graph]
      rfl
    have hi' : i < s.values.size := by
      rw [h.size]
      exact hi
    obtain ⟨is, mark, hnode, -⟩ := id hlist
    have hnew : i ∉ s.met := fun hm => hknown (h.known i hm)
    -- An empty list stands in until its turn comes.
    let s₁ : Construction := { s with
      values := s.values.setIfInBounds i (some (.list [])), met := s.met.push i }
    have hrun : (meet i).run s = .ok ((), s₁) := by
      have hshape : shape? (standardTag "seq") = some (.collection .list) := by decide
      unfold meet
      rw [run_bind _ hvalue]
      dsimp only
      rw [run_bind _ hnode', hnode]
      rw [show (Node.sequence (standardTag "seq") is mark).tag = standardTag "seq" from rfl, hshape]
      rfl
    have hnodup : (s.met.push i).toList.Nodup := by
      rw [Array.toList_push, List.nodup_append]
      refine ⟨h.nodup, by simp, fun x hx y hy hxy => hnew ?_⟩
      rw [← List.mem_singleton.mp hy, ← hxy]
      exact Array.mem_toList_iff.mp hx
    have hahead : next ≤ (s.met.push i).size := by
      have := h.ahead
      rw [Array.size_push]
      omega
    have hsound : Sound g texts next s₁ := by
      refine h.assign hi' (fun t ht => absurd ht (hlist.not_isText t))
        (.inr (.inr ⟨s.met.size, h.ahead, by simp⟩))
        (fun j k hj hk _ => ⟨j, hj, getElem?_push_of_some hk⟩) (fun k hk => ?_) hnodup hahead
      rcases Array.mem_push.mp hk with hk | rfl
      · exact .inl hk
      · exact .inr ⟨rfl, hlist⟩
    refine .of_run hrun ⟨hsound,
      ⟨fun j hj => isSome_set _ hi' hj, fun j k hk => getElem?_push_of_some hk⟩, ?_⟩
    show ((s.values.setIfInBounds i _).getD i none).isSome
    rw [getD_set _ hi', if_pos rfl]
    rfl

theorem meet_part (h : Sound g texts next s) (hpart : g.Part texts i) :
    Yields (∀ t ∈ texts, ∃ v, PlainValue t v) (meet i) s fun _ s' =>
      Sound g texts next s' ∧ Grows s s' ∧ (s'.values.getD i none).isSome := by
  obtain ⟨hi, ⟨t, ht, htext⟩ | hlist⟩ := hpart
  · exact (meet_text h htext).given fun hall => hall t ht
  · exact meet_list h hi hlist

theorem meet_all {is : List Nat} (h : Sound g texts next s) (hparts : ∀ i ∈ is, g.Part texts i) :
    Yields (∀ t ∈ texts, ∃ v, PlainValue t v) (is.forM meet) s fun _ s' =>
      Sound g texts next s' ∧ Grows s s' ∧ ∀ i ∈ is, (s'.values.getD i none).isSome := by
  induction is generalizing s with
  | nil => exact .of_run rfl ⟨h, .refl s, by simp⟩
  | cons i is ih =>
    show Yields _ (meet i >>= fun _ => is.forM meet) s _
    refine (meet_part h (hparts i List.mem_cons_self)).bind fun _ s₁ ⟨h₁, hgrows₁, hi⟩ => ?_
    refine (ih h₁ fun j hj => hparts j (List.mem_cons_of_mem i hj)).mono
      fun _ s₂ ⟨h₂, hgrows₂, his⟩ => ⟨h₂, hgrows₁.trans hgrows₂, fun j hj => ?_⟩
    rcases List.mem_cons.mp hj with rfl | hj
    · exact hgrows₂.values j hi
    · exact his j hj

end Construct

theorem lt_size_of_isSome {vs : Values} {i : Nat} (h : (vs.getD i none).isSome) : i < vs.size := by
  by_contra hi
  rw [Array.getD_eq_getD_getElem?, Array.getElem?_eq_none (Nat.not_lt.mp hi)] at h
  cases h

theorem Sound.finish {g : Graph} {texts : List (List Char)} {next i : Nat} {s : Construction}
    (h : Sound g texts next s) (hi : s.met[next]? = some i) (hno : ∀ t, ¬g.IsText t i)
    (hparts : ∀ j ∈ (g.final i).parts, i < j ∧ (s.values.getD j none).isSome) :
    Sound g texts (next + 1) { s with values := s.values.setIfInBounds i (some (g.final i)) } := by
  have hsize : i < s.values.size := lt_size_of_isSome (h.known i (Array.mem_of_getElem? hi))
  refine h.assign hsize (fun t ht => absurd ht (hno t)) (.inr (.inl ⟨rfl, hparts⟩))
    (fun j k hj hk hne => ⟨j, ?_, hk⟩) (fun k hk => .inl hk) h.nodup
    (Nat.succ_le_of_lt (Array.getElem?_eq_some_iff.mp hi).1)
  -- What waits at another place is not the one whose turn it was.
  have hother : j ≠ next := by
    rintro rfl
    exact hne (Option.some.inj (hi.symm.trans hk))
  omega

namespace Construct

variable {g : Graph} {texts : List (List Char)} {next i : Nat} {s : Construction}

theorem run_node (h : Sound g texts next s) : (node i).run s = .ok (g.node i, s) := by
  rw [← h.graph]
  rfl

theorem grows_assign {s : Construction} {v : Value} (hi : i < s.values.size) :
    Grows s { s with values := s.values.setIfInBounds i (some v) } :=
  ⟨fun _ hj => isSome_set v hi hj, fun _ _ hj => hj⟩

theorem read_list (h : Sound g texts next s) (hi : s.met[next]? = some i)
    (hlist : g.IsList texts i) :
    Yields (∀ t ∈ texts, ∃ v, PlainValue t v) (read i) s fun _ s' =>
      Sound g texts (next + 1) s' ∧ Grows s s' := by
  obtain ⟨is, mark, hnode, hitems⟩ := id hlist
  have hparts : ∀ j ∈ is, g.Part texts j := fun j hj => by
    obtain ⟨-, t, ht, htext⟩ := hitems j hj
    exact ⟨htext.1, .inl ⟨t, ht, htext⟩⟩
  unfold read
  refine .after (run_node h) ?_
  rw [hnode]
  have hshape : shape? (Node.sequence (standardTag "seq") is mark).tag =
      some (.collection .list) :=
    show shape? (standardTag "seq") = some (.collection .list) by decide
  rw [hshape]
  dsimp only
  refine (meet_all h hparts).bind fun _ s₁ ⟨h₁, hgrows, hknown⟩ => ?_
  have hfinal : g.final i = .list is := by rw [Graph.final, hnode]
  have hturn := hgrows.met next i hi
  have hsize : i < s₁.values.size := lt_size_of_isSome (h₁.known i (Array.mem_of_getElem? hturn))
  have hsound := h₁.finish hturn hlist.not_isText (by
    rw [hfinal]
    exact fun j hj => ⟨(hitems j hj).1, hknown j hj⟩)
  rw [hfinal] at hsound
  exact .of_run rfl ⟨hsound, hgrows.trans (grows_assign hsize)⟩

end Construct

/-- A text whose form is that of no other value stands for itself. -/
theorem plainValue_iff {t : List Char} {v : Value}
    (h : resolve (Text.ofChars t) = standardTag "str") :
    PlainValue t v ↔ v = .plain (.text (Text.ofChars t)) := by
  have hshape : shape? (standardTag "str") = some (.scalar .text) := by decide
  unfold PlainValue
  rw [h, hshape]
  constructor
  · rintro ⟨type, htype, hv⟩
    obtain rfl := Shape.scalar.inj (Option.some.inj htype)
    exact (Except.ok.inj hv).symm
  · rintro rfl
    exact ⟨.text, rfl, rfl⟩

/-- A node that is a text and stands for itself. -/
def Graph.IsName (g : Graph) (t : List Char) (i : Nat) : Prop :=
  g.IsText t i ∧ resolve (Text.ofChars t) = standardTag "str"

def Graph.Differ (g : Graph) (x y : Nat × Nat) : Prop :=
  ∃ t u, g.IsName t x.1 ∧ g.IsName u y.1 ∧ t ≠ u

theorem Graph.Differ.ne {g : Graph} {x y : Nat × Nat} (h : g.Differ x y) : x.1 ≠ y.1 := by
  obtain ⟨t, u, ht, hu, hne⟩ := h
  intro he
  rw [he] at ht
  exact hne (ht.1.unique hu.1)

namespace Construct

variable {g : Graph} {texts : List (List Char)} {next i : Nat} {s : Construction}

/-- The values of two keys with different names are not the same key. -/
theorem not_sameKey_of_differ {x y : Nat × Nat} (h : Sound g texts next s) (hdiffer : g.Differ x y) :
    (match s.values.getD x.1 none, s.values.getD y.1 none with
      | some a, some b => a.sameKey b
      | _, _ => false) = false := by
  obtain ⟨t, u, ht, hu, hne⟩ := hdiffer
  split
  · rename_i a b ha hb
    rw [(plainValue_iff ht.2).mp (h.text _ t a ht.1 ha),
      (plainValue_iff hu.2).mp (h.text _ u b hu.1 hb)]
    refine beq_eq_false_iff_ne.mpr fun he => hne ?_
    have := congrArg Text.chars? he
    rw [Text.chars?_ofChars, Text.chars?_ofChars] at this
    exact Option.some.inj this
  · rfl

/-- An entry with another name than those that are there comes after them. -/
theorem put_end {k v : Nat} {done : List (Nat × Nat)} (h : Sound g texts next s)
    (hdone : ∀ x ∈ done, g.Differ x (k, v)) : put s.values k v done = done ++ [(k, v)] := by
  -- Entry by entry, neither the node of the key nor its value is that of another key.
  induction done with
  | nil => rfl
  | cons x done ih =>
    have hdiffer := hdone x List.mem_cons_self
    have hnode : (x.1 == k) = false := beq_eq_false_iff_ne.mpr hdiffer.ne
    have hsame := not_sameKey_of_differ h hdiffer
    obtain ⟨a, b⟩ := x
    unfold put
    rw [ih fun y hy => hdone y (List.mem_cons_of_mem _ hy)]
    dsimp only at hnode hsame ⊢
    rw [hnode, Bool.false_or]
    exact if_neg fun htrue => Bool.false_ne_true (hsame.symm.trans htrue)

/-- The entries of a mapping whose names differ are met one by one. -/
theorem readEntries_all {start : Mark} {done rest : List (Nat × Nat)} (h : Sound g texts next s)
    (hrest : ∀ x ∈ rest, (∃ t ∈ texts, g.IsName t x.1) ∧ g.Part texts x.2)
    (hdiffer : (done ++ rest).Pairwise g.Differ) :
    Yields (∀ t ∈ texts, ∃ v, PlainValue t v) (readEntries start done rest) s fun es s' =>
      es = done ++ rest ∧ Sound g texts next s' ∧ Grows s s' ∧
      ∀ x ∈ rest, (s'.values.getD x.1 none).isSome ∧ (s'.values.getD x.2 none).isSome := by
  -- On the entries that are left, where those done are in the mapping already.
  induction rest generalizing done s with
  | nil => exact .of_run rfl ⟨(List.append_nil done).symm, h, .refl s, by simp⟩
  | cons x rest ih =>
    obtain ⟨key, value⟩ := x
    obtain ⟨⟨t, ht, hname⟩, hpart⟩ := hrest (key, value) List.mem_cons_self
    unfold readEntries
    refine (meet_part h ⟨hname.1.1, .inl ⟨t, ht, hname.1⟩⟩).bind fun _ s₁ ⟨h₁, hgrows₁, hkey⟩ => ?_
    obtain ⟨v, hv⟩ := Option.isSome_iff_exists.mp hkey
    have hvalue : (value? key).run s₁ = .ok (some v, s₁) := by
      rw [← hv]
      rfl
    have hhash : v.isHashable = true := by
      rw [(plainValue_iff hname.2).mp (h₁.text _ t v hname.1 hv)]
      rfl
    refine .after hvalue ?_
    rw [Option.any_some, hhash]
    show Yields _ (meet value >>= fun _ => get >>= fun (c : Construction) =>
      readEntries start (put c.values key value done) rest) s₁ _
    refine (meet_part h₁ hpart).bind fun _ s₂ ⟨h₂, hgrows₂, hval⟩ => ?_
    refine .after (show (get : Construct Construction).run s₂ = .ok (s₂, s₂) from rfl) ?_
    -- The name differs from those before it, so the entry is put behind them.
    have hput : put s₂.values key value done = done ++ [(key, value)] :=
      put_end h₂ fun x hx => (List.pairwise_append.mp hdiffer).2.2 x hx _ List.mem_cons_self
    have hjoin : done ++ (key, value) :: rest = done ++ [(key, value)] ++ rest := by simp
    rw [hput, hjoin]
    rw [hjoin] at hdiffer
    refine (ih h₂ (fun x hx => hrest x (List.mem_cons_of_mem _ hx)) hdiffer).mono
      fun es s₃ ⟨hes, h₃, hgrows₃, hknown⟩ => ⟨hes, h₃, (hgrows₁.trans hgrows₂).trans hgrows₃,
        fun x hx => ?_⟩
    rcases List.mem_cons.mp hx with rfl | hx
    · exact ⟨hgrows₃.values _ (hgrows₂.values _ hkey), hgrows₃.values _ hval⟩
    · exact hknown x hx

end Construct

theorem Graph.IsName.tag {g : Graph} {t : List Char} {i : Nat} (h : g.IsName t i) :
    (g.node i).tag = standardTag "str" := by
  obtain ⟨⟨-, mark, hnode⟩, hstr⟩ := h
  rw [hnode]
  exact hstr

theorem Graph.flatten_names {g : Graph} {i : Nat} {tag : Text} {xs : List (Nat × Nat)} {mark : Mark}
    (hnode : g.node i = .mapping tag xs mark) (hnames : ∀ x ∈ xs, ∃ t, g.IsName t x.1) :
    g.flatten i = .ok g := by
  have hentries : (g.node i).entries = xs := by rw [hnode]; rfl
  -- No name is the sign of a merge, nor that of a default.
  have hsplit : g.splitMerge i = none := by
    have hmerge : (standardTag "str" != mergeTag) = true := by decide
    have hplain : xs.dropWhile (fun x => (g.node x.1).tag != mergeTag) = [] := by
      rw [List.dropWhile_eq_nil_iff]
      intro x hx
      obtain ⟨t, ht⟩ := hnames x hx
      rw [ht.tag]
      exact hmerge
    unfold splitMerge
    rw [hentries]
    dsimp only
    rw [hplain]
  have hkeys : g.plainKeys i = g := by
    have hvalue : (standardTag "str" == valueTag) = false := by decide
    unfold plainKeys
    rw [hentries]
    clear hentries hsplit hnode
    induction xs with
    | nil => rfl
    | cons x xs ih =>
      obtain ⟨key, value⟩ := x
      obtain ⟨t, ht⟩ := hnames (key, value) List.mem_cons_self
      rw [List.foldl_cons]
      dsimp only
      rw [ht.tag, hvalue]
      exact ih fun y hy => hnames y (List.mem_cons_of_mem _ hy)
  unfold flatten
  rw [hsplit, hkeys]

/-- The entries of a root: their names differ, and what they refer to stands after it. -/
structure Graph.IsRoot (g : Graph) (texts : List (List Char)) (xs : List (Nat × Nat)) : Prop where
  grown : 0 < g.size
  root : ∃ mark, g.node 0 = .mapping (standardTag "map") xs mark
  entries : ∀ x ∈ xs, (∃ t ∈ texts, g.IsName t x.1) ∧ g.Part texts x.2
  later : ∀ x ∈ xs, 0 < x.1 ∧ 0 < x.2
  differ : xs.Pairwise g.Differ

theorem Graph.IsRoot.not_isText {g : Graph} {texts : List (List Char)} {xs : List (Nat × Nat)}
    (h : g.IsRoot texts xs) (t : List Char) : ¬g.IsText t 0 := by
  obtain ⟨mark, hnode⟩ := h.root
  rintro ⟨-, mark', htext⟩
  rw [hnode] at htext
  cases htext

theorem Graph.IsRoot.final {g : Graph} {texts : List (List Char)} {xs : List (Nat × Nat)}
    (h : g.IsRoot texts xs) : g.final 0 = .mapping xs := by
  obtain ⟨mark, hnode⟩ := h.root
  rw [Graph.final, hnode]
  rfl

theorem Sound.met_le {g : Graph} {texts : List (List Char)} {next : Nat} {s : Construction}
    (h : Sound g texts next s) : s.met.size ≤ g.size := by
  have hsubset : s.met.toList ⊆ List.range g.size := by
    intro i hi
    rw [List.mem_range, ← h.size]
    exact lt_size_of_isSome (h.known i (Array.mem_toList_iff.mp hi))
  have hlength := (List.subperm_of_subset h.nodup hsubset).length_le
  rw [List.length_range, Array.length_toList] at hlength
  exact hlength

namespace Construct

variable {g : Graph} {texts : List (List Char)} {xs : List (Nat × Nat)} {next i : Nat}
  {s : Construction}

/-- The root is read: the keys and the values of its entries are met. -/
theorem read_root (h : Sound g texts next s) (hi : s.met[next]? = some 0)
    (hroot : g.IsRoot texts xs) :
    Yields (∀ t ∈ texts, ∃ v, PlainValue t v) (read 0) s fun _ s' =>
      Sound g texts (next + 1) s' ∧ Grows s s' := by
  obtain ⟨mark, hnode⟩ := hroot.root
  have hnames : ∀ x ∈ xs, ∃ t, g.IsName t x.1 := fun x hx => by
    obtain ⟨⟨t, -, ht⟩, -⟩ := hroot.entries x hx
    exact ⟨t, ht⟩
  unfold read
  refine .after (run_node h) ?_
  rw [hnode]
  have hshape : shape? (Node.mapping (standardTag "map") xs mark).tag =
      some (.collection .mapping) :=
    show shape? (standardTag "map") = some (.collection .mapping) by decide
  rw [hshape]
  dsimp only
  have hentries : Yields (∀ t ∈ texts, ∃ v, PlainValue t v) (mappingEntries 0) s fun es s' =>
      es = xs ∧ Sound g texts next s' ∧ Grows s s' ∧
      ∀ x ∈ xs, (s'.values.getD x.1 none).isSome ∧ (s'.values.getD x.2 none).isSome := by
    unfold mappingEntries
    refine .after (run_node h) ?_
    rw [hnode]
    dsimp only
    refine .after (show (get : Construct Construction).run s = .ok (s, s) from rfl) ?_
    rw [h.graph, Graph.flatten_names hnode hnames]
    have hlift : (liftM (Except.ok g : Except Error Graph) : Construct Graph).run s = .ok (g, s) :=
      rfl
    have hmodify : (modify fun c => { c with graph := g } : Construct Unit).run s =
        .ok ((), s) := by
      show Except.ok ((), { s with graph := g }) = _
      rw [← h.graph]
    refine .after hlift ?_
    refine .after hmodify ?_
    rw [hnode]
    exact (readEntries_all h hroot.entries hroot.differ)
  refine hentries.bind fun es s₁ ⟨hes, h₁, hgrows, hknown⟩ => ?_
  have hturn := hgrows.met next 0 hi
  have hsize : 0 < s₁.values.size := lt_size_of_isSome (h₁.known 0 (Array.mem_of_getElem? hturn))
  -- Its turn is over, and its parts are later ones that have values now.
  have hsound := h₁.finish hturn hroot.not_isText (by
    rw [hroot.final]
    intro j hj
    obtain ⟨x, hx, hj⟩ := List.mem_flatMap.mp hj
    obtain ⟨hkey, hvalue⟩ := hknown x hx
    obtain ⟨hlaterKey, hlaterValue⟩ := hroot.later x hx
    rcases List.mem_cons.mp hj with rfl | hj
    · exact ⟨hlaterKey, hkey⟩
    · rw [List.mem_singleton.mp hj]
      exact ⟨hlaterValue, hvalue⟩)
  rw [hroot.final] at hsound
  subst hes
  exact .of_run rfl ⟨hsound, hgrows.trans (grows_assign hsize)⟩

theorem readFrom_all {fuel : Nat} (h : Sound g texts next s) (hroot : g.IsRoot texts xs)
    (hfuel : g.size < fuel + next) :
    Yields (∀ t ∈ texts, ∃ v, PlainValue t v) (readFrom fuel next) s fun _ s' =>
      Sound g texts s'.met.size s' ∧ Grows s s' := by
  -- Each round is a turn, and no more nodes are met than there are (`Sound.met_le`).
  induction fuel generalizing next s with
  | zero =>
    have := h.ahead
    have := h.met_le
    omega
  | succ fuel ih =>
    unfold readFrom
    refine .after (show (get : Construct Construction).run s = .ok (s, s) from rfl) ?_
    cases hi : s.met[next]? with
    | none =>
      have hlast : next = s.met.size := by
        have := h.ahead
        have := Array.getElem?_eq_none_iff.mp hi
        omega
      exact .of_run rfl ⟨hlast ▸ h, .refl s⟩
    | some i =>
      have hread : Yields (∀ t ∈ texts, ∃ v, PlainValue t v) (read i) s fun _ s' =>
          Sound g texts (next + 1) s' ∧ Grows s s' := by
        by_cases hzero : i = 0
        · subst hzero
          exact read_root h hi hroot
        · exact read_list h hi (h.lists i (Array.mem_of_getElem? hi) hzero)
      refine hread.bind fun _ s₁ ⟨h₁, hgrows₁⟩ => ?_
      exact (ih h₁ (by omega)).mono fun _ s₂ ⟨h₂, hgrows₂⟩ => ⟨h₂, hgrows₁.trans hgrows₂⟩

end Construct

/-- Values that were read: those of texts, and collections of values that stand after them. -/
structure Graph.Read (g : Graph) (vs : Values) : Prop where
  root : (vs.getD 0 none).isSome
  text : ∀ i t v, g.IsText t i → vs.getD i none = some v → PlainValue t v
  rest : ∀ i v, vs.getD i none = some v → (∃ t, g.IsText t i) ∨
    (v = g.final i ∧ ∀ j ∈ v.parts, i < j ∧ (vs.getD j none).isSome)

theorem Graph.IsRoot.met {g : Graph} {texts : List (List Char)} {xs : List (Nat × Nat)}
    (hroot : g.IsRoot texts xs) :
    ∃ s, (Construct.meet 0).run ⟨g, Array.replicate g.size none, #[]⟩ = .ok ((), s) ∧
      Sound g texts 0 s ∧ (s.values.getD 0 none).isSome := by
  obtain ⟨mark, hnode⟩ := hroot.root
  let s₀ : Construction := ⟨g, Array.replicate g.size none, #[]⟩
  let s₁ : Construction :=
    ⟨g, (Array.replicate g.size none).setIfInBounds 0 (some (.mapping [])), #[0]⟩
  have hnone (i : Nat) : s₀.values.getD i none = none := by
    rw [Array.getD_eq_getD_getElem?, Array.getElem?_replicate]
    split <;> rfl
  have hsize : 0 < s₀.values.size := by
    rw [Array.size_replicate]
    exact hroot.grown
  have hmeet : (Construct.meet 0).run s₀ = .ok ((), s₁) := by
    have hvalue : (Construct.value? 0).run s₀ = .ok (none, s₀) := by
      rw [← hnone 0]
      rfl
    have hread : (Construct.node 0).run s₀ = .ok (g.node 0, s₀) := rfl
    have hshape : shape? (Node.mapping (standardTag "map") xs mark).tag =
        some (.collection .mapping) :=
      show shape? (standardTag "map") = some (.collection .mapping) by decide
    unfold Construct.meet
    rw [Construct.run_bind _ hvalue]
    dsimp only
    rw [Construct.run_bind _ hread, hnode, hshape]
    rfl
  -- The root is the only part with a value as yet.
  have honly {i : Nat} {v : Value} (hv : s₁.values.getD i none = some v) : 0 = i := by
    by_contra hne
    rw [getD_set _ hsize, if_neg hne] at hv
    exact absurd ((hnone i).symm.trans hv) (by simp)
  have hfirst : (s₁.values.getD 0 none).isSome := by
    rw [getD_set _ hsize, if_pos rfl]
    rfl
  refine ⟨s₁, hmeet, ⟨rfl, ?_, fun i t v ht hv => ?_, fun i v hv => ?_, by simp [s₁],
    fun i hi => ?_, fun i hi hne => ?_, Nat.zero_le _⟩, hfirst⟩
  · simp [s₁]
  · rw [← honly hv] at ht
    exact absurd ht (hroot.not_isText t)
  · rw [← honly hv]
    exact .inr (.inr ⟨0, Nat.le_refl 0, rfl⟩)
  · have hzero : i = 0 := by simpa [s₁] using hi
    rw [hzero]
    exact hfirst
  · have hzero : i = 0 := by simpa [s₁] using hi
    exact absurd hzero hne

/-- The values of a graph whose root is a mapping with different names are read, if every text
has one. -/
theorem Graph.values_root {g : Graph} {texts : List (List Char)} {xs : List (Nat × Nat)}
    (hroot : g.IsRoot texts xs) :
    (∀ vs, g.values 0 = .ok vs → g.Read vs) ∧
    ((∀ t ∈ texts, ∃ v, PlainValue t v) → ∃ vs, g.values 0 = .ok vs) := by
  let s₀ : Construction := ⟨g, Array.replicate g.size none, #[]⟩
  obtain ⟨s₁, hmeet, hsound, hfirst⟩ := hroot.met
  have hall := Construct.Yields.after (f := fun _ => Construct.readFrom (g.size + 1) 0) hmeet
    (Construct.readFrom_all hsound hroot (Nat.lt_succ_self _))
  have hvalues : g.values 0 = ((Construct.meet 0 >>= fun _ =>
      Construct.readFrom (g.size + 1) 0).run s₀).map fun x => x.2.values := rfl
  constructor
  · intro vs hvs
    cases hrun : (Construct.meet 0 >>= fun _ => Construct.readFrom (g.size + 1) 0).run s₀ with
    | error e =>
      rw [hvalues, hrun] at hvs
      cases hvs
    | ok x =>
      obtain ⟨_, s₂⟩ := x
      rw [hvalues, hrun] at hvs
      obtain rfl := Except.ok.inj hvs
      obtain ⟨hend, hgrows⟩ := hall.1 _ s₂ hrun
      refine ⟨hgrows.values 0 hfirst, hend.text, fun i v hv => ?_⟩
      rcases hend.rest i v hv with htext | hfinal | ⟨j, hj, hwaits⟩
      · exact .inl htext
      · exact .inr hfinal
      · -- Nothing waits behind the last collection that was met.
        have := (Array.getElem?_eq_some_iff.mp hwaits).1
        omega
  · intro hvalued
    obtain ⟨_, s₂, hrun⟩ := hall.2 hvalued
    refine ⟨s₂.values, ?_⟩
    rw [hvalues, hrun]
    rfl

end EditorLint.Yaml
