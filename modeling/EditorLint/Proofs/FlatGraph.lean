import EditorLint.Proofs.FlatDocument
import EditorLint.Yaml.Node
import Mathlib.Data.List.Forall2

/-!
# The graph of a flat document

What reading the tokens of a flat document leaves: a mapping with the number of its entries'
keys and values, in which every text stands for itself under the tag of its form, and a list
comes before its items.  Reading adds nodes and leaves those that are there alone, so what
is known of a node once it is read stays true.
-/

namespace EditorLint.Yaml

/-! ## Growing graphs -/

namespace Graph

def Extends (g g' : Graph) : Prop := g.size ≤ g'.size ∧ ∀ i < g.size, g'.node i = g.node i

namespace Extends

variable {g g' g'' : Graph}

theorem refl (g : Graph) : g.Extends g := ⟨Nat.le_refl _, fun _ _ => rfl⟩

theorem trans (h : g.Extends g') (h' : g'.Extends g'') : g.Extends g'' :=
  ⟨Nat.le_trans h.1 h'.1, fun i hi => (h'.2 i (Nat.lt_of_lt_of_le hi h.1)).trans (h.2 i hi)⟩

end Extends

theorem node_push_size (g : Graph) (n : Node) : Graph.node (g.push n) g.size = n := by
  simp [node]

theorem extends_push (g : Graph) (n : Node) : g.Extends (g.push n) := by
  refine ⟨by simp, fun i hi => ?_⟩
  simp [node, Array.getElem?_push, Nat.ne_of_lt hi]

theorem size_change (g : Graph) (i : Nat) (f : Node → Node) : (g.change i f).size = g.size := by
  simp [change]

theorem node_change_self {g : Graph} {i : Nat} (f : Node → Node) (hi : i < g.size) :
    (g.change i f).node i = f (g.node i) := by
  simp [node, change, hi, Array.getElem_modify_self]

theorem node_change_ne {g : Graph} {i j : Nat} (f : Node → Node) (h : i ≠ j) :
    (g.change i f).node j = g.node j := by
  simp [node, change, Array.getElem?_modify, h]

/-- The scalar with a number is a text under the tag of its form. -/
def IsText (g : Graph) (s : List Char) (i : Nat) : Prop :=
  i < g.size ∧ ∃ mark, g.node i = .scalar (resolve (Text.ofChars s)) (Text.ofChars s) mark

theorem IsText.change {g : Graph} {s : List Char} {i j : Nat} (h : g.IsText s i) (f : Node → Node)
    (hne : j ≠ i) : (g.change j f).IsText s i := by
  obtain ⟨hi, mark, hnode⟩ := h
  refine ⟨?_, mark, (node_change_ne f hne).trans hnode⟩
  rw [size_change]
  exact hi

theorem IsText.extends {g g' : Graph} {s : List Char} {i : Nat} (h : g.IsText s i)
    (hg : g.Extends g') : g'.IsText s i := by
  obtain ⟨hi, mark, hnode⟩ := h
  exact ⟨Nat.lt_of_lt_of_le hi hg.1, mark, (hg.2 i hi).trans hnode⟩

end Graph

/-! ## Reading nodes -/

namespace Reader

variable {α β : Type} {s s' : Source} {t : Token} {ts : List Token}

theorem run_bind {r : Reader α} {a : α} (f : α → Reader β) (h : r.run s = .ok (a, s')) :
    (r >>= f).run s = (f a).run s' := by
  rw [StateT.run_bind, h]
  rfl

theorem run_peek (h : s.tokens = t :: ts) : peek.run s = .ok (t, s) := by
  unfold peek
  rw [run_bind _ (show (get : Reader Source).run s = .ok (s, s) from rfl), h]
  rfl

theorem run_pass (s : Source) : pass.run s = .ok ((), { s with tokens := s.tokens.drop 1 }) := rfl

theorem run_announce (n : Node) (s : Source) :
    (announce none n).run s = .ok (s.nodes.size, { s with nodes := s.nodes.push n }) := rfl

theorem run_change (i : Nat) (f : Node → Node) (s : Source) :
    (change i f).run s = .ok ((), { s with nodes := s.nodes.change i f }) := rfl

/-- A token that is neither an anchor nor a tag begins a node without properties. -/
theorem run_properties (h : s.tokens = t :: ts) (hanchor : ∀ name, t.kind ≠ .anchor name)
    (htag : ∀ handle suffix, t.kind ≠ .tag handle suffix) :
    properties.run s = .ok (⟨none, none, default, none⟩, s) := by
  have hnoAnchor : anchor?.run s = .ok (none, s) := by
    unfold anchor?
    rw [run_bind _ (run_peek h)]
    split
    · rename_i name hkind
      exact absurd hkind (hanchor name)
    · rfl
  have hnoTag : tag?.run s = .ok (none, s) := by
    unfold tag?
    rw [run_bind _ (run_peek h)]
    split
    · rename_i handle suffix hkind
      exact absurd hkind (htag handle suffix)
    · rfl
  unfold properties
  rw [run_bind _ hnoAnchor]
  dsimp only
  rw [run_bind _ hnoTag]
  rfl

theorem run_scalar {fuel depth : Nat} {block flat plain : Bool} {text : Text}
    (h : s.tokens = t :: ts) (hkind : t.kind = .scalar text plain) (hdepth : depth ≤ maxDepth) :
    (node (fuel + 1) depth block flat).run s = .ok (s.nodes.size, { s with
      tokens := ts,
      nodes := s.nodes.push (.scalar (scalarTag none plain text) text t.start) }) := by
  have hproperties := run_properties h (by simp [hkind]) (by simp [hkind])
  have hdeep : ¬depth > maxDepth := Nat.not_lt.mpr hdepth
  unfold node
  rw [run_bind _ (run_peek h)]
  simp only [hkind]
  rw [run_bind _ hproperties, run_bind _ rfl, run_bind _ (run_peek h)]
  simp only [hdeep, hkind, if_false]
  rw [run_bind _ (run_pass s), h]
  rfl

theorem run_collection {fuel depth : Nat} {flat : Bool} (h : s.tokens = t :: ts)
    (hdepth : depth ≤ maxDepth) :
    (t.kind = .blockSequenceStart → (node (fuel + 1) depth true flat).run s =
      (sequence none none t.start (pass *> blockItems fuel depth t.start)).run s) ∧
    (t.kind = .blockMappingStart → (node (fuel + 1) depth true flat).run s =
      (mapping none none t.start (pass *> blockEntries fuel depth t.start)).run s) := by
  have hdeep : ¬depth > maxDepth := Nat.not_lt.mpr hdepth
  constructor
  all_goals
    intro hkind
    have hproperties := run_properties h (by simp [hkind]) (by simp [hkind])
    unfold node
    rw [run_bind _ (run_peek h)]
    simp only [hkind]
    rw [run_bind _ hproperties, run_bind _ rfl, run_bind _ (run_peek h)]
    simp only [hdeep, hkind, if_false]
    rfl

theorem run_sequence {start : Mark} {items : Reader (List Nat)} {is : List Nat}
    (h : items.run { s with
      nodes := s.nodes.push (.sequence (standardTag "seq") [] start) } = .ok (is, s')) :
    (sequence none none start items).run s = .ok (s.nodes.size, { s' with
      nodes := s'.nodes.change s.nodes.size (.withItems is) }) := by
  rw [← show tagOr none "seq" = standardTag "seq" from rfl] at h
  unfold sequence
  rw [run_bind _ (run_announce _ s), run_bind _ h, run_bind _ (run_change _ _ s')]
  rfl

theorem run_mapping {start : Mark} {entries : Reader (List (Nat × Nat))} {es : List (Nat × Nat)}
    (h : entries.run { s with
      nodes := s.nodes.push (.mapping (standardTag "map") [] start) } = .ok (es, s')) :
    (mapping none none start entries).run s = .ok (s.nodes.size, { s' with
      nodes := s'.nodes.change s.nodes.size (.withEntries es) }) := by
  rw [← show tagOr none "map" = standardTag "map" from rfl] at h
  unfold mapping
  rw [run_bind _ (run_announce _ s), run_bind _ h, run_bind _ (run_change _ _ s')]
  rfl

theorem run_part {node : Reader Nat} {ends : List TokenKind} {introduced : Mark}
    (h : s.tokens = t :: ts) (hend : t.kind ∉ ends) :
    (part node ends introduced).run s = node.run s := by
  have hnot : isOneOf t.kind ends = false := by
    unfold isOneOf
    simpa using hend
  unfold part
  rw [run_bind _ (run_peek h), hnot]
  rfl

/-! ## Reading a flat document -/

theorem tokens_cons {kind : TokenKind} {kinds : List TokenKind}
    (h : s.tokens.map (·.kind) = kind :: kinds) :
    ∃ t ts, s.tokens = t :: ts ∧ t.kind = kind ∧ ts.map (·.kind) = kinds :=
  List.map_eq_cons_iff.mp h

theorem reads_text (fuel : Nat) {depth : Nat} (block flat : Bool) {text : List Char}
    {more : List TokenKind} (h : s.tokens.map (·.kind) = .scalar (Text.ofChars text) true :: more)
    (hdepth : depth ≤ maxDepth) :
    ∃ s', (node (fuel + 1) depth block flat).run s = .ok (s.nodes.size, s') ∧
      s'.tokens.map (·.kind) = more ∧ s.nodes.Extends s'.nodes ∧
      s'.nodes.IsText text s.nodes.size := by
  obtain ⟨t, ts, hts, hkind, hmore⟩ := tokens_cons h
  refine ⟨_, run_scalar hts hkind hdepth, hmore, s.nodes.extends_push _, ?_, t.start, ?_⟩
  · show s.nodes.size < (s.nodes.push _).size
    rw [Array.size_push]
    exact Nat.lt_succ_self _
  · exact s.nodes.node_push_size _

theorem reads_items {fuel depth : Nat} (start : Mark) {items : List (List Char)}
    {more : List TokenKind}
    (h : s.tokens.map (·.kind) = items.flatMap Lexer.itemKinds ++ .blockEnd :: more)
    (hfuel : items.length < fuel) (hdepth : depth < maxDepth) :
    ∃ is s', (blockItems fuel depth start).run s = .ok (is, s') ∧
      s'.tokens.map (·.kind) = more ∧ s.nodes.Extends s'.nodes ∧
      List.Forall₂ (fun item i => s.nodes.size ≤ i ∧ s'.nodes.IsText item i) items is := by
  induction items generalizing fuel s with
  | nil =>
    obtain ⟨fuel, rfl⟩ : ∃ j, fuel = j + 1 := ⟨fuel - 1, by omega⟩
    obtain ⟨t, ts, hts, hkind, hmore⟩ := tokens_cons h
    refine ⟨[], { s with tokens := ts }, ?_, hmore, .refl _, .nil⟩
    unfold blockItems
    rw [run_bind _ (run_peek hts)]
    simp only [hkind]
    rw [if_neg (by simp), if_pos trivial, run_bind _ (run_pass s), hts]
    rfl
  | cons item items ih =>
    obtain ⟨fuel, rfl⟩ : ∃ j, fuel = j + 2 :=
      ⟨fuel - 2, by rw [List.length_cons] at hfuel; omega⟩
    obtain ⟨t, ts, hts, hkind, hrest⟩ := tokens_cons h
    let s₁ : Source := { s with tokens := ts }
    -- Behind the dash there is always a scalar, so that the item is read by `node` and is never the
    -- empty one.
    obtain ⟨t', ts', hts', hkind', -⟩ := tokens_cons (s := s₁) hrest
    obtain ⟨s₂, hrun₂, hmore₂, hext₂, htext₂⟩ := reads_text fuel true false (s := s₁) hrest
       (Nat.succ_le_of_lt hdepth)
    have hfuel' : items.length < fuel + 1 := by
      rw [List.length_cons] at hfuel
      omega
    obtain ⟨is, s₃, hrun₃, hmore₃, hext₃, htexts₃⟩ := ih hmore₂ hfuel'
    refine ⟨s.nodes.size :: is, s₃, ?_, hmore₃, hext₂.trans hext₃,
      .cons ⟨Nat.le_refl _, htext₂.extends hext₃⟩ ?_⟩
    · have hpart : (part (node (fuel + 1) (depth + 1) true false) [.blockEntry, .blockEnd]
          t.stop).run s₁ = .ok (s.nodes.size, s₂) := by
        rw [run_part hts' (by simp [hkind'])]
        exact hrun₂
      unfold blockItems
      rw [run_bind _ (run_peek hts), if_pos hkind, run_bind _ (run_pass s), hts]
      show StateT.run _ s₁ = _
      rw [run_bind _ hpart, run_bind _ hrun₃]
      rfl
    · exact htexts₃.imp fun _ _ hi => ⟨Nat.le_trans hext₂.1 hi.1, hi.2⟩

end Reader

/-- An entry stands in a graph under two numbers: those of its key and of its value. -/
def FlatEntry.Stands (g : Graph) : FlatEntry → Nat × Nat → Prop
  | .text key value, (k, v) => g.IsText key k ∧ g.IsText value v
  | .list key items, (k, v) => g.IsText key k ∧ v < g.size ∧
    ∃ is mark, g.node v = .sequence (standardTag "seq") is mark ∧
      List.Forall₂ (fun item i => v < i ∧ g.IsText item i) items is

theorem FlatEntry.Stands.extends {g g' : Graph} {e : FlatEntry} {x : Nat × Nat}
    (h : e.Stands g x) (hg : g.Extends g') : e.Stands g' x := by
  cases e with
  | text key value => exact ⟨h.1.extends hg, h.2.extends hg⟩
  | list key items =>
    obtain ⟨hkey, hv, is, mark, hnode, hitems⟩ := h
    exact ⟨hkey.extends hg, Nat.lt_of_lt_of_le hv hg.1, is, mark, (hg.2 _ hv).trans hnode,
      hitems.imp fun _ _ hi => ⟨hi.1, hi.2.extends hg⟩⟩

namespace Reader

variable {s s' : Source} {t : Token} {ts : List Token}

theorem run_pass_then {α : Type} {r : Reader α} (h : s.tokens = t :: ts) :
    (pass *> r).run s = r.run { s with tokens := ts } := by
  show r.run { s with tokens := s.tokens.drop 1 } = _
  rw [h]
  rfl

/-- A list of plain scalars becomes a sequence of the graph, and its items stand after it. -/
theorem reads_list {fuel depth : Nat} (flat : Bool) {items : List (List Char)}
    {more : List TokenKind} (h : s.tokens.map (·.kind) =
      .blockSequenceStart :: (items.flatMap Lexer.itemKinds ++ .blockEnd :: more))
    (hfuel : items.length < fuel) (hdepth : depth < maxDepth) :
    ∃ s' is mark, (node (fuel + 1) depth true flat).run s = .ok (s.nodes.size, s') ∧
      s'.tokens.map (·.kind) = more ∧ s.nodes.Extends s'.nodes ∧ s.nodes.size < s'.nodes.size ∧
      s'.nodes.node s.nodes.size = .sequence (standardTag "seq") is mark ∧
      List.Forall₂ (fun item i => s.nodes.size < i ∧ s'.nodes.IsText item i) items is := by
  obtain ⟨t, ts, hts, hkind, hrest⟩ := tokens_cons h
  let g : Graph := s.nodes.push (.sequence (standardTag "seq") [] t.start)
  have hsize : g.size = s.nodes.size + 1 := Array.size_push _
  obtain ⟨is, s₂, hrun₂, hmore₂, hext₂, htexts₂⟩ :=
    reads_items t.start (s := { s with tokens := ts, nodes := g }) hrest hfuel hdepth
  have hpass : (pass *> blockItems fuel depth t.start).run { s with nodes := g } = .ok (is, s₂) :=
    (run_pass_then (s := { s with nodes := g }) hts).trans hrun₂
  have hgrown : g.Extends s₂.nodes := hext₂
  have hopened : s.nodes.size < s₂.nodes.size := by
    have := hgrown.1
    omega
  -- The place of the sequence is held by an empty one until its items are there.
  have hnode : s₂.nodes.node s.nodes.size = .sequence (standardTag "seq") [] t.start := by
    rw [hgrown.2 _ (by omega)]
    exact s.nodes.node_push_size _
  refine ⟨_, is, t.start, ((run_collection hts (Nat.le_of_lt hdepth)).1 hkind).trans
    (run_sequence hpass), hmore₂, ⟨?_, ?_⟩, ?_, ?_, ?_⟩
  · rw [Graph.size_change]
    omega
  · intro i hi
    rw [Graph.node_change_ne _ (Nat.ne_of_gt hi), hgrown.2 i (by omega)]
    exact (s.nodes.extends_push _).2 i hi
  · rw [Graph.size_change]
    exact hopened
  · rw [Graph.node_change_self _ hopened, hnode]
    rfl
  · refine htexts₂.imp fun item i hi => ?_
    have hlater : s.nodes.size < i := by
      have : g.size ≤ i := hi.1
      omega
    exact ⟨hlater, hi.2.change _ (Nat.ne_of_lt hlater)⟩

theorem run_valuePart {node : Reader Nat} {ends : List TokenKind} {t' : Token} {ts' : List Token}
    (h : s.tokens = t :: ts) (hkind : t.kind = .value) (h' : ts = t' :: ts')
    (hend : t'.kind ∉ ends) :
    (valuePart node ends).run s = node.run { s with tokens := ts } := by
  unfold valuePart
  rw [run_bind _ (run_peek h), if_pos hkind, run_bind _ (run_pass s), h]
  exact run_part (s := { s with tokens := ts }) h' hend

/-- The value of an entry becomes a node, and with its key the entry stands in the graph. -/
theorem reads_value {fuel depth : Nat} {e : FlatEntry} {more : List TokenKind} {k : Nat}
    (h : s.tokens.map (·.kind) = e.valueKinds ++ more) (hfuel : e.valueKinds.length ≤ fuel)
    (hdepth : depth < maxDepth) (hkey : s.nodes.IsText e.key k) :
    ∃ s', (node (fuel + 1) depth true true).run s = .ok (s.nodes.size, s') ∧
      s'.tokens.map (·.kind) = more ∧ s.nodes.Extends s'.nodes ∧
      e.Stands s'.nodes (k, s.nodes.size) := by
  cases e with
  | text key value =>
    obtain ⟨s', hrun, hmore, hext, htext⟩ := reads_text fuel true true h
      (Nat.le_of_lt hdepth)
    exact ⟨s', hrun, hmore, hext, hkey.extends hext, htext⟩
  | list key items =>
    have hkinds : s.tokens.map (·.kind) =
        .blockSequenceStart :: (items.flatMap Lexer.itemKinds ++ .blockEnd :: more) := by
      rw [h]
      simp [FlatEntry.valueKinds]
    have hcount : items.length < fuel := by
      have hitems : (items.flatMap Lexer.itemKinds).length = items.length * 2 := by
        simp [List.length_flatMap, Lexer.itemKinds]
      simp only [FlatEntry.valueKinds, List.length_cons, List.length_append, hitems] at hfuel
      omega
    obtain ⟨s', is, mark, hrun, hmore, hext, hsize, hnode, hitems⟩ :=
      reads_list true hkinds hcount hdepth
    exact ⟨s', hrun, hmore, hext, hkey.extends hext, hsize, is, mark, hnode, hitems⟩

theorem valueKinds_first (e : FlatEntry) : ∃ kind kinds, e.valueKinds = kind :: kinds ∧
    kind ∉ [TokenKind.key, .value, .blockEnd] := by
  cases e <;> exact ⟨_, _, rfl, by simp⟩

/-- Entries of a flat document become entries of a mapping of the graph. -/
theorem reads_entries {fuel : Nat} (depth : Nat) (start : Mark) {es : List FlatEntry}
    {more : List TokenKind}
    (h : s.tokens.map (·.kind) = es.flatMap FlatEntry.kinds ++ .blockEnd :: more)
    (hfuel : (es.flatMap FlatEntry.kinds).length < fuel) (hdepth : depth + 1 < maxDepth) :
    ∃ xs s', (blockEntries fuel depth start).run s = .ok (xs, s') ∧
      s'.tokens.map (·.kind) = more ∧ s.nodes.Extends s'.nodes ∧
      List.Forall₂ (fun e x => s.nodes.size ≤ x.1 ∧ s.nodes.size ≤ x.2 ∧ e.Stands s'.nodes x)
        es xs := by
  -- On the entries, with the tokens of one after the other taken off the source.
  induction es generalizing fuel s with
  | nil =>
    obtain ⟨fuel, rfl⟩ : ∃ j, fuel = j + 1 := ⟨fuel - 1, by omega⟩
    obtain ⟨t, ts, hts, hkind, hmore⟩ := tokens_cons h
    refine ⟨[], { s with tokens := ts }, ?_, hmore, .refl _, .nil⟩
    unfold blockEntries
    rw [run_bind _ (run_peek hts)]
    simp only [hkind]
    rw [if_neg (by simp), if_pos trivial, run_bind _ (run_pass s), hts]
    rfl
  | cons e es ih =>
    rw [List.flatMap_cons, List.append_assoc] at h
    have hkinds : e.kinds.length = e.valueKinds.length + 3 := rfl
    rw [List.flatMap_cons, List.length_append, hkinds] at hfuel
    obtain ⟨fuel, rfl⟩ : ∃ j, fuel = j + 2 := ⟨fuel - 2, by omega⟩
    obtain ⟨t, ts, hts, hkind, hrest⟩ := tokens_cons h
    let s₁ : Source := { s with tokens := ts }
    obtain ⟨t₁, ts₁, hts₁, hkind₁, -⟩ := tokens_cons (s := s₁) hrest
    obtain ⟨s₂, hrun₂, hmore₂, hext₂, hkey₂⟩ := reads_text fuel true true (s := s₁) hrest
       (Nat.le_of_lt hdepth)
    obtain ⟨t₂, ts₂, hts₂, hkind₂, hvalue⟩ := tokens_cons hmore₂
    let s₃ : Source := { s₂ with tokens := ts₂ }
    obtain ⟨kind, kinds, hfirst, hends⟩ := valueKinds_first e
    have hvalue' : ts₂.map (·.kind) = kind :: (kinds ++ (es.flatMap FlatEntry.kinds ++
        .blockEnd :: more)) := by
      rw [hvalue, hfirst]
      rfl
    obtain ⟨t₃, ts₃, hts₃, hkind₃, -⟩ := tokens_cons (s := s₃) hvalue'
    have hfuel₄ : e.valueKinds.length ≤ fuel := by omega
    obtain ⟨s₄, hrun₄, hmore₄, hext₄, hstands₄⟩ := reads_value (s := s₃) hvalue hfuel₄ hdepth hkey₂
    have hfuel₅ : (es.flatMap FlatEntry.kinds).length < fuel + 1 := by omega
    obtain ⟨xs, s₅, hrun₅, hmore₅, hext₅, hstands₅⟩ := ih hmore₄ hfuel₅
    -- Parts are only added, so an entry stands in the graph that comes of those after it.
    have hgrown : s.nodes.Extends s₄.nodes := hext₂.trans hext₄
    refine ⟨(s.nodes.size, s₂.nodes.size) :: xs, s₅, ?_, hmore₅, hgrown.trans hext₅,
      .cons ⟨Nat.le_refl _, hext₂.1, hstands₄.extends hext₅⟩ ?_⟩
    · have hkeyPart : (part (node (fuel + 1) (depth + 1) true true) [.key, .value, .blockEnd]
          t.stop).run s₁ = .ok (s.nodes.size, s₂) :=
        (run_part hts₁ (by simp [hkind₁])).trans hrun₂
      have hvaluePart : (valuePart (node (fuel + 1) (depth + 1) true true)
          [.key, .value, .blockEnd]).run s₂ = .ok (s₂.nodes.size, s₄) :=
        (run_valuePart hts₂ hkind₂ hts₃ (hkind₃ ▸ hends)).trans hrun₄
      unfold blockEntries
      rw [run_bind _ (run_peek hts), if_pos hkind, run_bind _ (run_pass s), hts]
      show StateT.run _ s₁ = _
      rw [run_bind _ hkeyPart, run_bind _ hvaluePart, run_bind _ hrun₅]
      rfl
    · exact hstands₅.imp fun _ _ hx =>
        ⟨Nat.le_trans hgrown.1 hx.1, Nat.le_trans hgrown.1 hx.2.1, hx.2.2⟩

end Reader

/-- A graph of a flat document: its root is a mapping, and the entries stand after it. -/
structure Graph.Holds (g : Graph) (es : List FlatEntry) (xs : List (Nat × Nat)) : Prop where
  grown : 0 < g.size
  root : ∃ mark, g.node 0 = .mapping (standardTag "map") xs mark
  entries : List.Forall₂ (fun e x => 0 < x.1 ∧ 0 < x.2 ∧ e.Stands g x) es xs

theorem FlatEntry.Stands.change {g : Graph} {e : FlatEntry} {x : Nat × Nat} {j : Nat}
    (h : e.Stands g x) (f : Node → Node) (hkey : j < x.1) (hvalue : j < x.2) :
    e.Stands (g.change j f) x := by
  cases e with
  | text key value => exact ⟨h.1.change f (Nat.ne_of_lt hkey), h.2.change f (Nat.ne_of_lt hvalue)⟩
  | list key items =>
    obtain ⟨hk, hv, is, mark, hnode, hitems⟩ := h
    refine ⟨hk.change f (Nat.ne_of_lt hkey), ?_, is, mark, ?_, hitems.imp fun _ i hi => ?_⟩
    · rw [Graph.size_change]
      exact hv
    · exact (Graph.node_change_ne f (Nat.ne_of_lt hvalue)).trans hnode
    · exact ⟨hi.1, hi.2.change f (Nat.ne_of_lt (Nat.lt_trans hvalue hi.1))⟩

namespace Reader

variable {s : Source}

theorem run_skipEnds {fuel : Nat} {kinds : List TokenKind}
    (h : s.tokens.map (·.kind) = .streamEnd :: kinds) : (skipEnds fuel).run s = .ok ((), s) := by
  cases fuel with
  | zero => rfl
  | succ fuel =>
    obtain ⟨t, ts, hts, hkind, -⟩ := tokens_cons h
    unfold skipEnds
    rw [run_bind _ (run_peek hts), if_neg (by simp [hkind])]
    rfl

theorem run_alone {fuel root : Nat} {kinds : List TokenKind}
    (h : s.tokens.map (·.kind) = .streamEnd :: kinds) :
    (alone fuel root).run s = .ok (some root, s) := by
  obtain ⟨t, ts, hts, hkind, -⟩ := tokens_cons h
  have hsingle (first : Mark) : (singleDocument fuel first).run s = .ok ((), s) := by
    unfold singleDocument
    rw [run_bind _ (run_skipEnds h), run_bind _ (run_peek hts), if_neg (by simp [hkind])]
    rfl
  unfold alone
  rw [run_bind _ (run_skipEnds h),
    run_bind _ (show (get : Reader Source).run s = .ok (s, s) from rfl), run_bind _ (hsingle _)]
  rfl

end Reader

open Reader in
theorem FlatDocument.readGraph_chars {doc : FlatDocument} (h : doc.Reads) :
    ∃ g xs, readGraph ⟨doc.chars, none⟩ = .ok (some (g, 0)) ∧
      g.Holds (doc.entries.map (·.1)) xs := by
  obtain ⟨ts, hts, htokens⟩ := tokens_chars h
  let es := doc.entries.map (·.1)
  have hkinds : ts.map (·.kind) = .streamStart :: .blockMappingStart ::
      (es.flatMap FlatEntry.kinds ++ .blockEnd :: [.streamEnd]) := by
    rw [hts, FlatDocument.kinds, List.flatMap_map]
    rfl
  have hcount : (es.flatMap FlatEntry.kinds).length < 4 * ts.length + 7 := by
    have := congrArg List.length hkinds
    simp only [List.length_map, List.length_cons, List.length_append] at this
    omega
  -- The nodes come behind the root, which has its place before its entries are read.
  let s₀ : Source := ⟨ts, none, standardHandles, #[], []⟩
  obtain ⟨t₀, ts₀, hts₀, -, hrest⟩ := tokens_cons (s := s₀) hkinds
  let s₁ : Source := { s₀ with tokens := ts₀ }
  obtain ⟨t, ts₁, hts₁, hkind, hentries⟩ := tokens_cons (s := s₁) hrest
  let g : Graph := #[.mapping (standardTag "map") [] t.start]
  obtain ⟨xs, s₂, hrun, hmore, hext, hstands⟩ := reads_entries 0 t.start
    (s := { s₁ with tokens := ts₁, nodes := g }) hentries hcount (by decide)
  have hgrown : g.Extends s₂.nodes := hext
  have hpass : (pass *> blockEntries (4 * ts.length + 7) 0 t.start).run { s₁ with nodes := g } =
      .ok (xs, s₂) := (run_pass_then (s := { s₁ with nodes := g }) hts₁).trans hrun
  have hsize : 0 < s₂.nodes.size := hgrown.1
  have hroot : s₂.nodes.node 0 = .mapping (standardTag "map") [] t.start :=
    hgrown.2 0 (Nat.zero_lt_one)
  let s₃ : Source := { s₂ with nodes := s₂.nodes.change 0 (.withEntries xs) }
  have hnode : (node (4 * ts.length + 8) 0 true false).run s₁ = .ok (0, s₃) :=
    ((run_collection hts₁ (by decide)).2 hkind).trans (run_mapping hpass)
  have hdocument : (document (4 * ts.length + 8)).run s₀ = .ok (some 0, s₃) := by
    unfold document
    rw [run_bind _ (run_pass s₀), hts₀]
    show StateT.run _ s₁ = _
    rw [run_bind _ (run_peek hts₁)]
    simp only [hkind]
    rw [run_bind _ hnode]
    exact run_alone hmore
  refine ⟨s₃.nodes, xs, ?_, ?_, ⟨t.start, ?_⟩, hstands.imp fun e x hx => ?_⟩
  · unfold readGraph
    rw [htokens]
    show ((document (4 * ts.length + 8)).run s₀).bind _ = _
    rw [hdocument]
    rfl
  · show 0 < (s₂.nodes.change 0 _).size
    rw [Graph.size_change]
    exact hsize
  · show (s₂.nodes.change 0 _).node 0 = _
    rw [Graph.node_change_self _ hsize, hroot]
    rfl
  · have hkey : 0 < x.1 := hx.1
    have hvalue : 0 < x.2 := hx.2.1
    exact ⟨hkey, hvalue, hx.2.2.change _ hkey hvalue⟩

end EditorLint.Yaml
