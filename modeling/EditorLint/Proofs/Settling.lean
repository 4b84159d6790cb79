import EditorLint.Yaml.Value
import Mathlib.Data.List.Forall2

/-!
# Values without circles

Values refer to one another by number.  Where every value refers to later ones only, one
round over them from the last to the first puts all of them together, and another round
finds nothing more to do.
-/

namespace EditorLint.Yaml

theorem mapM_eq_some {α β : Type} {f : α → Option β} {l : List α} {l' : List β} :
    l.mapM f = some l' ↔ List.Forall₂ (fun a b => f a = some b) l l' := by
  induction l generalizing l' with
  | nil =>
    constructor
    · intro h
      obtain rfl := Option.some.inj h
      exact .nil
    · intro h
      cases h
      rfl
  | cons a l ih =>
    rw [List.mapM_cons]
    constructor
    · intro h
      obtain ⟨b, hb, h⟩ := Option.bind_eq_some_iff.mp h
      obtain ⟨bs, hbs, h⟩ := Option.bind_eq_some_iff.mp h
      obtain rfl := Option.some.inj h
      exact .cons hb (ih.mp hbs)
    · intro h
      cases h with
      | cons hb hbs =>
        rw [hb, ih.mpr hbs]
        rfl

theorem mapM_congr {α β : Type} {f g : α → Option β} {l : List α} (h : ∀ a ∈ l, f a = g a) :
    l.mapM f = l.mapM g := by
  induction l with
  | nil => rfl
  | cons a l ih =>
    rw [List.mapM_cons, List.mapM_cons, h a List.mem_cons_self,
      ih fun b hb => h b (List.mem_cons_of_mem a hb)]

theorem isSome_mapM {α β : Type} {f : α → Option β} {l : List α} (h : ∀ a ∈ l, (f a).isSome) :
    (l.mapM f).isSome := by
  induction l with
  | nil => rfl
  | cons a l ih =>
    obtain ⟨b, hb⟩ := Option.isSome_iff_exists.mp (h a List.mem_cons_self)
    obtain ⟨bs, hbs⟩ :=
      Option.isSome_iff_exists.mp (ih fun b hb => h b (List.mem_cons_of_mem a hb))
    rw [List.mapM_cons, hb, hbs]
    rfl

namespace Value

def parts : Value → List Nat
  | plain _ | noNumber => []
  | list items | set items => items
  | pairs entries | mapping entries => entries.flatMap fun (k, v) => [k, v]

variable {inner inner' : Nat → Option Datum} {v : Value}

theorem datum?_congr (h : ∀ j ∈ v.parts, inner j = inner' j) :
    v.datum? inner = v.datum? inner' := by
  have hentries {α : Type} {entries : List (Nat × Nat)} (f : Datum → Datum → α)
      (he : ∀ j ∈ entries.flatMap fun (k, v) => [k, v], inner j = inner' j) :
      (entries.mapM fun (k, v) => do return f (← inner k) (← inner v)) =
        entries.mapM fun (k, v) => do return f (← inner' k) (← inner' v) := by
    refine mapM_congr fun (k, v) hx => ?_
    have hk := he k (List.mem_flatMap.mpr ⟨(k, v), hx, by simp⟩)
    have hv := he v (List.mem_flatMap.mpr ⟨(k, v), hx, by simp⟩)
    dsimp only
    rw [hk, hv]
  cases v with
  | plain d => rfl
  | noNumber => rfl
  | list items => exact congrArg (·.map Datum.list) (mapM_congr h)
  | set items => exact congrArg (·.map Datum.set) (mapM_congr h)
  | pairs entries => exact congrArg (·.map Datum.list) (hentries Datum.pair h)
  | mapping entries => exact congrArg (·.map Datum.mapping) (hentries Prod.mk h)

theorem isSome_entries {α : Type} {entries : List (Nat × Nat)} (f : Datum → Datum → α)
    (h : ∀ j ∈ entries.flatMap fun (k, v) => [k, v], (inner j).isSome) :
    (entries.mapM fun (k, v) => do return f (← inner k) (← inner v)).isSome := by
  apply isSome_mapM
  intro x hx
  obtain ⟨k, v⟩ := x
  obtain ⟨d, hk⟩ := Option.isSome_iff_exists.mp (h k (List.mem_flatMap.mpr ⟨(k, v), hx, by simp⟩))
  obtain ⟨e, hv⟩ := Option.isSome_iff_exists.mp (h v (List.mem_flatMap.mpr ⟨(k, v), hx, by simp⟩))
  dsimp only
  rw [hk, hv]
  rfl

theorem isSome_datum? (h : ∀ j ∈ v.parts, (inner j).isSome) : (v.datum? inner).isSome := by
  cases v with
  | plain d => rfl
  | noNumber => rfl
  | list items =>
    rw [datum?, Option.isSome_map]
    exact isSome_mapM h
  | set items =>
    rw [datum?, Option.isSome_map]
    exact isSome_mapM h
  | pairs entries =>
    rw [datum?, Option.isSome_map]
    exact isSome_entries Datum.pair h
  | mapping entries =>
    rw [datum?, Option.isSome_map]
    exact isSome_entries Prod.mk h

end Value

namespace Values

/-- Values each of which refers to later values only, which are there. -/
def Ordered (vs : Values) : Prop :=
  ∀ i v, vs.getD i none = some v → ∀ j ∈ v.parts, i < j ∧ (vs.getD j none).isSome

def settleOne (vs : Values) (i : Nat) (known : Array (Option Datum)) : Array (Option Datum) :=
  match known.getD i none, vs.getD i none with
  | none, some v => known.setIfInBounds i (v.datum? fun j => known.getD j none)
  | _, _ => known

theorem settleOnce_eq (vs : Values) (known : Array (Option Datum)) :
    vs.settleOnce known = (List.range vs.size).foldr vs.settleOne known := rfl

theorem size_settleOne (vs : Values) (i : Nat) (known : Array (Option Datum)) :
    (vs.settleOne i known).size = known.size := by
  unfold settleOne
  split <;> simp

theorem settleOne_ne (vs : Values) {i j : Nat} (known : Array (Option Datum)) (h : i ≠ j) :
    (vs.settleOne i known).getD j none = known.getD j none := by
  unfold settleOne
  split
  · simp [h]
  · rfl

theorem settleOne_self {vs : Values} {i : Nat} {known : Array (Option Datum)} {v : Value}
    (hnone : known.getD i none = none) (hsome : vs.getD i none = some v) (hi : i < known.size) :
    (vs.settleOne i known).getD i none = v.datum? fun j => known.getD j none := by
  unfold settleOne
  rw [hnone, hsome]
  simp [hi]

/-- From the last value to one of them: what was put together is the datum of each, and the
others are still to come. -/
theorem Ordered.settles {vs : Values} (h : vs.Ordered) {m k : Nat} (hm : m + k = vs.size) :
    ∃ known, (List.range' m k).foldr vs.settleOne (Array.replicate vs.size none) = known ∧
      known.size = vs.size ∧ (∀ i < m, known.getD i none = none) ∧
      ∀ i v, m ≤ i → vs.getD i none = some v →
        known.getD i none = v.datum? (fun j => known.getD j none) ∧
        (known.getD i none).isSome := by
  -- On the number of values behind `m`: a round takes the last value first.
  induction k generalizing m with
  | zero =>
    refine ⟨_, rfl, by simp, fun i hi => ?_, fun i v hi hv => ?_⟩
    · show (Array.replicate vs.size none).getD i none = none
      rw [Array.getD_eq_getD_getElem?, Array.getElem?_replicate]
      split <;> rfl
    · rw [Array.getD_eq_getD_getElem?, Array.getElem?_eq_none (by omega)] at hv
      cases hv
  | succ k ih =>
    obtain ⟨known, hknown, hsize, hnone, hsettled⟩ := ih (m := m + 1) (by omega)
    refine ⟨vs.settleOne m known, ?_, ?_, fun i hi => ?_, fun i v hi hv => ?_⟩
    · rw [List.range'_succ, List.foldr_cons, hknown]
    · rw [size_settleOne, hsize]
    · rw [settleOne_ne vs known (Nat.ne_of_gt hi)]
      exact hnone i (by omega)
    · -- What stands inside a value comes after it, and this step leaves it alone.
      have hinside : v.datum? (fun j => (vs.settleOne m known).getD j none) =
          v.datum? fun j => known.getD j none := by
        refine Value.datum?_congr fun j hj => settleOne_ne vs known ?_
        have := (h i v hv j hj).1
        omega
      rw [hinside]
      by_cases hmi : m = i
      · subst hmi
        have hsize' : m < known.size := by omega
        rw [settleOne_self (hnone m (Nat.lt_succ_self m)) hv hsize']
        refine ⟨rfl, Value.isSome_datum? fun j hj => ?_⟩
        obtain ⟨hlater, hthere⟩ := h m v hv j hj
        obtain ⟨w, hw⟩ := Option.isSome_iff_exists.mp hthere
        exact (hsettled j w hlater hw).2
      · rw [settleOne_ne vs known hmi]
        exact hsettled i v (by omega) hv

theorem settleOnce_settled {vs : Values} {known : Array (Option Datum)}
    (h : ∀ i v, vs.getD i none = some v → (known.getD i none).isSome) :
    vs.settleOnce known = known := by
  have hone (i : Nat) : vs.settleOne i known = known := by
    unfold settleOne
    split
    · rename_i v hnone hsome
      have := h i v hsome
      rw [hnone] at this
      cases this
    · rfl
  rw [settleOnce_eq]
  induction List.range vs.size with
  | nil => rfl
  | cons i is ih => rw [List.foldr_cons, ih, hone]

theorem settle_settled {vs : Values} {known : Array (Option Datum)} (fuel : Nat)
    (h : ∀ i v, vs.getD i none = some v → (known.getD i none).isSome) :
    vs.settle fuel known = known := by
  cases fuel with
  | zero => rfl
  | succ fuel =>
    unfold settle
    rw [settleOnce_settled h]
    simp

theorem count_eq (known : Array (Option Datum)) :
    count known = known.toList.countP Option.isSome := by
  have hfold (l : List (Option Datum)) (n : Nat) :
      l.foldl (fun n d => if d.isSome then n + 1 else n) n = n + l.countP Option.isSome := by
    induction l generalizing n with
    | nil => rfl
    | cons d l ih =>
      rw [List.foldl_cons, ih, List.countP_cons]
      cases d with
      | none => rfl
      | some d =>
        show n + 1 + l.countP Option.isSome = n + (l.countP Option.isSome + 1)
        omega
  unfold count
  rw [← Array.foldl_toList, hfold, Nat.zero_add]

/-- Values that refer to later ones only: the datum of each is made of those inside it. -/
theorem Ordered.exists_data {vs : Values} (h : vs.Ordered) {root : Nat} {v : Value}
    (hroot : vs.getD root none = some v) :
    ∃ data : Nat → Option Datum, data root = some (vs.datum root) ∧
      ∀ i v, vs.getD i none = some v → data i = v.datum? data ∧ (data i).isSome := by
  obtain ⟨known, hknown, -, -, hsettled⟩ := h.settles (m := 0) (k := vs.size) (Nat.zero_add _)
  have hall : ∀ i v, vs.getD i none = some v → (known.getD i none).isSome :=
    fun i v hv => (hsettled i v (Nat.zero_le i) hv).2
  -- The first round puts everything together, and the second finds nothing to do.
  have hsettle : vs.settle (vs.size + 1) (Array.replicate vs.size none) = known := by
    have hround : vs.settleOnce (Array.replicate vs.size none) = known := by
      rw [settleOnce_eq, List.range_eq_range', hknown]
    have hmore : count known ≠ count (Array.replicate vs.size none) := by
      have hnone : count (Array.replicate vs.size none) = 0 := by simp [count_eq]
      have hsome : 0 < count known := by
        obtain ⟨d, hd⟩ := Option.isSome_iff_exists.mp (hall root v hroot)
        rw [count_eq, List.countP_pos_iff]
        refine ⟨some d, ?_, rfl⟩
        rw [Array.getD_eq_getD_getElem?] at hd
        cases helem : known[root]? with
        | none =>
          rw [helem] at hd
          cases hd
        | some x =>
          rw [helem] at hd
          rw [← show x = some d from hd]
          exact Array.mem_toList_iff.mpr (Array.mem_of_getElem? helem)
      omega
    unfold settle
    rw [hround]
    dsimp only
    rw [if_neg hmore]
    exact settle_settled _ hall
  refine ⟨fun i => known.getD i none, ?_, fun i v hv => hsettled i v (Nat.zero_le i) hv⟩
  obtain ⟨d, hd⟩ := Option.isSome_iff_exists.mp (hall root v hroot)
  show known.getD root none = _
  unfold datum
  rw [hsettle]
  dsimp only
  rw [hd]

end Values

end EditorLint.Yaml
