import Mathlib.Data.List.Induction
import Mathlib.Data.List.Nodup
import EditorLint.Proofs.Ascent

/-!
# Names that come again

The user may name a file twice, or one that is tried anyway.  A search specification has each
name once, where it comes first (`distinct_concat`, `pairwise_distinct`).

Trying a name again in the same directory is idle: the search is there only because the name
was not found before.  So the search by a specification ends as the one through all the names
does, whatever the probe says of any path (`locateBy_spec`).
-/

namespace EditorLint.Search

/-! ## The order of the names -/

/-- A name is added at the end, unless it is there already. -/
theorem distinct_concat (names : List Text) (name : Text) :
    distinct (names ++ [name]) =
      if (distinct names).contains name then distinct names else distinct names ++ [name] := by
  unfold distinct
  rw [List.foldl_append, List.foldl_cons, List.foldl_nil]

theorem mem_distinct {names : List Text} {name : Text} : name ∈ distinct names ↔ name ∈ names := by
  induction names using List.reverseRecOn with
  | nil => rfl
  | append_singleton names last ih =>
    rw [distinct_concat]
    split
    · rename_i hagain
      have hlast : last ∈ distinct names := by simpa using hagain
      grind
    · grind

theorem nodup_distinct (names : List Text) : (distinct names).Nodup := by
  induction names using List.reverseRecOn with
  | nil => exact List.nodup_nil
  | append_singleton names last ih =>
    rw [distinct_concat]
    split
    · exact ih
    · rename_i hnew
      have hnew : last ∉ distinct names := by simpa using hnew
      exact List.nodup_append.mpr ⟨ih, List.nodup_singleton last, by grind⟩

/-- The names keep the order in which they come first. -/
theorem pairwise_distinct (names : List Text) :
    (distinct names).Pairwise fun a b => names.idxOf a < names.idxOf b := by
  induction names using List.reverseRecOn with
  | nil => exact List.Pairwise.nil
  | append_singleton names last ih =>
    have hsame {a : Text} (ha : a ∈ distinct names) :
        (names ++ [last]).idxOf a = names.idxOf a :=
      List.idxOf_append_of_mem (mem_distinct.mp ha)
    have hkept : (distinct names).Pairwise fun a b =>
        (names ++ [last]).idxOf a < (names ++ [last]).idxOf b :=
      ih.imp_of_mem fun ha hb hab => by rwa [hsame ha, hsame hb]
    rw [distinct_concat]
    split
    · exact hkept
    · rename_i hnew
      have hnew : last ∉ names := fun h => hnew (by simpa using mem_distinct.mpr h)
      refine List.pairwise_append.mpr ⟨hkept, List.pairwise_singleton _ _, fun a ha b hb => ?_⟩
      -- The new name stands behind all that are there.
      rw [List.mem_singleton.mp hb, hsame ha, List.idxOf_append_of_notMem hnew]
      exact Nat.lt_add_right _ (List.idxOf_lt_length_of_mem (mem_distinct.mp ha))

/-! ## The search through them -/

theorem orElse_assoc (r r' r'' : Except Failure (Option Path)) :
    orElse (orElse r r') r'' = orElse r (orElse r' r'') := by
  cases r with
  | error f => rfl
  | ok found => cases found <;> rfl

theorem orElse_of_idle {r r' : Except Failure (Option Path)} (h : r = .ok none → r' = .ok none) :
    orElse r r' = r := by
  unfold orElse
  split
  · rw [h rfl]
  · rfl

section Search

variable {probe : Path → Except Failure Bool} {directory : Path} {names more : List Text}

theorem inDirectory_none_iff : inDirectory probe directory names = .ok none ↔
    ∀ name ∈ names, probe (directory.child name) = .ok false := by
  induction names with
  | nil => simp [inDirectory]
  | cons name rest ih =>
    rw [List.forall_mem_cons, ← ih, inDirectory_cons, tried]
    cases probe (directory.child name) with
    | error f => simp [orElse, Except.map]
    | ok there => cases there <;> simp [orElse, Except.map]

theorem inDirectory_append : inDirectory probe directory (names ++ more) =
    orElse (inDirectory probe directory names) (inDirectory probe directory more) := by
  induction names with
  | nil => rfl
  | cons name rest ih =>
    rw [List.cons_append, inDirectory_cons, inDirectory_cons, ih, orElse_assoc]

theorem inDirectory_distinct (names : List Text) :
    inDirectory probe directory (distinct names) = inDirectory probe directory names := by
  induction names using List.reverseRecOn with
  | nil => rfl
  | append_singleton names last ih =>
    rw [distinct_concat, inDirectory_append]
    split
    · rename_i hagain
      have hlast : last ∈ names := mem_distinct.mp (by simpa using hagain)
      rw [ih]
      refine (orElse_of_idle fun hnone => inDirectory_none_iff.mpr fun name hname => ?_).symm
      rw [List.mem_singleton.mp hname]
      exact inDirectory_none_iff.mp hnone last hlast
    · rw [inDirectory_append, ih]

theorem upward_congr {names names' : List Text}
    (h : ∀ directory, inDirectory probe directory names = inDirectory probe directory names')
    (levels : Nat) (directory : Path) :
    upward probe names levels directory = upward probe names' levels directory := by
  induction levels generalizing directory with
  | zero => rfl
  | succ levels ih =>
    unfold upward
    rw [h directory, ih]

end Search

/-- A specification has each name of the user and each default one once, and no other, in the
order in which they come first.  From any start, with any bound, and whatever is there or
cannot be probed, the search by it ends as the one does that tries all the names, those that
come again too. -/
theorem locateBy_spec (names : List Text) (maxDepth : Int) :
    let all := names ++ defaultNames
    ((spec names maxDepth).names.Nodup ∧
      (∀ name, name ∈ (spec names maxDepth).names ↔ name ∈ all) ∧
      (spec names maxDepth).names.Pairwise fun a b => all.idxOf a < all.idxOf b) ∧
    (spec names maxDepth).maxDepth = maxDepth ∧
    ∀ (probe : Path → Except Failure Bool) (cwd start : Path),
      locateBy probe cwd start (spec names maxDepth) = locate probe cwd start all maxDepth := by
  intro all
  refine ⟨⟨nodup_distinct all, fun name => mem_distinct, pairwise_distinct all⟩, rfl, ?_⟩
  intro probe cwd start
  show locate probe cwd start (distinct all) maxDepth = locate probe cwd start all maxDepth
  unfold locate
  rw [upward_congr fun directory => inDirectory_distinct all]

/-- A default name that the user gives first, and twice, is tried first, and once. -/
example : (spec ["b", "eslint.config.ts", "b"] 3).names =
    (["b", "eslint.config.ts", "eslint.config.js", "eslint.config.mjs", "eslint.config.cjs",
      "eslint.config.mts", "eslint.config.cts"] : List Text) := by decide +kernel

end EditorLint.Search
