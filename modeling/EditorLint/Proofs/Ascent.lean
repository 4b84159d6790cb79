import EditorLint.Machine
import EditorLint.Proofs.Searching
import Mathlib.Data.Prod.Lex
import Mathlib.Order.Bounds.Defs
import Mathlib.Data.Set.Basic

/-!
# The order of a search

A search goes up from a directory and tries every name there before it goes on.  Its steps are
spots: how far up, and which of the names.  The spots within reach are those up to the bound and
up to the root, and a search goes through them in lexicographic order until a probe says that
something is there, or fails (`ends_upward`).

What is proved of `locate`, in `locate_first_hit`:

* it finds the path at the least spot where something is, unless a probe fails before;
* it finds nothing where no probe says so, and none fails;
* it fails where a probe fails before there is a hit, with the failure of the first such probe;
* each directory comes up once, the root too, and what is found is absolute and has no dots.

Nothing is assumed of the probe, so the file system may be any, with links or without.
-/

namespace EditorLint

namespace Path

/-! ## Directories above -/

/-- The directory a number of steps above another one. -/
def ancestor (p : Path) : Nat → Path
  | 0 => p
  | i + 1 => (p.ancestor i).parent

def IsRoot (p : Path) : Prop := p.parent = p

theorem isRoot_iff {p : Path} : p.IsRoot ↔ p.parts = [] := by
  obtain ⟨root, parts⟩ := p
  unfold IsRoot parent
  rw [Path.mk.injEq]
  constructor
  · intro h
    have hlength : parts.dropLast.length = parts.length := congrArg List.length h.2
    rw [List.length_dropLast] at hlength
    apply List.eq_nil_of_length_eq_zero
    show parts.length = 0
    omega
  · intro h
    obtain rfl : parts = [] := h
    exact ⟨rfl, rfl⟩

theorem ancestor_succ (p : Path) (i : Nat) : p.ancestor (i + 1) = p.parent.ancestor i := by
  induction i with
  | zero => rfl
  | succ i ih => exact congrArg parent ih

theorem length_ancestor (p : Path) (i : Nat) :
    (p.ancestor i).parts.length = p.parts.length - i := by
  induction i with
  | zero => rfl
  | succ i ih =>
    have hparent : (p.ancestor (i + 1)).parts = (p.ancestor i).parts.dropLast := rfl
    rw [hparent, List.length_dropLast, ih]
    omega

theorem isRoot_ancestor_iff (p : Path) (i : Nat) :
    (p.ancestor i).IsRoot ↔ p.parts.length ≤ i := by
  rw [isRoot_iff, ← List.length_eq_zero_iff, length_ancestor]
  omega

/-- As long as no root has been passed, every step up leads to another directory. -/
theorem eq_of_ancestor_eq {p : Path} {i j : Nat} (hi : i ≤ p.parts.length)
    (hj : j ≤ p.parts.length) (h : p.ancestor i = p.ancestor j) : i = j := by
  have hlength : p.parts.length - i = p.parts.length - j := by
    rw [← length_ancestor, ← length_ancestor, h]
  omega

theorem existsUnique_root (p : Path) :
    ∃! i, (p.ancestor i).IsRoot ∧ ∀ k < i, ¬(p.ancestor k).IsRoot := by
  simp only [isRoot_ancestor_iff]
  refine ⟨p.parts.length, ⟨Nat.le_refl _, fun k hk => by omega⟩, ?_⟩
  rintro i ⟨hroot, hbelow⟩
  by_contra hne
  exact hbelow p.parts.length (by omega) (Nat.le_refl _)

/-- Folding an absolute path leaves no double dots: there is something to take away, or the
root, where they do nothing. -/
theorem normalize_undotted {p : Path} (habsolute : p.isAbsolute = true) :
    ∀ part ∈ p.normalize.parts, part.isString ".." = false := by
  have hfold (parts done : List Text) (hdone : ∀ part ∈ done, part.isString ".." = false) :
      ∀ part ∈ parts.foldl (foldPart true) done, part.isString ".." = false := by
    induction parts generalizing done with
    | nil => exact hdone
    | cons next parts ih =>
      apply ih
      intro part hpart
      unfold foldPart at hpart
      split at hpart
      · split at hpart
        · cases hpart
        · rename_i hfilled
          have hlast : (done.getLastD []).isString ".." = false := by
            rw [List.getLastD_eq_getLast?, List.getLast?_eq_some_getLast (by simpa using hfilled)]
            exact hdone _ (List.getLast_mem _)
          rw [if_neg (Bool.eq_false_iff.mp hlast)] at hpart
          exact hdone part (List.dropLast_subset _ hpart)
      · rename_i hnext
        rcases List.mem_append.mp hpart with h | h
        · exact hdone part h
        · rw [List.mem_singleton.mp h]
          exact Bool.eq_false_iff.mpr hnext
  unfold normalize
  rw [habsolute]
  exact hfold p.parts [] (by simp)

end Path

namespace Search

/-! ## Spots -/

/-- A step of a search: how far up, and which of the names.  The directory counts more. -/
abbrev Spot := Nat ×ₗ Nat

def Spot.level (x : Spot) : Nat := (ofLex x).1

/-- Which of the names is tried at a spot. -/
def Spot.turn (x : Spot) : Nat := (ofLex x).2

/-- The spots within reach and their paths: the bound is kept, and no root has been passed. -/
structure Reaches (directory : Path) (names : List Text) (maxDepth : Int) (x : Spot) (p : Path) :
    Prop where
  bound : (x.level : Int) ≤ maxDepth
  below : ∀ k < x.level, ¬(directory.ancestor k).IsRoot
  named : ∃ name, names[x.turn]? = some name ∧ p = (directory.ancestor x.level).child name

theorem Reaches.level_le {directory p : Path} {names : List Text} {maxDepth : Int} {x : Spot}
    (h : Reaches directory names maxDepth x p) : x.level ≤ directory.parts.length := by
  by_contra hpassed
  exact h.below directory.parts.length (by omega)
    ((Path.isRoot_ancestor_iff directory _).mpr (Nat.le_refl _))

theorem Reaches.unique {directory p q : Path} {names : List Text} {maxDepth : Int} {x : Spot}
    (hp : Reaches directory names maxDepth x p) (hq : Reaches directory names maxDepth x q) :
    p = q := by
  obtain ⟨name, hname, rfl⟩ := hp.named
  obtain ⟨name', hname', rfl⟩ := hq.named
  rw [hname] at hname'
  cases hname'
  rfl

/-! ## How a search ends -/

/-- The probes of all spots before one say that nothing is there. -/
def NothingBefore (probe : Path → Except Failure Bool) (At : Spot → Path → Prop) (x : Spot) :
    Prop :=
  ∀ y q, At y q → y < x → probe q = .ok false

/-- How a search ends that goes through some spots in order: at the first one where something
is, at the first one where the probe fails, or behind them all. -/
inductive Ends (probe : Path → Except Failure Bool) (At : Spot → Path → Prop) :
    Except Failure (Option Path) → Prop where
  | found {x : Spot} {p : Path} (here : At x p) (there : probe p = .ok true)
    (before : NothingBefore probe At x) : Ends probe At (.ok (some p))
  | failed {x : Spot} {p : Path} {f : Failure} (here : At x p) (fails : probe p = .error f)
    (before : NothingBefore probe At x) : Ends probe At (.error f)
  | nothing (all : ∀ x p, At x p → probe p = .ok false) : Ends probe At (.ok none)

/-- A search that goes on where it has found nothing. -/
def orElse (r r' : Except Failure (Option Path)) : Except Failure (Option Path) :=
  match r with
  | .ok none => r'
  | r => r

section Order

variable {probe : Path → Except Failure Bool} {At First Rest : Spot → Path → Prop}
  {r r' : Except Failure (Option Path)}

/-- A search through some spots and then through others, which come later and in their order. -/
theorem Ends.orElse {shift : Spot → Spot} (mono : StrictMono shift)
    (parts : ∀ x p, At x p ↔ First x p ∨ ∃ y, x = shift y ∧ Rest y p)
    (later : ∀ x p y, First x p → x < shift y) (h : Ends probe First r)
    (h' : Ends probe Rest r') : Ends probe At (orElse r r') := by
  have hfirst {x : Spot} {p : Path} (here : First x p) (before : NothingBefore probe First x) :
      NothingBefore probe At x := by
    intro y q hy hlt
    rcases (parts y q).mp hy with hy | ⟨z, rfl, -⟩
    · exact before y q hy hlt
    · exact absurd hlt (not_lt_of_gt (later x p z here))
  cases h with
  | found here there before => exact .found ((parts _ _).mpr (.inl here)) there (hfirst here before)
  | failed here fails before =>
    exact .failed ((parts _ _).mpr (.inl here)) fails (hfirst here before)
  | nothing all =>
    have hrest {x : Spot} (before : NothingBefore probe Rest x) :
        NothingBefore probe At (shift x) := by
      intro y q hy hlt
      rcases (parts y q).mp hy with hy | ⟨z, rfl, hz⟩
      · exact all y q hy
      · exact before z q hz (mono.lt_iff_lt.mp hlt)
    cases h' with
    | found here there before =>
      exact .found ((parts _ _).mpr (.inr ⟨_, rfl, here⟩)) there (hrest before)
    | failed here fails before =>
      exact .failed ((parts _ _).mpr (.inr ⟨_, rfl, here⟩)) fails (hrest before)
    | nothing all' =>
      refine .nothing fun x p hx => ?_
      rcases (parts x p).mp hx with hx | ⟨z, -, hz⟩
      · exact all x p hx
      · exact all' z p hz

/-- Only one spot has nothing before it and something to end the search. -/
theorem eq_of_nothingBefore {x y : Spot} {p q : Path} (hx : At x p) (hy : At y q)
    (hp : probe p ≠ .ok false) (hq : probe q ≠ .ok false) (before : NothingBefore probe At x)
    (before' : NothingBefore probe At y) : x = y := by
  rcases lt_trichotomy x y with h | h | h
  · exact absurd (before' x p hx h) hp
  · exact h
  · exact absurd (before y q hy h) hq

variable (single : ∀ x p q, At x p → At x q → p = q)
include single

theorem Ends.found_iff (h : Ends probe At r) {p : Path} :
    r = .ok (some p) ↔ ∃ x, At x p ∧ probe p = .ok true ∧ NothingBefore probe At x := by
  constructor
  · rintro rfl
    cases h with
    | found here there before => exact ⟨_, here, there, before⟩
  · rintro ⟨x, here, there, before⟩
    cases h with
    | @found y q here' there' before' =>
      obtain rfl := eq_of_nothingBefore here here' (by simp [there]) (by simp [there'])
        before before'
      rw [single x p q here here']
    | @failed y q f here' fails before' =>
      obtain rfl := eq_of_nothingBefore here here' (by simp [there]) (by simp [fails])
        before before'
      rw [single x q p here' here, there] at fails
      cases fails
    | nothing all => cases (all x p here).symm.trans there

theorem Ends.failed_iff (h : Ends probe At r) {f : Failure} :
    r = .error f ↔ ∃ x p, At x p ∧ probe p = .error f ∧ NothingBefore probe At x := by
  constructor
  · rintro rfl
    cases h with
    | failed here fails before => exact ⟨_, _, here, fails, before⟩
  · rintro ⟨x, p, here, fails, before⟩
    cases h with
    | @found y q here' there' before' =>
      obtain rfl := eq_of_nothingBefore here here' (by simp [fails]) (by simp [there'])
        before before'
      rw [single x q p here' here, fails] at there'
      cases there'
    | @failed y q g here' fails' before' =>
      obtain rfl := eq_of_nothingBefore here here' (by simp [fails]) (by simp [fails'])
        before before'
      rw [single x q p here' here, fails] at fails'
      cases fails'
      rfl
    | nothing all => cases (all x p here).symm.trans fails

omit single in
theorem Ends.nothing_iff (h : Ends probe At r) :
    r = .ok none ↔ ∀ x p, At x p → probe p = .ok false := by
  constructor
  · rintro rfl
    cases h with
    | nothing all => exact all
  · intro hall
    cases h with
    | found here there before => cases (hall _ _ here).symm.trans there
    | failed here fails before => cases (hall _ _ here).symm.trans fails
    | nothing all => rfl

end Order

/-! ## The search -/

def Spot.next (x : Spot) : Spot := toLex (x.level, x.turn + 1)

def Spot.up (x : Spot) : Spot := toLex (x.level + 1, x.turn)

theorem Spot.lt_iff {x y : Spot} :
    x < y ↔ x.level < y.level ∨ x.level = y.level ∧ x.turn < y.turn :=
  Prod.Lex.lt_iff

theorem Spot.strictMono_next : StrictMono Spot.next := by
  intro x y h
  rw [lt_iff] at h ⊢
  show x.level < y.level ∨ x.level = y.level ∧ x.turn + 1 < y.turn + 1
  omega

theorem Spot.strictMono_up : StrictMono Spot.up := by
  intro x y h
  rw [lt_iff] at h ⊢
  show x.level + 1 < y.level + 1 ∨ x.level + 1 = y.level + 1 ∧ x.turn < y.turn
  omega

/-- The spots within reach are those of the directory itself and, unless it is a root, those of
the directory above it. -/
theorem reaches_iff {directory p : Path} {names : List Text} {maxDepth : Int} (h : 0 ≤ maxDepth)
    {x : Spot} :
    Reaches directory names maxDepth x p ↔
      (x.level = 0 ∧ ∃ name, names[x.turn]? = some name ∧ p = directory.child name) ∨
        ∃ y, x = y.up ∧ ¬directory.IsRoot ∧ Reaches directory.parent names (maxDepth - 1) y p := by
  constructor
  · intro hx
    obtain ⟨hbound, hbelow, hnamed⟩ := hx
    cases hlevel : x.level with
    | zero =>
      rw [hlevel] at hnamed
      exact .inl ⟨rfl, hnamed⟩
    | succ i =>
      rw [hlevel] at hbound hbelow hnamed
      rw [Path.ancestor_succ] at hnamed
      refine .inr ⟨toLex (i, x.turn), congrArg toLex (Prod.ext hlevel rfl), hbelow 0 (by omega), ?_⟩
      refine ⟨?_, fun k hk => ?_, hnamed⟩
      · show (i : Int) ≤ maxDepth - 1
        omega
      · rw [← Path.ancestor_succ]
        exact hbelow (k + 1) (Nat.succ_lt_succ hk)
  · rintro (⟨hlevel, hnamed⟩ | ⟨y, rfl, hroot, hbound, hbelow, hnamed⟩)
    · refine ⟨by omega, by omega, ?_⟩
      rw [hlevel]
      exact hnamed
    · refine ⟨?_, fun k hk => ?_, ?_⟩
      · show ((y.level + 1 : Nat) : Int) ≤ maxDepth
        omega
      · cases k with
        | zero => exact hroot
        | succ k =>
          rw [Path.ancestor_succ]
          exact hbelow k (Nat.lt_of_succ_lt_succ hk)
      · rw [← Path.ancestor_succ] at hnamed
        exact hnamed

variable (probe : Path → Except Failure Bool)

def tried (p : Path) : Except Failure (Option Path) :=
  (probe p).map fun there => if there then some p else none

theorem inDirectory_cons (directory : Path) (name : Text) (rest : List Text) :
    inDirectory probe directory (name :: rest) =
      Search.orElse (tried probe (directory.child name)) (inDirectory probe directory rest) := by
  show (probe (directory.child name) >>= _) = _
  unfold tried
  cases probe (directory.child name) with
  | error f => rfl
  | ok there => cases there <;> rfl

theorem upward_succ (names : List Text) (levels : Nat) (directory : Path) :
    upward probe names (levels + 1) directory =
      Search.orElse (inDirectory probe directory names)
        (if directory.parent == directory then .ok none
          else upward probe names levels directory.parent) := by
  show (inDirectory probe directory names >>= _) = _
  cases inDirectory probe directory names with
  | error f => rfl
  | ok found => cases found <;> rfl

theorem ends_tried (x : Spot) (p : Path) :
    Ends probe (fun y q => y = x ∧ q = p) (tried probe p) := by
  have hbefore : NothingBefore probe (fun y q => y = x ∧ q = p) x := by
    rintro y q ⟨rfl, -⟩ hlt
    exact absurd hlt (lt_irrefl y)
  unfold tried
  cases hprobe : probe p with
  | error f => exact .failed ⟨rfl, rfl⟩ hprobe hbefore
  | ok there =>
    cases there with
    | true => exact .found ⟨rfl, rfl⟩ hprobe hbefore
    | false =>
      refine .nothing ?_
      rintro y q ⟨-, rfl⟩
      exact hprobe

theorem ends_inDirectory (directory : Path) (names : List Text) :
    Ends probe
      (fun x p => x.level = 0 ∧ ∃ name, names[x.turn]? = some name ∧ p = directory.child name)
      (inDirectory probe directory names) := by
  induction names with
  | nil => exact .nothing fun x p ⟨_, name, hname, _⟩ => by simp at hname
  | cons name rest ih =>
    rw [inDirectory_cons]
    have hfirst := ends_tried probe (toLex (0, 0)) (directory.child name)
    refine Ends.orElse Spot.strictMono_next (fun x p => ?_) ?_ hfirst ih
    · constructor
      · rintro ⟨hlevel, name', hname', rfl⟩
        cases hturn : x.turn with
        | zero =>
          rw [hturn] at hname'
          cases hname'
          exact .inl ⟨congrArg toLex (Prod.ext hlevel hturn), rfl⟩
        | succ j =>
          rw [hturn] at hname'
          have hx : x = Spot.next (toLex (0, j)) := congrArg toLex (Prod.ext hlevel hturn)
          exact .inr ⟨_, hx, rfl, name', hname', rfl⟩
      · rintro (⟨rfl, rfl⟩ | ⟨y, rfl, hlevel, name', hname', rfl⟩)
        · exact ⟨rfl, name, rfl, rfl⟩
        · exact ⟨hlevel, name', hname', rfl⟩
    · rintro x p y ⟨rfl, -⟩
      rw [Spot.lt_iff]
      show 0 < y.level ∨ 0 = y.level ∧ 0 < y.turn + 1
      omega

/-- From a directory upward the directories are tried in their order, up to the root. -/
theorem ends_upward (names : List Text) (levels : Nat) (directory : Path) :
    Ends probe (Reaches directory names ((levels : Int) - 1))
      (upward probe names levels directory) := by
  induction levels generalizing directory with
  | zero =>
    refine .nothing fun x p hx => ?_
    have hbound := hx.bound
    omega
  | succ levels ih =>
    have habove : Ends probe
        (fun y p => ¬directory.IsRoot ∧
          Reaches directory.parent names (((levels + 1 : Nat) : Int) - 1 - 1) y p)
        (if directory.parent == directory then .ok none
          else upward probe names levels directory.parent) := by
      have hlevels : ((levels + 1 : Nat) : Int) - 1 - 1 = (levels : Int) - 1 := by omega
      rw [hlevels]
      by_cases hroot : directory.IsRoot
      · rw [if_pos (beq_iff_eq.mpr hroot)]
        exact .nothing fun y p hy => absurd hroot hy.1
      · rw [if_neg (mt beq_iff_eq.mp hroot)]
        simpa only [hroot, not_false_eq_true, true_and] using ih directory.parent
    rw [upward_succ]
    refine Ends.orElse Spot.strictMono_up (fun x p => reaches_iff (by omega)) ?_
      (ends_inDirectory probe directory names) habove
    rintro x p y ⟨hlevel, -⟩
    rw [Spot.lt_iff]
    show x.level < y.level + 1 ∨ _
    omega

theorem reaches_levels_iff {directory p : Path} {names : List Text} {maxDepth : Int} {x : Spot} :
    Reaches directory names (((maxDepth + 1).toNat : Int) - 1) x p ↔
      Reaches directory names maxDepth x p := by
  constructor
  · rintro ⟨hbound, hbelow, hnamed⟩
    exact ⟨by omega, hbelow, hnamed⟩
  · rintro ⟨hbound, hbelow, hnamed⟩
    exact ⟨by omega, hbelow, hnamed⟩

section Locate

variable (directory : Path) (names : List Text) (maxDepth : Int)

def hits : Set Spot := {x | ∃ p, Reaches directory names maxDepth x p ∧ probe p = .ok true}

def failures : Set Spot := {x | ∃ p f, Reaches directory names maxDepth x p ∧ probe p = .error f}

theorem nothingBefore_iff (x : Spot) :
    NothingBefore probe (Reaches directory names maxDepth) x ↔
      (∀ y ∈ hits probe directory names maxDepth, x ≤ y) ∧
        ∀ y ∈ failures probe directory names maxDepth, x ≤ y := by
  constructor
  · intro h
    constructor
    · rintro y ⟨q, hy, there⟩
      refine le_of_not_gt fun hlt => ?_
      cases (h y q hy hlt).symm.trans there
    · rintro y ⟨q, f, hy, fails⟩
      refine le_of_not_gt fun hlt => ?_
      cases (h y q hy hlt).symm.trans fails
  · rintro ⟨hhits, hfailures⟩ y q hy hlt
    cases hprobe : probe q with
    | error f => exact absurd hlt (not_lt_of_ge (hfailures y ⟨q, f, hy, hprobe⟩))
    | ok there =>
      cases there with
      | true => exact absurd hlt (not_lt_of_ge (hhits y ⟨q, hy, hprobe⟩))
      | false => rfl

variable {directory names maxDepth probe}

theorem ne_of_hits_of_failures {x y : Spot} (hx : x ∈ hits probe directory names maxDepth)
    (hy : y ∈ failures probe directory names maxDepth) : x ≠ y := by
  rintro rfl
  obtain ⟨p, hp, there⟩ := hx
  obtain ⟨q, f, hq, fails⟩ := hy
  rw [hp.unique hq, fails] at there
  cases there

theorem hit_iff {x : Spot} {p : Path} (here : Reaches directory names maxDepth x p) :
    (probe p = .ok true ∧ NothingBefore probe (Reaches directory names maxDepth) x) ↔
      IsLeast (hits probe directory names maxDepth) x ∧
        ∀ y ∈ failures probe directory names maxDepth, x < y := by
  rw [nothingBefore_iff]
  constructor
  · rintro ⟨there, hhits, hfailures⟩
    have hx : x ∈ hits probe directory names maxDepth := ⟨p, here, there⟩
    exact ⟨⟨hx, hhits⟩, fun y hy => lt_of_le_of_ne (hfailures y hy) (ne_of_hits_of_failures hx hy)⟩
  · rintro ⟨⟨⟨q, hq, there⟩, hhits⟩, hfailures⟩
    rw [here.unique hq]
    exact ⟨there, hhits, fun y hy => le_of_lt (hfailures y hy)⟩

theorem failure_iff {x : Spot} {p : Path} {f : Failure}
    (here : Reaches directory names maxDepth x p) :
    (probe p = .error f ∧ NothingBefore probe (Reaches directory names maxDepth) x) ↔
      probe p = .error f ∧ IsLeast (failures probe directory names maxDepth) x ∧
        ∀ y ∈ hits probe directory names maxDepth, x < y := by
  rw [nothingBefore_iff]
  refine and_congr_right fun fails => ?_
  have hx : x ∈ failures probe directory names maxDepth := ⟨p, f, here, fails⟩
  constructor
  · rintro ⟨hhits, hfailures⟩
    exact ⟨⟨hx, hfailures⟩,
      fun y hy => lt_of_le_of_ne (hhits y hy) (ne_of_hits_of_failures hy hx).symm⟩
  · rintro ⟨⟨-, hfailures⟩, hhits⟩
    exact ⟨fun y hy => le_of_lt (hhits y hy), hfailures⟩

theorem nowhere_iff :
    (∀ x p, Reaches directory names maxDepth x p → probe p = .ok false) ↔
      hits probe directory names maxDepth = ∅ ∧ failures probe directory names maxDepth = ∅ := by
  simp only [Set.eq_empty_iff_forall_notMem]
  constructor
  · intro hall
    constructor
    · rintro x ⟨p, here, there⟩
      cases (hall x p here).symm.trans there
    · rintro x ⟨p, f, here, fails⟩
      cases (hall x p here).symm.trans fails
  · rintro ⟨hhits, hfailures⟩ x p here
    cases hprobe : probe p with
    | error f => exact absurd ⟨p, f, here, hprobe⟩ (hfailures x)
    | ok there =>
      cases there with
      | true => exact absurd ⟨p, here, hprobe⟩ (hhits x)
      | false => rfl

variable (directory names maxDepth probe)

theorem ends_levels :
    Ends probe (Reaches directory names maxDepth)
      (upward probe names (maxDepth + 1).toNat directory) := by
  have hupward := ends_upward probe names (maxDepth + 1).toNat directory
  have hsame : Reaches directory names (((maxDepth + 1).toNat : Int) - 1) =
      Reaches directory names maxDepth := by
    funext x p
    exact propext reaches_levels_iff
  rwa [hsame] at hupward

end Locate

/-! ## What is located -/

section Located

variable {probe : Path → Except Failure Bool} {cwd start : Path} {names : List Text}
  {maxDepth : Int}

theorem locate_none_iff :
    locate probe cwd start names maxDepth = .ok none ↔
      upward probe names (maxDepth + 1).toNat (cwd.resolveLexically start) = .ok none := by
  show (upward probe names _ _ >>= _) = _ ↔ _
  rw [bind_eq_ok]
  constructor
  · rintro ⟨_ | hit, h, hmap⟩
    · exact h
    · cases hmap
  · exact fun h => ⟨none, h, rfl⟩

theorem locate_error_iff (f : Failure) :
    locate probe cwd start names maxDepth = .error f ↔
      upward probe names (maxDepth + 1).toNat (cwd.resolveLexically start) = .error f := by
  show (upward probe names _ _ >>= _) = _ ↔ _
  cases upward probe names (maxDepth + 1).toNat (cwd.resolveLexically start) with
  | error g => exact ⟨fun h => by cases h; rfl, fun h => by cases h; rfl⟩
  | ok found => exact ⟨fun h => (by cases h), fun h => (by cases h)⟩

variable (absolute : cwd.isAbsolute = true) (written : cwd.IsWritten) (hstart : start.IsWritten)
include absolute written hstart

theorem isAbsolute_hit {levels : Nat} {hit : Path}
    (h : upward probe names levels (cwd.resolveLexically start) = .ok (some hit)) :
    hit.isAbsolute = true ∧ hit.IsWritten := by
  have hdirectory : (cwd.resolveLexically start).isAbsolute = true :=
    Path.isAbsolute_join absolute start
  exact (of_upward hdirectory (written.join hstart).normalize h).2

/-- The hit is absolute, so that folding it does not depend on where one is. -/
theorem locate_some_iff (found : Path) :
    locate probe cwd start names maxDepth = .ok (some found) ↔
      ∃ hit, upward probe names (maxDepth + 1).toNat (cwd.resolveLexically start) =
        .ok (some hit) ∧ found = hit.normalize := by
  have hfolded {hit : Path} (h : upward probe names (maxDepth + 1).toNat
      (cwd.resolveLexically start) = .ok (some hit)) : cwd.resolveLexically hit = hit.normalize :=
    congrArg Path.normalize
      (Path.join_of_isAbsolute (isAbsolute_hit absolute written hstart h).1 cwd)
  show (upward probe names _ _ >>= _) = _ ↔ _
  rw [bind_eq_ok]
  constructor
  · rintro ⟨_ | hit, h, hmap⟩
    · cases hmap
    · cases hmap
      exact ⟨hit, h, hfolded h⟩
  · rintro ⟨hit, h, rfl⟩
    exact ⟨some hit, h, by rw [← hfolded h]; rfl⟩

end Located

/-- What is located is the folded path at the least spot where something is, unless the probe
fails before; nothing is located where nothing is and no probe fails; and the failure is that
of the least spot where the probe fails before there is a hit.  What is located is absolute
and has no dots.  No directory comes up twice, and of all that come up one is the root. -/
theorem locate_first_hit {cwd start : Path} (absolute : cwd.isAbsolute = true)
    (written : cwd.IsWritten) (hstart : start.IsWritten) (probe : Path → Except Failure Bool)
    (names : List Text) (maxDepth : Int) :
    let directory := cwd.resolveLexically start
    let Reached := Reaches directory names maxDepth
    let hits := hits probe directory names maxDepth
    let failures := failures probe directory names maxDepth
    (∀ found, locate probe cwd start names maxDepth = .ok (some found) ↔
      ∃ x hit, Reached x hit ∧ IsLeast hits x ∧ (∀ y ∈ failures, x < y) ∧
        found = hit.normalize) ∧
    (locate probe cwd start names maxDepth = .ok none ↔ hits = ∅ ∧ failures = ∅) ∧
    (∀ f, locate probe cwd start names maxDepth = .error f ↔
      ∃ x p, Reached x p ∧ probe p = .error f ∧ IsLeast failures x ∧ ∀ y ∈ hits, x < y) ∧
    (∀ found, locate probe cwd start names maxDepth = .ok (some found) →
      found.isAbsolute = true ∧ found.IsWritten ∧
        ∀ part ∈ found.parts, part.isString ".." = false) ∧
    (∀ x p y q, Reached x p → Reached y q →
      directory.ancestor x.level = directory.ancestor y.level → x.level = y.level) ∧
    ∃! i, (directory.ancestor i).IsRoot ∧ ∀ k < i, ¬(directory.ancestor k).IsRoot := by
  intro directory Reached hits failures
  -- On the levels the search is a walk along `Reached` that ends with the first hit or failure.
  have hends : Ends probe Reached (upward probe names (maxDepth + 1).toNat directory) :=
    ends_levels probe directory names maxDepth
  have hsingle : ∀ x p q, Reached x p → Reached x q → p = q := fun x p q hp hq => hp.unique hq
  have hsome (found : Path) : locate probe cwd start names maxDepth = .ok (some found) ↔
      ∃ hit, upward probe names (maxDepth + 1).toNat directory = .ok (some hit) ∧
        found = hit.normalize := locate_some_iff absolute written hstart found
  refine ⟨fun found => ?_, ?_, fun f => ?_, ?_, ?_, ?_⟩
  · rw [hsome]
    constructor
    · rintro ⟨hit, h, rfl⟩
      obtain ⟨x, here, hhit⟩ := (hends.found_iff hsingle).mp h
      obtain ⟨hleast, hfailures⟩ := (hit_iff here).mp hhit
      exact ⟨x, hit, here, hleast, hfailures, rfl⟩
    · rintro ⟨x, hit, here, hleast, hfailures, rfl⟩
      have hhit := (hit_iff here).mpr ⟨hleast, hfailures⟩
      exact ⟨hit, (hends.found_iff hsingle).mpr ⟨x, here, hhit⟩, rfl⟩
  · rw [locate_none_iff, hends.nothing_iff]
    exact nowhere_iff
  · rw [locate_error_iff, hends.failed_iff hsingle]
    exact exists_congr fun x => exists_congr fun p => and_congr_right failure_iff
  · intro found h
    obtain ⟨hit, hhit, rfl⟩ := (hsome found).mp h
    obtain ⟨habsolute, hwritten⟩ := isAbsolute_hit absolute written hstart hhit
    exact ⟨habsolute, hwritten.normalize, Path.normalize_undotted habsolute⟩
  · intro x p y q hx hy hsame
    exact Path.eq_of_ancestor_eq hx.level_le hy.level_le hsame
  · exact Path.existsUnique_root directory

/-- From a dotted directory below, the second name in the directory above, behind a link, is
found before the first name at the root. -/
theorem locate_first_hit_linked :
    let m : Machine :=
      ⟨.ofNodes [([], .directory), (["eslint.config.js"], .file [] false), (["d"], .directory),
        (["d", "eslint.config.mjs"], .linkTo "../eslint.config.js"), (["d", "e"], .directory)],
        Path.ofString "/d", [], .alone "/root"⟩
    let names : List Text := ["eslint.config.js", "eslint.config.mjs"]
    let found := Path.ofString "/d/eslint.config.mjs"
    locate m.probe m.cwd (Path.ofString "./x/../e") names 100 = .ok (some found) ∧
      ∃ x hit, Reaches (Path.ofString "/d/e") names 100 x hit ∧
        IsLeast (hits m.probe (Path.ofString "/d/e") names 100) x ∧
        (∀ y ∈ failures m.probe (Path.ofString "/d/e") names 100, x < y) ∧
        found = hit.normalize := by
  intro m names found
  have hlocate : locate m.probe m.cwd (Path.ofString "./x/../e") names 100 = .ok (some found) :=
    ok_of_toOption (by decide +kernel)
  have hdirectory : m.cwd.resolveLexically (Path.ofString "./x/../e") = Path.ofString "/d/e" := by
    decide +kernel
  have habsolute : m.cwd.isAbsolute = true := by decide +kernel
  have hwritten : m.cwd.IsWritten := Path.isWritten_ofText _
  have hstart : (Path.ofString "./x/../e").IsWritten := Path.isWritten_ofText _
  obtain ⟨hfound, -⟩ := locate_first_hit habsolute hwritten hstart m.probe names 100
  rw [hdirectory] at hfound
  exact ⟨hlocate, (hfound found).mp hlocate⟩

end Search

end EditorLint
