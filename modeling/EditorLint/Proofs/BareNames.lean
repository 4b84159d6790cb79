import EditorLint.Proofs.Ascent
import EditorLint.Proofs.Bounds
import EditorLint.Proofs.SearchNames
import EditorLint.Proofs.Spawning

/-!
# What a bare name finds

Settings are accepted if their configuration names are bare: filled and without slashes.  Two
bare names are not names of anything in a directory: a dot is the directory itself, and two dots
are the directory above (`Path.normalize_child`).

So a configuration that is found lies directly inside one of the directories that were searched,
is none of them itself, and the linter is started in that directory, exactly where the name that
was found is neither of the two, nor the name of the directory that the search came up from
(`found_inside_iff`).
-/

namespace EditorLint

/-! ## Names in directories -/

namespace Path

/-- A name in a directory, taken as it stands. -/
def entry (p : Path) (name : Text) : Path := ⟨p.root, p.parts ++ [name]⟩

@[simp] theorem parent_entry (p : Path) (name : Text) : (p.entry name).parent = p := by
  unfold entry parent
  rw [List.dropLast_concat]

@[simp] theorem name_entry (p : Path) (name : Text) : (p.entry name).name = name := by
  unfold entry Path.name
  rw [List.getLastD_concat]

theorem length_entry (p : Path) (name : Text) :
    (p.entry name).parts.length = p.parts.length + 1 :=
  List.length_append

theorem entry_parent_name {p : Path} (h : p.parts ≠ []) : p.parent.entry p.name = p := by
  unfold entry parent name
  rw [List.getLastD_eq_getLast?, List.getLast?_eq_some_getLast h]
  exact congrArg (Path.mk p.root) (List.dropLast_concat_getLast h)

theorem ofText_bare {name : Text} (h : LinterSettings.IsBare name) :
    ofText name = ⟨.relative, if name = "." then [] else [name]⟩ := by
  have hundivided : ∀ c ∈ name, c.isChar '/' = false := fun c hc =>
    Bool.eq_false_iff.mpr fun hslash => h.slash (LinterSettings.eq_of_isChar hslash ▸ hc)
  have hroot : rootOf name = .relative :=
    (rootOf_of_head? fun c hc => hundivided c (List.mem_of_mem_head? hc)).1
  have hparts : partsOf name = if name = "." then [] else [name] := by
    unfold partsOf
    rw [Text.splitOn_undivided hundivided]
    by_cases hdot : name = "." <;> simp [Text.isString, hdot, h.filled]
  rw [ofText, hroot, hparts]

theorem child_bare {name : Text} (h : LinterSettings.IsBare name) (p : Path) :
    p.child name = if name = "." then p else p.entry name := by
  unfold child join
  rw [ofText_bare h, if_neg (by simp [isAbsolute])]
  split <;> simp [entry]

theorem isAbsolute_ancestor (p : Path) (k : Nat) : (p.ancestor k).isAbsolute = p.isAbsolute := by
  induction k with
  | zero => rfl
  | succ k ih => exact ih

theorem mem_ancestor {p : Path} {k : Nat} {part : Text} (h : part ∈ (p.ancestor k).parts) :
    part ∈ p.parts := by
  induction k with
  | zero => exact h
  | succ k ih => exact ih (List.dropLast_subset _ h)

theorem normalize_of_undotted {p : Path} (h : ∀ part ∈ p.parts, part.isString ".." = false) :
    p.normalize = p := by
  have hfold (parts done : List Text) (h : ∀ part ∈ parts, part.isString ".." = false) :
      parts.foldl (foldPart p.isAbsolute) done = done ++ parts := by
    induction parts generalizing done with
    | nil => exact (List.append_nil done).symm
    | cons part parts ih =>
      obtain ⟨hpart, hparts⟩ := List.forall_mem_cons.mp h
      rw [List.foldl_cons, ih _ hparts, foldPart, if_neg (Bool.eq_false_iff.mp hpart),
        List.append_assoc]
      rfl
  unfold normalize
  rw [hfold p.parts [] h]
  rfl

/-- Double dots behind other names lead one directory up, and from a root nowhere. -/
theorem normalize_entry_up {p : Path} (habsolute : p.isAbsolute = true)
    (h : ∀ part ∈ p.parts, part.isString ".." = false) : (p.entry "..").normalize = p.parent := by
  have hparts : p.parts.foldl (foldPart p.isAbsolute) [] = p.parts :=
    congrArg Path.parts (normalize_of_undotted h)
  have hup : foldPart true p.parts ".." = p.parts.dropLast := by
    unfold foldPart
    rw [if_pos (by decide)]
    split
    · rename_i hempty
      rw [List.isEmpty_iff.mp hempty]
      rfl
    · rename_i hfilled
      rw [List.getLastD_eq_getLast?, List.getLast?_eq_some_getLast (by simpa using hfilled)]
      exact if_neg (Bool.eq_false_iff.mp (h _ (List.getLast_mem _)))
  have hroot : (p.entry "..").isAbsolute = p.isAbsolute := rfl
  unfold normalize parent
  rw [hroot]
  show (⟨p.root, (p.parts ++ [_]).foldl _ []⟩ : Path) = _
  rw [List.foldl_append, hparts, List.foldl_cons, List.foldl_nil, habsolute, hup]

/-- A bare name in a directory, folded: that name, or the directory itself, or the one above. -/
theorem normalize_child {p : Path} (habsolute : p.isAbsolute = true)
    (h : ∀ part ∈ p.parts, part.isString ".." = false) {name : Text}
    (hname : LinterSettings.IsBare name) :
    (p.child name).normalize =
      if name = "." then p else if name = ".." then p.parent else p.entry name := by
  rw [child_bare hname]
  by_cases hdot : name = "."
  · rw [if_pos hdot, if_pos hdot, normalize_of_undotted h]
  rw [if_neg hdot, if_neg hdot]
  by_cases hup : name = ".."
  · rw [if_pos hup, hup, normalize_entry_up habsolute h]
  · rw [if_neg hup]
    refine normalize_of_undotted fun part hpart => ?_
    rcases List.mem_append.mp hpart with hpart | hpart
    · exact h part hpart
    · rw [List.mem_singleton.mp hpart]
      exact Bool.eq_false_iff.mpr (mt beq_iff_eq.mp hup)

end Path

/-! ## Settings that are accepted -/

/-- A field that is accepted has a property that its default has and that its check ensures. -/
theorem Check.holds_of_field {α : Type} {loc : Check.Loc} {es : Entries} {name : String}
    {default a : α} {check : Check.Loc → Datum → Checked α} {P : α → Prop} (hdefault : P default)
    (hcheck : ∀ loc d a, check loc d = .valid a → P a)
    (h : Check.field loc es name default check = .valid a) : P a := by
  have hfield := Check.field_eq_valid.mp h
  split at hfield
  · exact hfield ▸ hdefault
  · exact hcheck _ _ _ hfield

/-- The names of settings that are accepted are bare, and the number of steps is not negative. -/
theorem LinterSettings.bare_of_check {loc : Check.Loc} {es : Entries} {s : LinterSettings}
    (h : check loc es = .valid s) : (∀ name ∈ s.configNames, IsBare name) ∧ 0 ≤ s.maxAscent := by
  obtain ⟨⟨⟨eslint, shell⟩, names, onSave, ⟨timeout, delay⟩, ascent⟩, hfields, rfl⟩ :=
    Checked.map_eq_valid.mp h
  obtain ⟨-, hfields⟩ := Checked.both_eq_valid.mp hfields
  obtain ⟨hnames, hfields⟩ := Checked.both_eq_valid.mp hfields
  obtain ⟨-, hfields⟩ := Checked.both_eq_valid.mp hfields
  obtain ⟨-, hascent⟩ := Checked.both_eq_valid.mp hfields
  constructor
  · exact Check.holds_of_field (P := fun names => ∀ name ∈ names, IsBare name)
      (List.forall_mem_nil _) (fun _ _ _ => Config.bare_of_checkNames) hnames
  · exact Check.holds_of_field (P := fun n => 0 ≤ n) (by decide)
      (fun _ _ _ hn => Int.not_lt.mp (Config.not_of_ruled (· < 0) _ hn)) hascent

namespace Search

theorem isBare_defaultNames : ∀ name ∈ defaultNames, LinterSettings.IsBare name := by
  intro name hname
  rw [← LinterSettings.isBareName_iff]
  revert name
  decide

/-! ## Directories that are searched -/

def Searched (directory : Path) (maxDepth : Int) (p : Path) : Prop :=
  ∃ k : Nat, (k : Int) ≤ maxDepth ∧ p = directory.ancestor k

section Above

variable {directory : Path} {maxDepth : Int} {k : Nat} {name : Text}

/-- A name in a directory that a search goes through is such a directory, too, where the search
came up from it. -/
theorem searched_entry_iff (hbound : (k : Int) ≤ maxDepth) (hlevel : k ≤ directory.parts.length) :
    Searched directory maxDepth ((directory.ancestor k).entry name) ↔
      ∃ j, k = j + 1 ∧ name = (directory.ancestor j).name := by
  constructor
  · rintro ⟨j, -, hsame⟩
    have hlength := congrArg (fun p : Path => p.parts.length) hsame
    simp only [Path.length_entry, Path.length_ancestor] at hlength
    refine ⟨j, by omega, ?_⟩
    rw [← hsame, Path.name_entry]
  · rintro ⟨j, rfl, rfl⟩
    have hfilled : (directory.ancestor j).parts ≠ [] := by
      intro hempty
      have hlength := Path.length_ancestor directory j
      rw [hempty, List.length_nil] at hlength
      omega
    exact ⟨j, by omega, Path.entry_parent_name hfilled⟩

/-- The directory above one that a search goes through lies in none of those that it goes through,
unless it is one of them. -/
theorem searched_above {p : Path} (habove : Searched directory maxDepth p)
    (hinside : directory.ancestor (k + 1) = p.entry name) :
    Searched directory maxDepth (directory.ancestor (k + 1)) := by
  obtain ⟨j, hj, rfl⟩ := habove
  have hlength := congrArg (fun p : Path => p.parts.length) hinside
  simp only [Path.length_entry, Path.length_ancestor] at hlength
  exact ⟨k + 1, by omega, rfl⟩

end Above

end Search

open Search

/-! ## Configurations that are found -/

/-- The directory of a document, absolute and folded. -/
def Machine.directoryOf (m : Machine) (path : Path) : Path := m.cwd.resolveLexically path.parent

section Found

variable (m : Machine) (s : LinterSettings) (path config : Path)

/-- A configuration of a document is the folded path of what is there so far up under a name. -/
structure FoundAt (k : Nat) (name : Text) : Prop where
  bound : (k : Int) ≤ s.maxAscent
  named : name ∈ s.configNames ∨ name ∈ defaultNames
  there : m.probe (((m.directoryOf path).ancestor k).child name) = .ok true
  folded : config =
    if name = "." then (m.directoryOf path).ancestor k
    else if name = ".." then ((m.directoryOf path).ancestor k).parent
    else ((m.directoryOf path).ancestor k).entry name

/-- What a configuration of a document should be: something that is there, right in a directory
that was searched, under a name of the user or a default one; and the linter is started in that
directory, if it can be. -/
structure LiesIn (directory : Path) (name : Text) : Prop where
  searched : Searched (m.directoryOf path) s.maxAscent directory
  named : name ∈ s.configNames ∨ name ∈ defaultNames
  inside : config = directory.entry name
  there : m.probe config = .ok true
  started : ∀ (h : Handler) task text child, (task = .willSave → s.fixOnSave = true) →
    let i := Invocation.build s config path task.mode (Request.input task text)
    (Request.run h m (.ok s) task path text child).attempts =
        [⟨i.command, directory, i.input.isSome⟩] ∧
      (child.refusal = none → .spawn i.command directory i.input.isSome ∈
        Effect.processes (Request.run h m (.ok s) task path text child).effects)

end Found

section Found

variable {m : Machine} {s : LinterSettings} {path config : Path}

/-- Whatever is found was found somewhere, under a bare name, and no further up than the root. -/
theorem exists_foundAt (bare : ∀ name ∈ s.configNames, LinterSettings.IsBare name)
    (absolute : m.cwd.isAbsolute = true) (written : m.cwd.IsWritten) (hpath : path.IsWritten)
    (found : locateBy m.probe m.cwd path.parent (spec s.configNames s.maxAscent) =
      .ok (some config)) :
    ∃ k name, FoundAt m s path config k name ∧ LinterSettings.IsBare name ∧
      k ≤ (m.directoryOf path).parts.length := by
  have hdirectory : m.cwd.resolveLexically path.parent = m.directoryOf path := rfl
  obtain ⟨hsome, -⟩ := locate_first_hit absolute written hpath.parent m.probe
    (spec s.configNames s.maxAscent).names s.maxAscent
  rw [hdirectory] at hsome
  obtain ⟨x, hit, here, ⟨⟨q, hq, there⟩, -⟩, -, hfolded⟩ := (hsome config).mp found
  rw [hq.unique here] at there
  obtain ⟨name, hname, rfl⟩ := here.named
  have hnamed : name ∈ s.configNames ∨ name ∈ defaultNames :=
    List.mem_append.mp (mem_distinct.mp (List.mem_of_getElem? hname))
  have hname : LinterSettings.IsBare name := hnamed.elim (bare name) (isBare_defaultNames name)
  have hjoined : (m.cwd.join path.parent).isAbsolute = true := Path.isAbsolute_join absolute _
  have habsolute : ((m.directoryOf path).ancestor x.level).isAbsolute = true :=
    (Path.isAbsolute_ancestor _ _).trans hjoined
  rw [Path.normalize_child habsolute
    (fun part hpart => Path.normalize_undotted hjoined part (Path.mem_ancestor hpart)) hname]
    at hfolded
  exact ⟨x.level, name, ⟨here.bound, hnamed, there, hfolded⟩, hname, here.level_le⟩

variable {k : Nat} {name : Text} (h : FoundAt m s path config k name)
include h

theorem FoundAt.eq_entry (hdot : name ≠ ".") (hup : name ≠ "..") :
    config = ((m.directoryOf path).ancestor k).entry name := by
  have hfolded := h.folded
  rwa [if_neg hdot, if_neg hup] at hfolded

theorem FoundAt.liesIn (bare : LinterSettings.IsBare name) (hdot : name ≠ ".") (hup : name ≠ "..")
    (found : locateBy m.probe m.cwd path.parent (spec s.configNames s.maxAscent) =
      .ok (some config)) :
    LiesIn m s path config ((m.directoryOf path).ancestor k) name where
  searched := ⟨k, h.bound, rfl⟩
  named := h.named
  inside := h.eq_entry hdot hup
  there := by
    have there := h.there
    rwa [Path.child_bare bare, if_neg hdot, ← h.eq_entry hdot hup] at there
  started handler task text child runs := by
    have hcwd : config.parent = (m.directoryOf path).ancestor k := by
      rw [h.eq_entry hdot hup, Path.parent_entry]
    rw [← hcwd]
    exact Request.attempts_of_found handler text child runs found

/-- What is found as one of the two dots is a directory that was searched, or the one above. -/
theorem FoundAt.not_liesIn (hdots : name = "." ∨ name = "..") :
    ¬((∃ d n, LiesIn m s path config d n) ∧ ¬Searched (m.directoryOf path) s.maxAscent config) := by
  rintro ⟨⟨d, n, hlies⟩, hnot⟩
  apply hnot
  have hfolded := h.folded
  by_cases hdot : name = "."
  · rw [if_pos hdot] at hfolded
    exact ⟨k, h.bound, hfolded⟩
  · rw [if_neg hdot, if_pos (hdots.resolve_left hdot)] at hfolded
    have habove : config = (m.directoryOf path).ancestor (k + 1) := hfolded
    rw [habove]
    exact searched_above hlies.searched (habove.symm.trans hlies.inside)

end Found

/-- A configuration that is found is what it should be, and no directory that was searched,
exactly if the name that it was found under is no dot, no double dot, and not the name of the
directory that the search came up from. -/
theorem found_inside_iff {loc : Check.Loc} {es : Entries} {s : LinterSettings}
    (accepted : LinterSettings.check loc es = .valid s) {m : Machine}
    (absolute : m.cwd.isAbsolute = true) (written : m.cwd.IsWritten) {path config : Path}
    (hpath : path.IsWritten)
    (found : locateBy m.probe m.cwd path.parent (spec s.configNames s.maxAscent) =
      .ok (some config)) :
    let directory := m.directoryOf path
    ∃ k name, FoundAt m s path config k name ∧
      (((∃ d n, LiesIn m s path config d n) ∧ ¬Searched directory s.maxAscent config) ↔
        name ≠ "." ∧ name ≠ ".." ∧ ∀ j, k = j + 1 → name ≠ (directory.ancestor j).name) := by
  intro directory
  obtain ⟨k, name, h, bare, hlevel⟩ := exists_foundAt (LinterSettings.bare_of_check accepted).1
    absolute written hpath found
  refine ⟨k, name, h, ?_⟩
  by_cases hdots : name = "." ∨ name = ".."
  · refine iff_of_false (h.not_liesIn hdots) ?_
    rintro ⟨hdot, hup, -⟩
    exact hdots.elim hdot hup
  obtain ⟨hdot, hup⟩ := not_or.mp hdots
  have hsearched : Searched directory s.maxAscent config ↔
      ∃ j, k = j + 1 ∧ name = (directory.ancestor j).name := by
    rw [h.eq_entry hdot hup]
    exact searched_entry_iff h.bound hlevel
  rw [hsearched]
  constructor
  · rintro ⟨-, hnowhere⟩
    exact ⟨hdot, hup, fun j hj hself => hnowhere ⟨j, hj, hself⟩⟩
  · rintro ⟨-, -, hother⟩
    refine ⟨⟨_, name, h.liesIn bare hdot hup found⟩, ?_⟩
    rintro ⟨j, hj, hself⟩
    exact hother j hj hself

/-- A name in the directory above, found from below. -/
theorem found_inside_above :
    let m : Machine :=
      ⟨.ofNodes [([], .directory), (["w"], .directory), (["w", "c.js"], .file [] false),
        (["w", "d"], .directory)], ⟨.slash, ["w"]⟩, [], .alone "/root"⟩
    let s : LinterSettings := { LinterSettings.defaults with configNames := ["c.js"] }
    let path := Path.ofString "d/a.js"
    let config := Path.ofString "/w/c.js"
    LinterSettings.check [] [(.string "config_names", .list [.text "c.js"])] = .valid s ∧
      locateBy m.probe m.cwd path.parent (spec s.configNames s.maxAscent) = .ok (some config) ∧
      ∃ k name, FoundAt m s path config k name ∧
        (((∃ d n, LiesIn m s path config d n) ∧
            ¬Searched (m.directoryOf path) s.maxAscent config) ↔
          name ≠ "." ∧ name ≠ ".." ∧
            ∀ j, k = j + 1 → name ≠ ((m.directoryOf path).ancestor j).name) := by
  intro m s path config
  have haccepted : LinterSettings.check [] [(.string "config_names", .list [.text "c.js"])] =
    .valid s := rfl
  have hfound : locateBy m.probe m.cwd path.parent (spec s.configNames s.maxAscent) =
    .ok (some config) := ok_of_toOption (by decide +kernel)
  have hwritten : m.cwd.IsWritten := Path.isWritten_ofText "/w"
  exact ⟨haccepted, hfound,
    found_inside_iff haccepted rfl hwritten (Path.isWritten_ofText _) hfound⟩

/-- Both dots are accepted as names.  A dot is found as the directory of the document, and two
dots as the directory above, even if the search may not go there. -/
theorem found_outside_dots :
    let m : Machine :=
      ⟨.ofNodes [([], .directory), (["w"], .directory), (["w", "d"], .directory)],
        ⟨.slash, ["w"]⟩, [], .alone "/root"⟩
    let path := Path.ofString "d/a.js"
    let named (name : Text) : LinterSettings :=
      { LinterSettings.defaults with configNames := [name], maxAscent := 0 }
    (∀ name ∈ ([".", ".."] : List Text), LinterSettings.check [] [(.string "config_names",
        .list [.text name]), (.string "max_ascent", .int 0)] = .valid (named name)) ∧
      locateBy m.probe m.cwd path.parent (spec (named ".").configNames 0) =
        .ok (some (Path.ofString "/w/d")) ∧
      Searched (m.directoryOf path) 0 (Path.ofString "/w/d") ∧
      locateBy m.probe m.cwd path.parent (spec (named "..").configNames 0) =
        .ok (some (Path.ofString "/w")) ∧
      ¬∃ d n, LiesIn m (named "..") path (Path.ofString "/w") d n := by
  intro m path named
  refine ⟨?_, ok_of_toOption (by decide +kernel), ⟨0, by decide, by decide +kernel⟩,
    ok_of_toOption (by decide +kernel), ?_⟩
  · intro name hname
    rcases List.mem_cons.mp hname with rfl | hname
    · rfl
    · rw [List.mem_singleton.mp hname]
      rfl
  · rintro ⟨d, n, hlies⟩
    obtain ⟨k, hk, rfl⟩ := hlies.searched
    obtain rfl : k = 0 := by
      have hk : (k : Int) ≤ 0 := hk
      omega
    have hlength := congrArg (fun p : Path => p.parts.length) hlies.inside
    rw [Path.length_entry] at hlength
    revert hlength
    decide +kernel

end EditorLint
