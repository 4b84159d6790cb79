import EditorLint.FileSystem

/-!
# What is read after it was written

Writing to a path changes what stands at one place, and that a file or a name that was
free; what is new there is the user's own.  No way to this place leads through it, so the
path leads there as before, past the same links, and the bytes that were written are read
(`read_write`).
-/

namespace EditorLint.FileSystem

/-! ## One place -/

theorem at?_replaced (nodes : List (Place × Node)) (closed locked : List Place)
    (place other : Place) (node : Node) :
    at? ⟨nodes.map fun (p, n) => if p == place then (p, node) else (p, n), closed, locked⟩ other =
      if other = place then (at? ⟨nodes, closed, locked⟩ other).map fun _ => node
      else at? ⟨nodes, closed, locked⟩ other := by
  unfold at?
  induction nodes with
  | nil => simp
  | cons x rest ih =>
    obtain ⟨p, n⟩ := x
    by_cases hp : p = other
    · subst hp
      by_cases ho : p = place <;> simp [ho]
    · by_cases ho : p = place
      · subst ho
        simpa [hp] using ih
      · simpa [hp, ho] using ih

/-- Nothing stands at a place that no node of the table is at. -/
theorem at?_eq_none {fs : FileSystem} {place : Place}
    (h : ¬(fs.nodes.any fun (p, _) => p == place) = true) : fs.at? place = none := by
  unfold at?
  rw [List.find?_eq_none.mpr fun x hx hp => h (List.any_eq_true.mpr ⟨x, hx, hp⟩)]
  rfl

theorem at?_set (fs : FileSystem) (place other : Place) (node : Node) :
    (fs.set place node).at? other = if other = place then some node else fs.at? other := by
  unfold set
  split
  · rename_i hany
    refine (at?_replaced fs.nodes fs.closed fs.locked place other node).trans ?_
    split
    · rename_i ho
      subst ho
      obtain ⟨x, hx, hp⟩ := List.any_eq_true.mp hany
      cases hf : fs.at? other with
      | some old => rfl
      | none =>
        simp only [at?, Option.map_eq_none_iff, List.find?_eq_none] at hf
        exact absurd hp (hf x hx)
    · rfl
  · rename_i hnone
    have hfree := at?_eq_none hnone
    unfold at? at hfree ⊢
    rw [List.find?_append]
    by_cases ho : other = place
    · subst ho
      simp [Option.map_eq_none_iff.mp hfree]
    · simp [ho, Ne.symm ho]

theorem mayRead_set {fs : FileSystem} {other : Place} (h : fs.mayRead other = true)
    (place : Place) (node : Node) : (fs.set place node).mayRead other = true := by
  unfold mayRead at h ⊢
  unfold set
  split
  · exact h
  · simp only [List.contains_eq_mem, Bool.not_eq_true', decide_eq_false_iff_not] at h ⊢
    exact fun hother => h (List.mem_filter.mp hother).1

theorem mayWrite_set {fs : FileSystem} {other : Place} (h : fs.mayWrite other = true)
    (place : Place) (node : Node) : (fs.set place node).mayWrite other = true := by
  unfold mayWrite at h ⊢
  rw [Bool.and_eq_true] at h ⊢
  refine ⟨mayRead_set h.1 place node, ?_⟩
  obtain ⟨-, h⟩ := h
  unfold set
  split
  · exact h
  · simp only [List.contains_eq_mem, Bool.not_eq_true', decide_eq_false_iff_not] at h ⊢
    exact fun hother => h (List.mem_filter.mp hother).1

/-- The user has every right in the second file system that he has in the first one. -/
structure KeepsRights (fs fs' : FileSystem) : Prop where
  read : ∀ place, fs.mayRead place = true → fs'.mayRead place = true
  write : ∀ place, fs.mayWrite place = true → fs'.mayWrite place = true

theorem KeepsRights.refl (fs : FileSystem) : fs.KeepsRights fs := ⟨fun _ h => h, fun _ h => h⟩

theorem KeepsRights.trans {fs fs' fs'' : FileSystem} (h : fs.KeepsRights fs')
    (h' : fs'.KeepsRights fs'') : fs.KeepsRights fs'' :=
  ⟨fun place hp => h'.read place (h.read place hp), fun place hp => h'.write place (h.write place hp)⟩

theorem keepsRights_set (fs : FileSystem) (place : Place) (node : Node) :
    fs.KeepsRights (fs.set place node) :=
  ⟨fun _ h => mayRead_set h place node, fun _ h => mayWrite_set h place node⟩

theorem mayWrite_set_new {fs : FileSystem} {place : Place} (h : fs.at? place = none)
    (node : Node) : (fs.set place node).mayWrite place = true := by
  have hnone : ¬(fs.nodes.any fun (p, _) => p == place) = true := by
    intro hany
    obtain ⟨x, hx, hp⟩ := List.any_eq_true.mp hany
    simp only [at?, Option.map_eq_none_iff, List.find?_eq_none] at h
    exact h x hx hp
  unfold mayWrite mayRead set
  rw [if_neg hnone]
  simp

theorem mayRead_of_mayWrite {fs : FileSystem} {place : Place} (h : fs.mayWrite place = true) :
    fs.mayRead place = true :=
  ((Bool.and_eq_true _ _).mp h).1

/-! ## The way to a place -/

def Target.isFaithful (fs : FileSystem) : Target → Prop
  | .found place node => fs.at? place = some node
  | .free place => fs.at? place = none
  | .blocked _ => True

/-- A name that leads down from a directory: the directory may be searched, the name is none of the
dots, and it is not too long. -/
structure LeadsDown (fs : FileSystem) (here : Place) (name : Name) : Prop where
  searched : fs.mayRead here = true
  noDot : name ≠ .dot
  noDots : name ≠ .dots
  fits : ¬name.bytes.length > maxName

/-- The way from a place along some names, up to where it ends or follows a link. -/
inductive Way (fs : FileSystem) (follow : Bool) (jump : Place → List Name → Target) :
    Place → List Name → Target → Prop where
  | here {here : Place} {node : Node} (there : fs.at? here = some node) :
    Way fs follow jump here [] (.found here node)
  | nowhere {here : Place} (nothing : fs.at? here = none) :
    Way fs follow jump here [] (.blocked .notFound)
  | shut {here : Place} {name : Name} {rest : List Name} (closed : fs.mayRead here = false) :
    Way fs follow jump here (name :: rest) (.blocked .denied)
  | dot {here : Place} {rest : List Name} {t : Target} (searched : fs.mayRead here = true)
    (more : Way fs follow jump here rest t) : Way fs follow jump here (.dot :: rest) t
  | up {here : Place} {rest : List Name} {t : Target} (searched : fs.mayRead here = true)
    (more : Way fs follow jump here.dropLast rest t) : Way fs follow jump here (.dots :: rest) t
  | tooLong {here : Place} {name : Name} {rest : List Name} (searched : fs.mayRead here = true)
    (noDot : name ≠ .dot) (noDots : name ≠ .dots) (long : name.bytes.length > maxName) :
    Way fs follow jump here (name :: rest) (.blocked .tooLong)
  | free {here : Place} {name : Name} (down : LeadsDown fs here name)
    (nothing : fs.at? (here ++ [name]) = none) :
    Way fs follow jump here [name] (.free (here ++ [name]))
  | missing {here : Place} {name : Name} {rest : List Name} (down : LeadsDown fs here name)
    (nothing : fs.at? (here ++ [name]) = none) (goes : rest ≠ []) :
    Way fs follow jump here (name :: rest) (.blocked .notFound)
  | directory {here : Place} {name : Name} {rest : List Name} {t : Target}
    (down : LeadsDown fs here name) (there : fs.at? (here ++ [name]) = some .directory)
    (more : Way fs follow jump (here ++ [name]) rest t) : Way fs follow jump here (name :: rest) t
  | file {here : Place} {name : Name} {bytes : List UInt8} {executable : Bool}
    (down : LeadsDown fs here name) (there : fs.at? (here ++ [name]) = some (.file bytes executable)) :
    Way fs follow jump here [name] (.found (here ++ [name]) (.file bytes executable))
  | notDirectory {here : Place} {name : Name} {rest : List Name} {bytes : List UInt8}
    {executable : Bool} (down : LeadsDown fs here name)
    (there : fs.at? (here ++ [name]) = some (.file bytes executable)) (goes : rest ≠ []) :
    Way fs follow jump here (name :: rest) (.blocked .notDirectory)
  | stays {here : Place} {name : Name} {rooted : Bool} {aim : List Name}
    (down : LeadsDown fs here name) (there : fs.at? (here ++ [name]) = some (.link rooted aim))
    (kept : follow = false) :
    Way fs follow jump here [name] (.found (here ++ [name]) (.link rooted aim))
  | follows {here : Place} {name : Name} {rooted : Bool} {aim rest : List Name}
    (down : LeadsDown fs here name) (there : fs.at? (here ++ [name]) = some (.link rooted aim))
    (followed : rest = [] → follow = true) :
    Way fs follow jump here (name :: rest) (jump (if rooted then [] else here) (aim ++ rest))

section Way

variable {fs : FileSystem} {follow : Bool} {jump : Place → List Name → Target}

theorem walkFrom_shut {here : Place} (closed : fs.mayRead here = false) (name : Name)
    (rest : List Name) : walkFrom fs follow jump here (name :: rest) = .blocked .denied := by
  rw [walkFrom, closed]
  rfl

theorem walkFrom_searched {here : Place} (searched : fs.mayRead here = true) (name : Name)
    (rest : List Name) : walkFrom fs follow jump here (name :: rest) =
      if name = .dot then walkFrom fs follow jump here rest
      else if name = .dots then walkFrom fs follow jump here.dropLast rest
      else if name.bytes.length > maxName then .blocked .tooLong
      else match fs.at? (here ++ [name]) with
      | none => if rest.isEmpty then .free (here ++ [name]) else .blocked .notFound
      | some .directory => walkFrom fs follow jump (here ++ [name]) rest
      | some (.file bytes executable) =>
        if rest.isEmpty then .found (here ++ [name]) (.file bytes executable)
        else .blocked .notDirectory
      | some (.link rooted aim) =>
        if rest.isEmpty && !follow then .found (here ++ [name]) (.link rooted aim)
        else jump (if rooted then [] else here) (aim ++ rest) := by
  rw [walkFrom, searched]
  rfl

theorem walkFrom_dot {here : Place} (searched : fs.mayRead here = true) (rest : List Name) :
    walkFrom fs follow jump here (.dot :: rest) = walkFrom fs follow jump here rest := by
  rw [walkFrom_searched searched, if_pos rfl]

theorem walkFrom_up {here : Place} (searched : fs.mayRead here = true) (rest : List Name) :
    walkFrom fs follow jump here (.dots :: rest) = walkFrom fs follow jump here.dropLast rest := by
  rw [walkFrom_searched searched, if_neg (by decide), if_pos rfl]

theorem walkFrom_down {here : Place} {name : Name} (down : LeadsDown fs here name)
    (rest : List Name) :
    walkFrom fs follow jump here (name :: rest) =
      match fs.at? (here ++ [name]) with
      | none => if rest.isEmpty then .free (here ++ [name]) else .blocked .notFound
      | some .directory => walkFrom fs follow jump (here ++ [name]) rest
      | some (.file bytes executable) =>
        if rest.isEmpty then .found (here ++ [name]) (.file bytes executable)
        else .blocked .notDirectory
      | some (.link rooted aim) =>
        if rest.isEmpty && !follow then .found (here ++ [name]) (.link rooted aim)
        else jump (if rooted then [] else here) (aim ++ rest) := by
  rw [walkFrom_searched down.searched, if_neg down.noDot, if_neg down.noDots, if_neg down.fits]

theorem way_walkFrom (fs : FileSystem) (follow : Bool) (jump : Place → List Name → Target)
    (here : Place) (names : List Name) :
    Way fs follow jump here names (walkFrom fs follow jump here names) := by
  -- The cases are those of the walk, in its order; only the last name of a way may be free, a file
  -- or a link that is kept.
  induction names generalizing here with
  | nil =>
    unfold walkFrom
    cases hn : fs.at? here with
    | none => exact .nowhere hn
    | some node => exact .here hn
  | cons name rest ih =>
    cases searched : fs.mayRead here with
    | false =>
      rw [walkFrom_shut searched]
      exact .shut searched
    | true =>
      by_cases hdot : name = .dot
      · subst hdot
        rw [walkFrom_dot searched]
        exact .dot searched (ih here)
      by_cases hdots : name = .dots
      · subst hdots
        rw [walkFrom_up searched]
        exact .up searched (ih here.dropLast)
      by_cases hlong : name.bytes.length > maxName
      · rw [walkFrom_searched searched, if_neg hdot, if_neg hdots, if_pos hlong]
        exact .tooLong searched hdot hdots hlong
      have down : LeadsDown fs here name := ⟨searched, hdot, hdots, hlong⟩
      rw [walkFrom_down down]
      cases hn : fs.at? (here ++ [name]) with
      | none =>
        cases rest with
        | nil => exact .free down hn
        | cons next rest => exact .missing down hn (List.cons_ne_nil _ _)
      | some node =>
        cases node with
        | directory => exact .directory down hn (ih _)
        | file bytes executable =>
          cases rest with
          | nil => exact .file down hn
          | cons next rest => exact .notDirectory down hn (List.cons_ne_nil _ _)
        | link rooted aim =>
          dsimp only
          split
          · rename_i hlast
            obtain ⟨hrest, hkept⟩ := (Bool.and_eq_true _ _).mp hlast
            cases List.isEmpty_iff.mp hrest
            exact .stays down hn (by simpa using hkept)
          · rename_i hgoes
            refine .follows down hn ?_
            rintro rfl
            simpa using hgoes

theorem Way.eq {here : Place} {names : List Name} {t : Target}
    (w : Way fs follow jump here names t) : walkFrom fs follow jump here names = t := by
  induction w with
  | here there => rw [walkFrom, there]
  | nowhere nothing => rw [walkFrom, nothing]
  | shut closed => exact walkFrom_shut closed _ _
  | dot searched more ih => rw [walkFrom_dot searched, ih]
  | up searched more ih => rw [walkFrom_up searched, ih]
  | tooLong searched noDot noDots long =>
    rw [walkFrom_searched searched, if_neg noDot, if_neg noDots, if_pos long]
  | free down nothing =>
    rw [walkFrom_down down, nothing]
    rfl
  | missing down nothing goes =>
    rw [walkFrom_down down, nothing]
    exact if_neg (by simpa using goes)
  | directory down there more ih => rw [walkFrom_down down, there, ih]
  | file down there =>
    rw [walkFrom_down down, there]
    rfl
  | notDirectory down there goes =>
    rw [walkFrom_down down, there]
    exact if_neg (by simpa using goes)
  | stays down there kept =>
    rw [walkFrom_down down, there, kept]
    rfl
  | follows down there followed =>
    rw [walkFrom_down down, there]
    exact if_neg (by simpa using followed)

theorem Way.isFaithful (hj : ∀ here names, (jump here names).isFaithful fs) {here : Place}
    {names : List Name} {t : Target} (w : Way fs follow jump here names t) : t.isFaithful fs := by
  induction w with
  | here there | file _ there | stays _ there => exact there
  | free _ nothing => exact nothing
  | nowhere | shut | tooLong | missing | notDirectory => trivial
  | dot _ _ ih | up _ _ ih | directory _ _ _ ih => exact ih
  | follows => exact hj _ _

end Way

theorem isFaithful_walk (fs : FileSystem) (follow : Bool) (links : Nat) (here : Place)
    (names : List Name) : (fs.walk follow links here names).isFaithful fs := by
  induction links generalizing here names with
  | zero =>
    refine (way_walkFrom fs follow _ here names).isFaithful ?_
    intro _ _
    trivial
  | succ links ih => exact (way_walkFrom fs follow _ here names).isFaithful ih

theorem walkDirectory_nil {fs : FileSystem} {follow : Bool} {start place : Place} {node : Node}
    (h : fs.walkDirectory follow start [] = .found place node) : node = .directory := by
  unfold walkDirectory at h
  split at h
  · rename_i hstart
    unfold walk at h
    rw [show maxLinks = 39 + 1 from rfl] at h
    dsimp only at h
    rw [walkFrom, hstart] at h
    cases h
    rfl
  · cases h

theorem isFaithful_walkDirectory (fs : FileSystem) (follow : Bool) (start : Place)
    (names : List Name) : (fs.walkDirectory follow start names).isFaithful fs := by
  unfold walkDirectory
  split
  · exact isFaithful_walk fs follow maxLinks start names
  · trivial

/-- The text of a path alone decides whether the way of its names is gone. -/
theorem lookUpNames_cases (text : Text) :
    (∃ why, ∀ fs start names follow, lookUpNames fs text start names follow = .blocked why) ∨
      ∀ fs start names follow,
        lookUpNames fs text start names follow = walkDirectory fs follow start names := by
  unfold lookUpNames
  cases hcode : Utf8.encodeSystem text with
  | error fault => exact .inl ⟨.unencodable fault, fun _ _ _ _ => rfl⟩
  | ok bytes =>
    by_cases hnull : text.contains (.scalar '\x00') = true
    · exact .inl ⟨.null, fun _ _ _ _ => if_pos hnull⟩
    by_cases hlong : bytes.length > maxPath
    · exact .inl ⟨.tooLong, fun _ _ _ _ => (if_neg hnull).trans (if_pos hlong)⟩
    · exact .inr fun _ _ _ _ => (if_neg hnull).trans (if_neg hlong)

theorem systemBytes_of_lookUp {fs : FileSystem} {cwd p : Path} {place : Place} {node : Node}
    (h : fs.lookUp cwd p = .found place node) :
    ∀ c ∈ p.text, (Utf8.systemBytes? c).isSome = true := by
  unfold lookUp lookUpNames at h
  split at h
  · cases h
  · rename_i bytes hbytes
    exact Utf8.systemBytes_of_encodeSystem hbytes

/-- What a path leads to stands there, and so does a link at its end. -/
theorem isFaithful_lookUpNames (fs : FileSystem) (text : Text) (start : Place)
    (names : List Name) (follow : Bool) :
    (fs.lookUpNames text start names follow).isFaithful fs := by
  rcases lookUpNames_cases text with ⟨why, hblocked⟩ | hwalk
  · rw [hblocked]
    trivial
  · rw [hwalk]
    exact isFaithful_walkDirectory fs follow start names

theorem isFaithful_lookUp (fs : FileSystem) (cwd p : Path) : (fs.lookUp cwd p).isFaithful fs :=
  isFaithful_lookUpNames fs p.text _ _ true

/-- Two file systems that differ in one file only, which the first may not have yet, and in rights
to it. -/
structure Rewritten (fs fs' : FileSystem) (place : Place) (file : Node) : Prop where
  before : fs.at? place = none ∨ ∃ bytes executable, fs.at? place = some (.file bytes executable)
  after : fs'.at? place = some file
  elsewhere : ∀ other, other ≠ place → fs'.at? other = fs.at? other
  rights : fs.KeepsRights fs'

/-- Whether a path leads to a file or a free name at a place. -/
def Target.isFile (place : Place) : Target → Prop
  | .found p (.file _ _) | .free p => p = place
  | .found _ .directory | .found _ (.link _ _) | .blocked _ => False

section Walk

variable {fs fs' : FileSystem} {place : Place} {bytes : List UInt8} {executable : Bool}
  (r : Rewritten fs fs' place (.file bytes executable)) {follow : Bool}
include r

theorem Rewritten.same {p : Place}
    (h : fs.at? p = some .directory ∨ ∃ rooted aim, fs.at? p = some (.link rooted aim)) :
    fs'.at? p = fs.at? p := by
  refine r.elsewhere p fun he => ?_
  subst he
  rcases r.before with hb | ⟨_, _, hb⟩ <;> simp [hb] at h

theorem LeadsDown.rewritten {here : Place} {name : Name} (down : LeadsDown fs here name) :
    LeadsDown fs' here name :=
  ⟨r.rights.read _ down.searched, down.noDot, down.noDots, down.fits⟩

theorem Way.rewritten {jump jump' : Place → List Name → Target}
    (hj : ∀ here names, (jump here names).isFile place →
      jump' here names = .found place (.file bytes executable)) {here : Place} {names : List Name}
    {t : Target} (w : Way fs follow jump here names t) (h : t.isFile place) :
    Way fs' follow jump' here names (.found place (.file bytes executable)) := by
  induction w with
  | nowhere | shut | tooLong | missing | notDirectory | stays => exact False.elim h
  | @here here node there =>
    cases node with
    | file =>
      obtain rfl : here = place := h
      exact .here r.after
    | directory | link => exact False.elim h
  | dot searched more ih => exact .dot (r.rights.read _ searched) (ih h)
  | up searched more ih => exact .up (r.rights.read _ searched) (ih h)
  | free down | file down =>
    obtain rfl := show _ = place from h
    exact .file (down.rewritten r) r.after
  -- A directory or a link is not the place that was written, so it stands as before.
  | directory down there more ih =>
    exact .directory (down.rewritten r) ((r.same (.inl there)).trans there) (ih h)
  | follows down there followed =>
    have hthere := (r.same (.inr ⟨_, _, there⟩)).trans there
    exact hj _ _ h ▸ .follows (down.rewritten r) hthere followed

/-- A way to a file or a free name leads there in the other file system too. -/
theorem walk_rewritten (links : Nat) (here : Place) (names : List Name)
    (h : (walk fs follow links here names).isFile place) :
    walk fs' follow links here names = .found place (.file bytes executable) := by
  -- On the links that may still be followed: behind the last one the way leads nowhere.
  induction links generalizing here names with
  | zero =>
    refine ((way_walkFrom fs follow _ here names).rewritten r ?_ h).eq
    intro _ _ hloop
    exact False.elim hloop
  | succ links ih => exact ((way_walkFrom fs follow _ here names).rewritten r ih h).eq

theorem lookUp_rewritten (cwd p : Path) (h : (fs.lookUp cwd p).isFile place) :
    fs'.lookUp cwd p = .found place (.file bytes executable) := by
  unfold lookUp at h ⊢
  rcases lookUpNames_cases p.text with ⟨why, hblocked⟩ | hwalk
  · rw [hblocked] at h
    exact False.elim h
  · rw [hwalk] at h ⊢
    unfold walkDirectory at h ⊢
    split at h
    · rename_i hstart
      rw [if_pos ((r.same (.inl hstart)).trans hstart)]
      exact walk_rewritten r maxLinks _ _ h
    · exact False.elim h

end Walk

/-! ## Writing and reading -/

variable {fs fs' : FileSystem} {cwd p : Path} {bytes : List UInt8}

/-- A file is read where the path leads to it and the user may read it. -/
theorem read_ok_iff : fs.read cwd p = .ok bytes ↔ ∃ place executable,
    fs.lookUp cwd p = .found place (.file bytes executable) ∧ fs.mayRead place = true := by
  unfold read
  constructor
  · intro h
    split at h
    · rename_i place node hl
      split at h
      · cases h
      · rename_i hmay
        cases node with
        | file old executable =>
          cases h
          exact ⟨place, executable, hl, by simpa using hmay⟩
        | directory | link => cases h
    · cases h
    · cases h
  · rintro ⟨place, executable, hl, hmay⟩
    rw [hl]
    dsimp only
    rw [hmay]
    rfl

/-- Where a path leads to a file or a free name, it leads to a file that is put there. -/
theorem lookUp_set {place : Place} (h : (fs.lookUp cwd p).isFile place) (bytes : List UInt8)
    (executable : Bool) : (fs.set place (.file bytes executable)).lookUp cwd p =
      .found place (.file bytes executable) := by
  have hfaithful := isFaithful_lookUp fs cwd p
  have hbefore : fs.at? place = none ∨ ∃ b x, fs.at? place = some (.file b x) := by
    generalize fs.lookUp cwd p = target at h hfaithful
    cases target with
    | blocked why => exact False.elim h
    | free free =>
      obtain rfl : free = place := h
      exact .inl hfaithful
    | found found node =>
      cases node with
      | directory | link => exact False.elim h
      | file b x =>
        obtain rfl : found = place := h
        exact .inr ⟨b, x, hfaithful⟩
  refine lookUp_rewritten ⟨hbefore, ?_, fun other ho => ?_, keepsRights_set ..⟩ cwd p h
  · rw [at?_set, if_pos rfl]
  · rw [at?_set, if_neg ho]

/-- Altering a file that goes well puts it where the path has led, and the path leads to it, which
the user may write from then on. -/
theorem alter_ok {change : List UInt8 → List UInt8} (h : fs.alter cwd p change = .ok fs') :
    ∃ place old executable, fs' = fs.set place (.file (change old) executable) ∧
      ((∃ node, fs.lookUp cwd p = .found place node ∧ node = .file old executable) ∨
        fs.lookUp cwd p = .free place ∧ old = []) ∧
      fs'.lookUp cwd p = .found place (.file (change old) executable) ∧
      fs'.mayWrite place = true := by
  unfold alter at h
  split at h
  · rename_i place old executable hl
    split at h
    · rename_i hmay
      cases h
      exact ⟨place, old, executable, rfl, .inl ⟨_, hl, rfl⟩,
        lookUp_set (by rw [hl]; rfl) (change old) executable, mayWrite_set hmay _ _⟩
    · cases h
  · cases h
  · rename_i place hl
    split at h
    · cases h
      have hnone : fs.at? place = none := by
        have hfaithful := isFaithful_lookUp fs cwd p
        rwa [hl] at hfaithful
      exact ⟨place, [], false, rfl, .inr ⟨hl, rfl⟩,
        lookUp_set (by rw [hl]; rfl) (change []) false, mayWrite_set_new hnone _⟩
    · cases h
  · cases h

theorem alter_of_found {place : Place} {old : List UInt8} {executable : Bool}
    (hl : fs.lookUp cwd p = .found place (.file old executable)) (hmay : fs.mayWrite place = true)
    (change : List UInt8 → List UInt8) :
    fs.alter cwd p change = .ok (fs.set place (.file (change old) executable)) := by
  unfold alter
  rw [hl]
  exact if_pos hmay

theorem mayWrite_of_alter {place : Place} {old : List UInt8} {executable : Bool}
    {change : List UInt8 → List UInt8}
    (hl : fs.lookUp cwd p = .found place (.file old executable))
    (h : fs.alter cwd p change = .ok fs') : fs.mayWrite place = true := by
  unfold alter at h
  rw [hl] at h
  dsimp only at h
  split at h
  · assumption
  · cases h

/-- What was written is read. -/
theorem read_write (h : fs.write cwd p bytes = .ok fs') : fs'.read cwd p = .ok bytes := by
  obtain ⟨place, old, executable, -, -, hl, hmay⟩ := alter_ok h
  exact read_ok_iff.mpr ⟨place, executable, hl, mayRead_of_mayWrite hmay⟩

theorem write_write (h : fs.write cwd p bytes = .ok fs') (more : List UInt8) :
    ∃ fs'', fs'.write cwd p more = .ok fs'' := by
  obtain ⟨place, old, executable, -, -, hl, hmay⟩ := alter_ok h
  exact ⟨_, alter_of_found hl hmay fun _ => more⟩

end EditorLint.FileSystem
