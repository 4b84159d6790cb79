import EditorLint.Log.Setup
import EditorLint.Proofs.Files
import EditorLint.Proofs.Paths
import EditorLint.Proofs.Saving

/-!
# File systems that grow

Setting the log up makes directories and empty files where nothing stood, leaves everything
else as it is, and takes no right from the user (`grows_configure`).  A path that led somewhere
before still leads there then (`lookUp_lasts`), and it does so in both spellings: as the user has
typed it, and with its dots dropped (`walk_of_lookUpText`).
-/

namespace EditorLint

/-! ## Texts without lone surrogates -/

theorem Text.exists_ofChars {t : Text} (h : ∀ c ∈ t, c.isScalar = true) :
    ∃ cs, t = Text.ofChars cs := by
  induction t with
  | nil => exact ⟨[], rfl⟩
  | cons c t ih =>
    obtain ⟨hc, ht⟩ := List.forall_mem_cons.mp h
    obtain ⟨cs, rfl⟩ := ih ht
    cases c with
    | surrogate n => cases hc
    | scalar c => exact ⟨c :: cs, rfl⟩

theorem Text.shown_ofChars (cs : List Char) : (Text.ofChars cs).shown = cs := by
  unfold Text.shown Text.ofChars
  rw [List.map_map]
  exact List.map_id cs

theorem Utf8.encode_ofChars (cs : List Char) :
    Utf8.encode (Text.ofChars cs) = .ok (Utf8.encodeChars cs) := by
  unfold Utf8.encode
  rw [Text.chars?_ofChars]

theorem Utf8.scalars_of_encode {t : Text} {bytes : List UInt8} (h : Utf8.encode t = .ok bytes) :
    ∀ c ∈ t, c.isScalar = true := by
  refine (Text.chars?_isSome_iff t).mp ?_
  unfold Utf8.encode at h
  split at h
  · rename_i cs hcs
    exact ⟨cs, hcs⟩
  · cases h

/-! ## Growth -/

/-- Two nodes are the same but for the bytes of a file. -/
inductive Node.Resembles : Node → Node → Prop where
  | same (node : Node) : Resembles node node
  | file (bytes bytes' : List UInt8) (executable : Bool) :
    Resembles (.file bytes executable) (.file bytes' executable)

namespace FileSystem

/-- Whatever stands in a file system stands in another one too. -/
structure Grows (fs fs' : FileSystem) : Prop where
  stands : ∀ place node, fs.at? place = some node → fs'.at? place = some node
  rights : fs.KeepsRights fs'

theorem Grows.refl (fs : FileSystem) : fs.Grows fs := ⟨fun _ _ h => h, .refl fs⟩

theorem Grows.trans {fs fs' fs'' : FileSystem} (h : fs.Grows fs') (h' : fs'.Grows fs'') :
    fs.Grows fs'' :=
  ⟨fun place node hn => h'.stands place node (h.stands place node hn), h.rights.trans h'.rights⟩

/-- Whatever stands in a file system stands in another one too, where files may have other
bytes in them. -/
structure Lasts (fs fs' : FileSystem) : Prop where
  stands : ∀ place node, fs.at? place = some node →
    ∃ node', fs'.at? place = some node' ∧ node.Resembles node'
  rights : fs.KeepsRights fs'

theorem Grows.lasts {fs fs' : FileSystem} (h : fs.Grows fs') : fs.Lasts fs' :=
  ⟨fun place node hn => ⟨node, h.stands place node hn, .same node⟩, h.rights⟩

theorem grows_set {fs : FileSystem} {place : Place} {node : Node}
    (h : ∀ old, fs.at? place = some old → old = node) : fs.Grows (fs.set place node) := by
  refine ⟨fun other n hn => ?_, keepsRights_set fs place node⟩
  rw [at?_set]
  split
  · rename_i hother
    subst hother
    rw [h n hn]
  · exact hn

section Provide

variable {P Q : Place → Prop} {fs fs' fs'' : FileSystem}

/-- Outside some places, all that is new are directories. -/
structure Provides (P : Place → Prop) (fs fs' : FileSystem) : Prop where
  elsewhere : ∀ place, ¬P place → fs'.at? place = fs.at? place ∨
    fs.at? place = none ∧ fs'.at? place = some .directory
  rights : fs.KeepsRights fs'

theorem Provides.refl (P : Place → Prop) (fs : FileSystem) : fs.Provides P fs :=
  ⟨fun _ _ => .inl rfl, .refl fs⟩

theorem Provides.mono (h : fs.Provides P fs') (hPQ : ∀ place, P place → Q place) :
    fs.Provides Q fs' :=
  ⟨fun place hplace => h.elsewhere place fun hp => hplace (hPQ place hp), h.rights⟩

theorem Provides.trans (h : fs.Provides P fs') (h' : fs'.Provides P fs'') : fs.Provides P fs'' := by
  refine ⟨fun place hp => ?_, h.rights.trans h'.rights⟩
  rcases h'.elsewhere place hp with hsame' | ⟨hnone', hnew'⟩
  · rw [hsame']
    exact h.elsewhere place hp
  · rcases h.elsewhere place hp with hsame | ⟨-, hnew⟩
    · exact .inr ⟨hsame ▸ hnone', hnew'⟩
    · cases hnew.symm.trans hnone'

theorem provides_makeDirectory {cwd p : Path} (h : fs.makeDirectory cwd p = .ok fs') :
    fs.Provides P fs' := by
  have hfaithful : (fs.lookUpSelf cwd p).isFaithful fs := isFaithful_lookUpNames fs p.text _ _ false
  unfold makeDirectory at h
  split at h
  · split at h
    · cases h
      exact .refl P fs
    all_goals cases h
  · rename_i free hfree
    rw [hfree] at hfaithful
    split at h
    · cases h
      refine ⟨fun place _ => ?_, keepsRights_set ..⟩
      rw [at?_set]
      split
      · rename_i hplace
        exact .inr ⟨hplace ▸ hfaithful, rfl⟩
      · exact .inl rfl
    · cases h
  all_goals cases h

theorem provides_makeDirectories {cwd p : Path} {fuel : Nat}
    (h : makeDirectories cwd fuel fs p = .ok fs') : fs.Provides P fs' := by
  induction fuel generalizing fs fs' p with
  | zero => exact provides_makeDirectory h
  | succ fuel ih =>
    unfold makeDirectories at h
    split at h
    · rename_i made hmade
      cases h
      exact provides_makeDirectory hmade
    · split at h
      · cases habove : makeDirectories cwd fuel fs p.parent with
        | error e =>
          rw [habove] at h
          cases h
        | ok above =>
          rw [habove] at h
          exact (ih habove).trans (provides_makeDirectory h)
      · cases h

theorem provides_provideDirectory {cwd p : Path} (h : fs.provideDirectory cwd p = .ok fs') :
    fs.Provides P fs' := by
  unfold provideDirectory at h
  split at h
  · cases h
  · cases h
  · cases hmade : makeDirectories cwd p.parts.length fs p with
    | error e =>
      rw [hmade] at h
      cases h
    | ok made =>
      rw [hmade] at h
      cases h
      exact provides_makeDirectories hmade

theorem Provides.grows (h : fs.Provides (fun _ => False) fs') : fs.Grows fs' := by
  refine ⟨fun place node hnode => ?_, h.rights⟩
  rcases h.elsewhere place id with hsame | ⟨hnone, -⟩
  · exact hsame.trans hnode
  · cases hnone.symm.trans hnode

end Provide

theorem grows_append {fs fs' : FileSystem} {cwd p : Path} (h : fs.append cwd p [] = .ok fs') :
    fs.Grows fs' := by
  have hfaithful := isFaithful_lookUp fs cwd p
  obtain ⟨place, old, executable, rfl, hwhere, -, -⟩ := alter_ok h
  refine grows_set fun node hnode => ?_
  rcases hwhere with ⟨_, hfound, rfl⟩ | ⟨hfree, rfl⟩
  · rw [hfound] at hfaithful
    cases hnode.symm.trans hfaithful
    rw [List.append_nil]
  · rw [hfree] at hfaithful
    cases hnode.symm.trans hfaithful

end FileSystem

/-! ## The files of the log -/

namespace Log.Setup

open FileSystem

theorem grows_openDestination (fs : FileSystem) (cwd : Path) (d : Destination) :
    fs.Grows (openDestination fs cwd d).1 := by
  cases d with
  | console stream => exact .refl fs
  | file path =>
    unfold openDestination
    dsimp only
    split
    · exact .refl fs
    · rename_i made hmade
      have hprovided := (provides_provideDirectory hmade).grows
      split
      · exact hprovided
      · rename_i opened hopened
        exact hprovided.trans (grows_append hopened)

theorem grows_openAll (cwd : Path) (verbose : Bool) (os : List LogOutput) (fs : FileSystem)
    (s : Setup) : fs.Grows (openAll cwd verbose os fs s).1 := by
  induction os generalizing fs s with
  | nil => exact .refl fs
  | cons o rest ih =>
    have hfirst := grows_openDestination fs cwd o.destination
    unfold openAll
    dsimp only
    split
    · rename_i h
      rw [h] at hfirst
      exact hfirst
    · rename_i h
      rw [h] at hfirst
      exact hfirst.trans (ih _ _)

/-- When the log is set up the files grow. -/
theorem grows_configure {fs fs' : FileSystem} {cwd : Path} {c : LoggingConfig} {verbose : Bool}
    {log : Setup} {result : Except Failure Unit}
    (h : configure fs cwd c verbose = (fs', log, result)) : fs.Grows fs' := by
  have hgrows := grows_openAll cwd verbose c.outputs fs (silent (if verbose then .debug else c.level))
  rwa [show openAll _ _ _ _ _ = _ from h] at hgrows

end Log.Setup

namespace FileSystem

/-! ## Ways that stay -/

/-- Names, and the same names without some of the dots among them. -/
inductive Undotted : List Name → List Name → Prop where
  | nil : Undotted [] []
  | keep (name : Name) {names names' : List Name} (rest : Undotted names names') :
    Undotted (name :: names) (name :: names')
  | drop {names names' : List Name} (rest : Undotted names names') :
    Undotted (.dot :: names) names'

theorem Undotted.refl (names : List Name) : Undotted names names := by
  induction names with
  | nil => exact .nil
  | cons name names ih => exact .keep name ih

theorem Undotted.append {names names' more more' : List Name} (h : Undotted names names')
    (h' : Undotted more more') : Undotted (names ++ more) (names' ++ more') := by
  induction h with
  | nil => exact h'
  | keep name _ ih => exact .keep name ih
  | drop _ ih => exact .drop ih

theorem undotted_filter (parts : List Text) :
    Undotted (parts.map Name.ofText) ((parts.filter (!·.isString ".")).map Name.ofText) := by
  induction parts with
  | nil => exact .nil
  | cons part parts ih =>
    cases hdot : part.isString "." with
    | false =>
      rw [List.filter_cons_of_pos (by rw [hdot]; rfl)]
      exact .keep _ ih
    | true =>
      obtain rfl : part = Text.ofString "." := eq_of_beq hdot
      rw [List.filter_cons_of_neg (by decide)]
      exact .drop ih

section Walk

variable {fs fs' : FileSystem} {place : Place} {node : Node} (lasts : fs.Lasts fs')
include lasts

theorem LeadsDown.remains {here : Place} {name : Name} (down : LeadsDown fs here name) :
    LeadsDown fs' here name :=
  ⟨lasts.rights.read _ down.searched, down.noDot, down.noDots, down.fits⟩

theorem Way.remains {jump jump' : Place → List Name → Target}
    (hj : ∀ here names names', Undotted names names' → jump here names = .found place node →
      ∃ node', jump' here names' = .found place node' ∧ node.Resembles node')
    {here : Place} {names names' : List Name} {t : Target} (w : Way fs true jump here names t)
    (undotted : Undotted names names') (ht : t = .found place node) :
    ∃ node', Way fs' true jump' here names' (.found place node') ∧ node.Resembles node' := by
  induction w generalizing names' with
  | nowhere | shut | tooLong | free | missing | notDirectory => cases ht
  | stays _ _ kept => cases kept
  | here there =>
    cases ht
    cases undotted
    obtain ⟨node', there', hresembles⟩ := lasts.stands _ _ there
    exact ⟨node', .here there', hresembles⟩
  | dot searched _ ih =>
    cases undotted with
    | drop undotted => exact ih undotted ht
    | keep _ undotted =>
      obtain ⟨node', more, hresembles⟩ := ih undotted ht
      exact ⟨node', .dot (lasts.rights.read _ searched) more, hresembles⟩
  | up searched _ ih =>
    cases undotted with
    | keep _ undotted =>
      obtain ⟨node', more, hresembles⟩ := ih undotted ht
      exact ⟨node', .up (lasts.rights.read _ searched) more, hresembles⟩
  | directory down there _ ih =>
    cases undotted with
    | drop => exact absurd rfl down.noDot
    | keep _ undotted =>
      obtain ⟨node', more, hresembles⟩ := ih undotted ht
      obtain ⟨_, there', ⟨⟩⟩ := lasts.stands _ _ there
      exact ⟨node', .directory (down.remains lasts) there' more, hresembles⟩
  | file down there =>
    cases undotted with
    | drop => exact absurd rfl down.noDot
    | keep _ undotted =>
      cases undotted
      cases ht
      obtain ⟨node', there', hresembles⟩ := lasts.stands _ _ there
      cases hresembles with
      | same => exact ⟨_, .file (down.remains lasts) there', .same _⟩
      | file => exact ⟨_, .file (down.remains lasts) there', .file ..⟩
  | @follows here name rooted aim rest down there =>
    cases undotted with
    | drop => exact absurd rfl down.noDot
    | keep _ undotted =>
      obtain ⟨node', hjumped, hresembles⟩ := hj _ _ _ ((Undotted.refl aim).append undotted) ht
      obtain ⟨_, there', ⟨⟩⟩ := lasts.stands _ _ there
      exact ⟨node', hjumped ▸ .follows (down.remains lasts) there' fun _ => rfl, hresembles⟩

/-- A way that leads somewhere leads there still, with or without its dots. -/
theorem walk_lasts (links : Nat) (here : Place) {names names' : List Name}
    (undotted : Undotted names names') (h : walk fs true links here names = .found place node) :
    ∃ node', walk fs' true links here names' = .found place node' ∧ node.Resembles node' := by
  -- On the links that may still be followed: behind the last one the way leads nowhere.
  induction links generalizing here names names' with
  | zero =>
    let loop : Place → List Name → Target := fun _ _ => .blocked .loop
    have hloop (here : Place) (names names' : List Name) (_ : Undotted names names')
        (h : loop here names = .found place node) :
        ∃ node', loop here names' = .found place node' ∧ node.Resembles node' := by
      cases h
    obtain ⟨node', way, hresembles⟩ :=
      (way_walkFrom fs true _ here names).remains lasts hloop undotted h
    exact ⟨node', way.eq, hresembles⟩
  | succ links ih =>
    obtain ⟨node', way, hresembles⟩ := (way_walkFrom fs true _ here names).remains lasts
      (fun here _ _ undotted h => ih here undotted h) undotted h
    exact ⟨node', way.eq, hresembles⟩

theorem walkDirectory_lasts {start : Place} {names names' : List Name}
    (undotted : Undotted names names')
    (h : fs.walkDirectory true start names = .found place node) :
    ∃ node', fs'.walkDirectory true start names' = .found place node' ∧ node.Resembles node' := by
  unfold walkDirectory at h ⊢
  split at h
  · rename_i hstart
    obtain ⟨_, hstart', ⟨⟩⟩ := lasts.stands _ _ hstart
    rw [if_pos hstart']
    exact walk_lasts lasts _ _ undotted h
  · cases h

/-- A path that leads somewhere leads there still. -/
theorem lookUp_lasts {cwd p : Path} (h : fs.lookUp cwd p = .found place node) :
    ∃ node', fs'.lookUp cwd p = .found place node' ∧ node.Resembles node' := by
  unfold lookUp at h ⊢
  rcases lookUpNames_cases p.text with ⟨why, hblocked⟩ | hwalk
  · rw [hblocked] at h
    cases h
  · rw [hwalk] at h ⊢
    exact walkDirectory_lasts lasts (.refl _) h

/-- A path to a file leads to it still, whatever is in it. -/
theorem lookUp_file_lasts {cwd p : Path} {bytes : List UInt8} {executable : Bool}
    (h : fs.lookUp cwd p = .found place (.file bytes executable)) :
    ∃ bytes', fs'.lookUp cwd p = .found place (.file bytes' executable) := by
  obtain ⟨node', hfound, hresembles⟩ := lookUp_lasts lasts h
  cases hresembles with
  | same => exact ⟨bytes, hfound⟩
  | file _ bytes' => exact ⟨bytes', hfound⟩

end Walk

/-- Where the files have only grown it is the same that a path leads to. -/
theorem Grows.lookUp_eq {fs fs' : FileSystem} (h : fs.Grows fs') {cwd p : Path} {place : Place}
    {node : Node} (hfound : fs.lookUp cwd p = .found place node) :
    fs'.lookUp cwd p = .found place node := by
  obtain ⟨node', hfound', -⟩ := lookUp_lasts h.lasts hfound
  have hbefore := isFaithful_lookUp fs cwd p
  have hafter := isFaithful_lookUp fs' cwd p
  rw [hfound] at hbefore
  rw [hfound'] at hafter
  rw [hfound', Option.some.inj (hafter.symm.trans (h.stands _ _ hbefore))]

/-! ## Texts that lead somewhere -/

deriving instance DecidableEq for Target

/-- The names in a text, with its dots, are those of its path. -/
theorem undotted_along (t : Text) : Undotted (Name.along t) (Path.ofText t).names := by
  have hpieces : Path.partsOf t =
      ((t.splitOn (Code.isChar '/')).filter (!·.isEmpty)).filter (!·.isString ".") := by
    unfold Path.partsOf
    rw [List.filter_filter]
    exact List.filter_congr fun _ _ => Bool.and_comm _ _
  have hend (b : Bool) : Undotted (if b = true then [Name.dot] else []) [] := by
    cases b with
    | true => exact .drop .nil
    | false => exact .nil
  unfold Name.along Path.names
  show Undotted _ ((Path.partsOf t).map Name.ofText)
  rw [hpieces, ← List.append_nil (List.map Name.ofText (List.filter (!·.isString ".") _))]
  exact (undotted_filter _).append (hend _)

/-- What a text leads to, the names of its path lead to from where it begins, also when the files
have grown since. -/
theorem walk_of_lookUpText {fs fs' : FileSystem} (grows : fs.Grows fs') {cwd : Path} {t : Text}
    {place : Place} {node : Node} (h : fs.lookUpText cwd t = .found place node) :
    fs'.walkDirectory true (start cwd (Path.ofText t).root) (Path.ofText t).names =
      .found place node := by
  unfold lookUpText at h
  split at h
  · cases h
  rcases lookUpNames_cases t with ⟨why, hblocked⟩ | hwalk
  · rw [hblocked] at h
    cases h
  rw [hwalk] at h
  rw [show (Path.ofText t).root = Path.rootOf t from rfl]
  obtain ⟨node', hfound, -⟩ := walkDirectory_lasts grows.lasts (undotted_along t) h
  -- What stands somewhere has stayed the same, as the files have only grown.
  have hbefore := isFaithful_walkDirectory fs true (start cwd (Path.rootOf t)) (Name.along t)
  have hafter := isFaithful_walkDirectory fs' true (start cwd (Path.rootOf t)) (Path.ofText t).names
  rw [h] at hbefore
  rw [hfound] at hafter
  rw [hfound, Option.some.inj (hafter.symm.trans (grows.stands place node hbefore))]

end FileSystem

end EditorLint
