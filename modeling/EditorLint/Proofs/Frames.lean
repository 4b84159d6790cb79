import EditorLint.Proofs.CommandRuns

/-!
# What the log leaves alone

Setting the log up opens the files that it writes to (`Log.Setup.isOpen_configure`); all else that
is new then are directories (`Log.Setup.provides_configure`).  From there on, whatever a request
undergoes only adds to those files (`Terminal.Told.undergoes`), and nothing comes out on the
output stream unless a channel leads there (`Terminal.stdout_undergoes`).

Each of them comes from what one line of the log does, for a request writes nothing else
(`Terminal.undergoes_induction`).
-/

namespace EditorLint

/-! ## Files apart from some places -/

namespace FileSystem

variable {P : Place → Prop} {fs fs' fs'' : FileSystem}

/-- Files at some places have been added to, nothing else is different, and the user has lost no
right. -/
structure Extends (P : Place → Prop) (fs fs' : FileSystem) : Prop where
  added : ∀ place, fs'.at? place = fs.at? place ∨ P place ∧ ∃ old more executable,
    fs.at? place = some (.file old executable) ∧
      fs'.at? place = some (.file (old ++ more) executable)
  rights : fs.KeepsRights fs'

theorem Extends.refl (P : Place → Prop) (fs : FileSystem) : fs.Extends P fs :=
  ⟨fun _ => .inl rfl, .refl fs⟩

theorem Extends.trans (h : fs.Extends P fs') (h' : fs'.Extends P fs'') : fs.Extends P fs'' := by
  refine ⟨fun place => ?_, h.rights.trans h'.rights⟩
  rcases h'.added place with hsame' | ⟨hp, old', more', executable', hold', hmore'⟩
  · rw [hsame']
    exact h.added place
  · rcases h.added place with hsame | ⟨-, old, more, executable, hold, hmore⟩
    · exact .inr ⟨hp, old', more', executable', hsame ▸ hold', hmore'⟩
    · cases hmore.symm.trans hold'
      exact .inr ⟨hp, old, more ++ more', _, hold, by rw [hmore', List.append_assoc]⟩

theorem Extends.elsewhere (h : fs.Extends P fs') {place : Place} (hp : ¬P place) :
    fs'.at? place = fs.at? place :=
  (h.added place).resolve_right fun hadded => hp hadded.1

theorem Extends.lasts (h : fs.Extends P fs') : fs.Lasts fs' := by
  refine ⟨fun place node hnode => ?_, h.rights⟩
  rcases h.added place with hsame | ⟨-, old, more, executable, hold, hmore⟩
  · exact ⟨node, hsame.trans hnode, .same node⟩
  · cases hold.symm.trans hnode
    exact ⟨_, hmore, .file ..⟩

/-- A path to a place that nothing was added to leads there as before. -/
theorem Extends.lookUp_eq (h : fs.Extends P fs') {cwd p : Path} {place : Place} {node : Node}
    (hp : ¬P place) (hfound : fs.lookUp cwd p = .found place node) :
    fs'.lookUp cwd p = .found place node := by
  obtain ⟨node', hfound', -⟩ := lookUp_lasts h.lasts hfound
  have hbefore := isFaithful_lookUp fs cwd p
  have hafter := isFaithful_lookUp fs' cwd p
  rw [hfound] at hbefore
  rw [hfound'] at hafter
  have hsame : fs'.at? place = some node := (h.elsewhere hp).trans hbefore
  rw [hfound', Option.some.inj (hafter.symm.trans hsame)]

theorem extends_append {cwd p : Path} {place : Place} {old bytes : List UInt8} {executable : Bool}
    (hfound : fs.lookUp cwd p = .found place (.file old executable)) (hp : P place)
    (h : fs.append cwd p bytes = .ok fs') : fs.Extends P fs' := by
  have hold : fs.at? place = some (.file old executable) := by
    have hfaithful := isFaithful_lookUp fs cwd p
    rwa [hfound] at hfaithful
  obtain ⟨there, old', executable', rfl, hwhere, -, -⟩ := alter_ok h
  rcases hwhere with ⟨_, hthere, rfl⟩ | ⟨hfree, -⟩
  · cases hfound.symm.trans hthere
    refine ⟨fun other => ?_, keepsRights_set ..⟩
    rw [at?_set]
    split
    · rename_i hother
      subst hother
      exact .inr ⟨hp, old, bytes, executable, hold, rfl⟩
    · exact .inl rfl
  · cases hfound.symm.trans hfree

/-- Opening a file to add to it concerns the place that the path leads to. -/
theorem provides_append {cwd p : Path} {bytes : List UInt8} (h : fs.append cwd p bytes = .ok fs') :
    fs.Provides (fun place => ∃ all executable,
      fs'.lookUp cwd p = .found place (.file all executable)) fs' := by
  obtain ⟨there, old, executable, rfl, -, hlook, -⟩ := alter_ok h
  refine ⟨fun place hplace => ?_, keepsRights_set ..⟩
  rw [at?_set]
  split
  · rename_i hother
    subst hother
    exact absurd ⟨_, _, hlook⟩ hplace
  · exact .inl rfl

end FileSystem

/-! ## The files of the log -/

namespace Log.Setup

open FileSystem

variable {s s' : Setup} {fs fs' : FileSystem} {cwd : Path}

/-- The log writes to the file at a place. -/
def WritesTo (s : Setup) (fs : FileSystem) (cwd : Path) (place : Place) : Prop :=
  ∃ c ∈ s.channels, ∃ path bytes executable, c.destination = .file path ∧
    fs.lookUp cwd path = .found place (.file bytes executable)

/-- Every channel to a file leads to one that is there and that the user may write. -/
def IsOpen (s : Setup) (fs : FileSystem) (cwd : Path) : Prop :=
  ∀ c ∈ s.channels, ∀ path, c.destination = .file path → ∃ place bytes executable,
    fs.lookUp cwd path = .found place (.file bytes executable) ∧ fs.mayWrite place = true

theorem IsOpen.lasts (h : s.IsOpen fs cwd) (lasts : fs.Lasts fs') : s.IsOpen fs' cwd := by
  intro c hc path hpath
  obtain ⟨place, bytes, executable, hfound, hmay⟩ := h c hc path hpath
  obtain ⟨bytes', hfound'⟩ := lookUp_file_lasts lasts hfound
  exact ⟨place, bytes', executable, hfound', lasts.rights.write place hmay⟩

theorem openDestination_ok {d d' : Destination} (h : openDestination fs cwd d = (fs', .ok d')) :
    (∀ path, d' = .file path → ∃ place bytes executable,
      fs'.lookUp cwd path = .found place (.file bytes executable) ∧
        fs'.mayWrite place = true) ∧
    fs.Provides (fun place => ∃ path bytes executable, d' = .file path ∧
      fs'.lookUp cwd path = .found place (.file bytes executable)) fs' := by
  cases d with
  | console stream =>
    cases h
    exact ⟨fun path hpath => (nomatch hpath), .refl _ fs⟩
  | file path =>
    unfold openDestination at h
    dsimp only at h
    split at h
    · cases h
    · rename_i made hmade
      split at h
      · cases h
      · rename_i opened hopened
        cases h
        constructor
        · rintro path ⟨⟩
          obtain ⟨place, old, executable, -, -, hopen⟩ := alter_ok hopened
          exact ⟨place, _, executable, hopen⟩
        · refine (provides_provideDirectory hmade).trans ((provides_append hopened).mono ?_)
          rintro place ⟨all, executable, hfound⟩
          exact ⟨_, all, executable, rfl, hfound⟩

/-- Opening outputs keeps the channels that there are, opens the files of all, and leaves
everything else as it is, except for new directories. -/
theorem openAll_ok {verbose : Bool} {os : List LogOutput} (hopen : s.IsOpen fs cwd)
    (h : openAll cwd verbose os fs s = (fs', s', .ok ())) :
    (∀ c ∈ s.channels, c ∈ s'.channels) ∧ s'.IsOpen fs' cwd ∧
      fs.Provides (s'.WritesTo fs' cwd) fs' := by
  induction os generalizing fs s with
  | nil =>
    cases h
    exact ⟨fun c hc => hc, hopen, .refl _ _⟩
  | cons o rest ih =>
    have hnoted : (s.noteFile o.destination).channels = s.channels := by
      unfold noteFile
      repeat' split
      all_goals rfl
    have hgrows := grows_openDestination fs cwd o.destination
    unfold openAll at h
    dsimp only at h
    split at h
    · cases h
    · rename_i opened destination hopened
      rw [hopened] at hgrows
      obtain ⟨hfile, hprovides⟩ := openDestination_ok hopened
      generalize hc : Channel.mk destination o.format _ = c at h
      have hadded : ((s.noteFile o.destination).addChannel c).channels = s.channels ++ [c] :=
        congrArg (· ++ [c]) hnoted
      have hopen' : ((s.noteFile o.destination).addChannel c).IsOpen opened cwd := by
        intro c' hc' path hpath
        rw [hadded] at hc'
        rcases List.mem_append.mp hc' with hc' | hc'
        · exact hopen.lasts hgrows.lasts c' hc' path hpath
        · cases List.mem_singleton.mp hc'
          subst hc
          exact hfile path hpath
      obtain ⟨hkept, hall, hrest⟩ := ih hopen' h
      have hc' : c ∈ s'.channels := hkept c (hadded ▸ List.mem_append_right _ (.head _))
      refine ⟨fun c hc => hkept c (hadded ▸ List.mem_append_left _ hc), hall,
        (hprovides.mono ?_).trans hrest⟩
      -- The file that has been opened first is still there in the end.
      rintro place ⟨path, bytes, executable, rfl, hfound⟩
      have hgrows' := grows_openAll cwd verbose rest opened
        ((s.noteFile o.destination).addChannel c)
      rw [h] at hgrows'
      obtain ⟨bytes', hfound'⟩ := lookUp_file_lasts hgrows'.lasts hfound
      subst hc
      exact ⟨_, hc', path, bytes', executable, rfl, hfound'⟩

variable {c : LoggingConfig} {verbose : Bool} (h : configure fs cwd c verbose = (fs', s, .ok ()))
include h

theorem isOpen_configure : s.IsOpen fs' cwd :=
  (openAll_ok (s := silent _) (fun _ hc => nomatch hc) h).2.1

theorem provides_configure : fs.Provides (s.WritesTo fs' cwd) fs' :=
  (openAll_ok (s := silent _) (fun _ hc => nomatch hc) h).2.2

end Log.Setup

/-! ## What a request undergoes -/

/-- The log may write to a destination: the error stream, or where a channel leads. -/
def Log.Setup.Reaches (s : Log.Setup) (d : Destination) : Prop :=
  d = .console .stderr ∨ ∃ c ∈ s.channels, c.destination = d

theorem Log.Setup.reaches_of_mem {s : Log.Setup} {time : Text} {m : Log.Message}
    {x : Destination × Text} (hx : x ∈ s.deliveries time m) : s.Reaches x.1 := by
  unfold deliveries at hx
  repeat' split at hx
  · cases hx
  · cases List.mem_singleton.mp hx
    exact .inl rfl
  · cases hx
  · obtain ⟨c, hc, rfl⟩ := List.mem_map.mp hx
    exact .inr ⟨c, (List.mem_filter.mp hc).1, rfl⟩

namespace Terminal

variable (t : Terminal) (m : Log.Message) (destination : Destination) (line : Text)

theorem log_writeLine : (t.writeLine m destination line).log = t.log := by
  unfold writeLine
  repeat' split
  all_goals rfl

theorem cwd_writeLine : (t.writeLine m destination line).machine.cwd = t.machine.cwd :=
  (logs_writeLine t m destination line).cwd

/-- What holds of a terminal and does not depend on its children is kept by a request, if it is
kept by every line of the log. -/
theorem undergoes_induction {I : Terminal → Prop} {log : Log.Setup}
    (hlog : ∀ t, I t → t.log = log)
    (hwrite : ∀ t m destination line, log.Reaches destination → I t →
      I (t.writeLine m destination line))
    (hchildren : ∀ t children processes attempts, I t → I { t with children, processes, attempts })
    (es : List Effect) {t : Terminal} (h : I t) : I (es.foldl undergo t) := by
  have hdeliver (t : Terminal) (m : Log.Message) (h : I t) : I (t.deliver m) := by
    have hreaches : ∀ x ∈ t.log.deliveries t.time m, log.Reaches x.1 := fun x hx =>
      hlog t h ▸ Log.Setup.reaches_of_mem hx
    unfold deliver
    -- On the lines, one for each channel: `I` keeps the log as it was, so they stay the ones to go.
    generalize t.log.deliveries t.time m = lines at hreaches
    induction lines generalizing t with
    | nil => exact h
    | cons x lines ih =>
      obtain ⟨hx, hlines⟩ := List.forall_mem_cons.mp hreaches
      exact ih _ (hwrite t m x.1 x.2 hx h) hlines
  induction es generalizing t with
  | nil => exact h
  | cons e es ih =>
    refine ih ?_
    cases e with
    | log r => exact hdeliver t _ h
    | process e =>
      cases e with
      | spawn => exact hchildren t _ _ _ h
      | input | kill | reap => exact hchildren t t.children _ t.attempts h
    | refused => exact hchildren t _ t.processes _ h
    | report f => exact h

/-- Since the log was set up, all that has happened to the files is that the log was written. -/
structure Told (t : Terminal) (files : FileSystem) (log : Log.Setup) (cwd : Path) : Prop where
  log_eq : t.log = log
  cwd_eq : t.machine.cwd = cwd
  extended : files.Extends (log.WritesTo files cwd) t.machine.files

theorem Told.undergoes {t : Terminal} {files : FileSystem} {log : Log.Setup} {cwd : Path}
    (hopen : log.IsOpen files cwd) (h : t.Told files log cwd) (es : List Effect) :
    (es.foldl undergo t).Told files log cwd := by
  refine undergoes_induction (fun _ => Told.log_eq) (fun t m destination line hreaches h => ?_)
    (fun t _ _ _ h => ⟨h.log_eq, h.cwd_eq, h.extended⟩) es h
  refine ⟨(log_writeLine ..).trans h.log_eq, (cwd_writeLine ..).trans h.cwd_eq, ?_⟩
  unfold writeLine
  repeat' split
  all_goals try exact h.extended
  rename_i path _ bytes _ _ added hadded
  rcases hreaches with hstderr | ⟨c, hc, hdestination⟩
  · cases hstderr
  · obtain ⟨place, bytes, executable, hfound, -⟩ := hopen c hc path hdestination
    have hplace : log.WritesTo files cwd place :=
      ⟨c, hc, path, bytes, executable, hdestination, hfound⟩
    obtain ⟨bytes', hfound'⟩ := FileSystem.lookUp_file_lasts h.extended.lasts hfound
    rw [h.cwd_eq] at hadded
    exact h.extended.trans (FileSystem.extends_append hfound' hplace hadded)

theorem Told.run_perform {α : Type} {t : Terminal} {files : FileSystem} {log : Log.Setup}
    {cwd : Path} (hopen : log.IsOpen files cwd) (h : t.Told files log cwd) (id : Text)
    {x : Action α} {a : α} (hresult : x.result = .ok a) :
    ∃ t' : Terminal, t'.Told files log cwd ∧
      t.run (Command.perform (x.forRequest id)) = (.ok a, t') :=
  ⟨_, h.undergoes hopen _,
    Command.run_perform ((Action.result_forRequest id x).trans hresult) t⟩

end Terminal

/-- A log of which nothing comes out on the output stream. -/
def Log.Setup.SparesOutput (s : Log.Setup) : Prop :=
  ∀ c ∈ s.channels, c.destination ≠ .console .stdout

theorem Log.Setup.sparesOutput_of_stderr {s : Log.Setup}
    (h : ∀ c ∈ s.channels, c.destination = .console .stderr) : s.SparesOutput :=
  fun c hc hstdout => nomatch (h c hc).symm.trans hstdout

namespace Terminal

theorem stdout_writeLine (t : Terminal) (m : Log.Message) {destination : Destination}
    (h : destination ≠ .console .stdout) (line : Text) :
    (t.writeLine m destination line).stdout = t.stdout := by
  unfold writeLine
  split
  · rfl
  · exact absurd rfl h
  · repeat' split
    all_goals rfl

theorem stdout_undergoes {t : Terminal} (h : t.log.SparesOutput) (es : List Effect) :
    (es.foldl undergo t).stdout = t.stdout := by
  have hall : (es.foldl undergo t).log = t.log ∧ (es.foldl undergo t).stdout = t.stdout := by
    refine undergoes_induction (I := fun t' => t'.log = t.log ∧ t'.stdout = t.stdout)
      (fun _ h => h.1) (fun t' m destination line hreaches h' => ?_) (fun _ _ _ _ h => h) es
      ⟨rfl, rfl⟩
    have hother : destination ≠ .console .stdout := by
      rcases hreaches with rfl | ⟨c, hc, rfl⟩
      · exact fun he => nomatch he
      · exact h c hc
    exact ⟨(log_writeLine ..).trans h'.1, (stdout_writeLine t' m hother line).trans h'.2⟩
  exact hall.2

end Terminal

end EditorLint
