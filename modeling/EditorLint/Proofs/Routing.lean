import EditorLint.Proofs.Frames

/-!
# Where events go

The log may be set up any number of times, and only the last time counts.  What is in force then
is what that configuration describes (`Log.Setup.described`), whatever was in force before, and
every event goes to the outputs whose threshold it meets, once to each, in the order in which the
events and the outputs come (`Terminal.events_routed`).  The lines arrive, for the files of the
outputs are there as long as the log is in force (`Terminal.Runs`).

There are two exceptions (`Terminal.events_misrouted`).  A log without outputs is not silent:
warnings and worse come out on the error stream, though no output leads there.  And a line with
half of a surrogate pair has no bytes, so a file and the standard output do not get it; the error
stream gets a report of that, with the event in it, whether or not an output leads there.
-/

namespace EditorLint

/-- The file that a destination is, if it is one. -/
def Destination.file? : Destination → Option Path
  | console _ => none
  | file path => some path

namespace Log

/-- An event that is given to the log itself, and not by the loop that talks to children. -/
structure Message.IsNative (m : Message) : Prop where
  structured : m.bare = false
  apart : isLoopLogger m.logger = false

namespace Setup

variable {s s' : Setup} {fs fs' : FileSystem} {cwd : Path} {verbose : Bool}

/-! ## The log that a configuration describes -/

/-- Where an output writes: a file takes the path in which `..` is folded. -/
def placeOf (cwd : Path) : Destination → Destination
  | .console stream => .console stream
  | .file path => .file (cwd.resolveLexically path)

def channelOf (cwd : Path) (root : Level) (verbose : Bool) (o : LogOutput) : Channel :=
  ⟨placeOf cwd o.destination, o.format, thresholdOf root verbose o⟩

/-- The log that a configuration describes: one channel for each output, in their order, and the
first file. -/
def described (cwd : Path) (c : LoggingConfig) (verbose : Bool) : Setup :=
  let root := if verbose then .debug else c.level
  ⟨root, c.outputs.map (channelOf cwd root verbose), c.outputs.findSome? (·.destination.file?)⟩

theorem placeOf_openDestination {d d' : Destination}
    (h : openDestination fs cwd d = (fs', .ok d')) : d' = placeOf cwd d := by
  cases d with
  | console stream =>
    cases h
    rfl
  | file path =>
    unfold openDestination at h
    dsimp only at h
    split at h
    · cases h
    · split at h
      · cases h
      · cases h
        rfl

theorem file_noteFile (s : Setup) (d : Destination) :
    (s.noteFile d).file = (s.file <|> d.file?) := by
  cases d with
  | console stream => cases hfile : s.file <;> simp [noteFile, Destination.file?, hfile]
  | file path => cases hfile : s.file <;> simp [noteFile, Destination.file?, hfile]

theorem eq_of_openAll {os : List LogOutput} (h : openAll cwd verbose os fs s = (fs', s', .ok ())) :
    s' = ⟨s.root, s.channels ++ os.map (channelOf cwd s.root verbose),
      s.file <|> os.findSome? (·.destination.file?)⟩ := by
  induction os generalizing fs s with
  | nil =>
    cases h
    simp
  | cons o rest ih =>
    unfold openAll at h
    dsimp only at h
    split at h
    · cases h
    · rename_i opened place hopened
      have hroot : (s.noteFile o.destination).root = s.root := by
        unfold noteFile
        repeat' split
        all_goals rfl
      have hchannels : (s.noteFile o.destination).channels = s.channels := by
        unfold noteFile
        repeat' split
        all_goals rfl
      have hrest := ih h
      rw [placeOf_openDestination hopened] at hrest
      rw [hrest]
      have hfile : ((s.file <|> o.destination.file?) <|> rest.findSome? (·.destination.file?)) =
          (s.file <|> (o :: rest).findSome? (·.destination.file?)) := by
        rw [List.findSome?_cons]
        cases s.file <;> cases o.destination.file? <;> rfl
      simp only [addChannel, hroot, hchannels, file_noteFile, hfile, List.append_assoc]
      rfl

theorem eq_of_configure {c : LoggingConfig}
    (h : configure fs cwd c verbose = (fs', s, .ok ())) : s = described cwd c verbose := by
  have hall := eq_of_openAll h
  simpa [silent, described] using hall

/-! ## Deliveries -/

/-- An event is delivered where it meets both levels, that of the root and that of the channel. -/
theorem deliveries_native (s : Setup) (time : Text) {m : Message} (h : m.IsNative) :
    s.deliveries time m =
      if s.channels = [] then
        if max s.root.number Level.warning.number ≤ m.rank then
          [(.console .stderr, m.unroutedLine time ++ "\n")]
        else []
      else
        (s.channels.filter fun c => max s.root.number c.threshold.number ≤ m.rank).map
          fun c => (c.destination, c.line time m ++ "\n") := by
  have hpasses : s.passes m = decide (s.root.number ≤ m.rank) := by
    unfold passes
    rw [h.structured, h.apart]
    simp
  have hboth (l : Level) : max s.root.number l.number ≤ m.rank ↔
      s.root.number ≤ m.rank ∧ l.number ≤ m.rank := Nat.max_le
  unfold deliveries receivers
  rw [hpasses]
  simp only [hboth]
  by_cases hroot : s.root.number ≤ m.rank
  · simp [hroot]
  · simp [hroot]

/-- To a file of the log one can add, and what leads somewhere leads there still. -/
theorem IsOpen.exists_append {path : Path} (h : s.IsOpen fs cwd) (reaches : s.Reaches (.file path))
    (bytes : List UInt8) : ∃ fs', fs.append cwd path bytes = .ok fs' ∧ fs.Lasts fs' := by
  obtain ⟨c, hc, hpath⟩ := reaches.resolve_left (by simp)
  obtain ⟨place, old, executable, hfound, hmay⟩ := h c hc path hpath
  have hadded : fs.append cwd path bytes =
      .ok (fs.set place (.file (old ++ bytes) executable)) :=
    FileSystem.alter_of_found hfound hmay (· ++ bytes)
  exact ⟨_, hadded, (FileSystem.extends_append (P := fun _ => True) hfound trivial hadded).lasts⟩

end Setup

end Log

namespace Terminal

open Log

/-! ## Lines that arrive -/

/-- A line about a message arrives where it is written.  One that cannot be encoded is escaped on
the error stream; elsewhere it is left out, and reported on the error stream. -/
inductive Receives (t : Terminal) : Message × Destination × Text → Terminal → Prop where
  | stderr (m : Message) (line : Text) :
    Receives t (m, .console .stderr, line) { t with stderr := t.stderr ++ escaped line }
  | stdout (m : Message) (cs : List Char) :
    Receives t (m, .console .stdout, Text.ofChars cs) { t with stdout := t.stdout ++ cs }
  | file (m : Message) {path : Path} {cs : List Char} {files : FileSystem}
    (added : t.machine.files.append t.machine.cwd path (Utf8.encodeChars cs) = .ok files) :
    Receives t (m, .file path, Text.ofChars cs) (t.withFiles files)
  | unencodable (m : Message) {d : Destination} {line : Text} {fault : Utf8.EncodeFault}
    (apart : d ≠ .console .stderr) (broken : Utf8.encode line = .error fault) :
    Receives t (m, d, line) { t with
      stderr := t.stderr ++ escaped (errorReport t.time m fault (t.traces.headD ⟨[], []⟩))
      traces := t.traces.tail }

/-- Lines arrive one after the other. -/
inductive ReceivesAll : Terminal → List (Message × Destination × Text) → Terminal → Prop where
  | nil (t : Terminal) : ReceivesAll t [] t
  | cons {t t' t'' : Terminal} {x : Message × Destination × Text}
    {xs : List (Message × Destination × Text)} (first : t.Receives x t')
    (rest : ReceivesAll t' xs t'') : ReceivesAll t (x :: xs) t''

theorem ReceivesAll.append {t t' t'' : Terminal} {xs ys : List (Message × Destination × Text)}
    (h : t.ReceivesAll xs t') (h' : t'.ReceivesAll ys t'') : t.ReceivesAll (xs ++ ys) t'' := by
  induction h with
  | nil t => exact h'
  | cons first rest ih => exact .cons first (ih h')

/-- The log is in force, and its files are there. -/
structure Runs (t : Terminal) (log : Setup) (cwd : Path) (time : Text) : Prop where
  log_eq : t.log = log
  cwd_eq : t.machine.cwd = cwd
  time_eq : t.time = time
  isOpen : log.IsOpen t.machine.files cwd

variable {t : Terminal} {log : Setup} {cwd : Path} {time : Text}

theorem writeLine_of_unencodable {m : Message} {d : Destination} {line : Text}
    {fault : Utf8.EncodeFault} (apart : d ≠ .console .stderr)
    (broken : Utf8.encode line = .error fault) :
    t.writeLine m d line = t.reportError m fault := by
  cases d with
  | console stream =>
    cases stream with
    | stderr => exact absurd rfl apart
    | stdout =>
      unfold Terminal.writeLine
      simp only [broken]
  | file path =>
    unfold Terminal.writeLine
    simp only [broken]

theorem ofChars_of_encode {line : Text} {bytes : List UInt8} (h : Utf8.encode line = .ok bytes) :
    ∃ cs, line = Text.ofChars cs ∧ bytes = Utf8.encodeChars cs := by
  obtain ⟨cs, rfl⟩ := Text.exists_ofChars (Utf8.scalars_of_encode h)
  rw [Utf8.encode_ofChars] at h
  exact ⟨cs, rfl, (Except.ok.inj h).symm⟩

/-- A line that the log may write arrives, and the log stays in force. -/
theorem Runs.writeLine (h : t.Runs log cwd time) (m : Message) {x : Destination × Text}
    (hx : log.Reaches x.1) :
    t.Receives (m, x) (t.writeLine m x.1 x.2) ∧ (t.writeLine m x.1 x.2).Runs log cwd time := by
  obtain ⟨d, line⟩ := x
  cases hline : Utf8.encode line with
  | error fault =>
    by_cases hstderr : d = .console .stderr
    · subst hstderr
      exact ⟨.stderr m line, h.log_eq, h.cwd_eq, h.time_eq, h.isOpen⟩
    · rw [writeLine_of_unencodable hstderr hline]
      exact ⟨.unencodable m hstderr hline, h.log_eq, h.cwd_eq, h.time_eq, h.isOpen⟩
  | ok bytes =>
    obtain ⟨cs, rfl, rfl⟩ := ofChars_of_encode hline
    cases d with
    | console stream =>
      cases stream with
      | stderr => exact ⟨.stderr m _, h.log_eq, h.cwd_eq, h.time_eq, h.isOpen⟩
      | stdout =>
        have hwritten : t.writeLine m (.console .stdout) (Text.ofChars cs) =
            { t with stdout := t.stdout ++ cs } := by
          unfold Terminal.writeLine
          simp only [hline, Text.shown_ofChars]
        rw [hwritten]
        exact ⟨.stdout m cs, h.log_eq, h.cwd_eq, h.time_eq, h.isOpen⟩
    | file path =>
      obtain ⟨files, hadded, hlasts⟩ := h.isOpen.exists_append hx (Utf8.encodeChars cs)
      rw [← h.cwd_eq] at hadded
      have hwritten : t.writeLine m (.file path) (Text.ofChars cs) = t.withFiles files := by
        unfold Terminal.writeLine
        simp only [hline, hadded]
      rw [hwritten]
      exact ⟨.file m hadded, h.log_eq, h.cwd_eq, h.time_eq, h.isOpen.lasts hlasts⟩

theorem Runs.writeLines (h : t.Runs log cwd time) (m : Message) {lines : List (Destination × Text)}
    (hreaches : ∀ x ∈ lines, log.Reaches x.1) :
    t.ReceivesAll (lines.map (m, ·)) (lines.foldl (fun t x => t.writeLine m x.1 x.2) t) ∧
      (lines.foldl (fun t x => t.writeLine m x.1 x.2) t).Runs log cwd time := by
  induction lines generalizing t with
  | nil => exact ⟨.nil t, h⟩
  | cons x lines ih =>
    obtain ⟨hx, hrest⟩ := List.forall_mem_cons.mp hreaches
    obtain ⟨hfirst, hruns⟩ := h.writeLine m hx
    obtain ⟨hall, hend⟩ := ih hruns hrest
    exact ⟨.cons hfirst hall, hend⟩

theorem Runs.deliver (h : t.Runs log cwd time) (m : Message) :
    t.ReceivesAll ((log.deliveries time m).map (m, ·)) (t.deliver m) ∧
      (t.deliver m).Runs log cwd time := by
  have hdeliver : t.deliver m =
      (log.deliveries time m).foldl (fun t x => t.writeLine m x.1 x.2) t := by
    unfold Terminal.deliver
    rw [h.log_eq, h.time_eq]
  rw [hdeliver]
  exact h.writeLines m fun x hx => Setup.reaches_of_mem hx

theorem Runs.deliverAll (h : t.Runs log cwd time) (ms : List Message) :
    t.ReceivesAll (ms.flatMap fun m => (log.deliveries time m).map (m, ·))
      (ms.foldl Terminal.deliver t) := by
  induction ms generalizing t with
  | nil => exact .nil t
  | cons m ms ih =>
    obtain ⟨hfirst, hruns⟩ := h.deliver m
    rw [List.flatMap_cons]
    exact hfirst.append (ih hruns)

/-! ## Setting the log up again and again -/

/-- Sets the log up several times, up to one time that fails. -/
def configureAll (t : Terminal) : List (LoggingConfig × Bool) → Except Failure Terminal
  | [] => .ok t
  | (c, verbose) :: rest =>
    match t.configureLog c verbose with
    | (t', .ok ()) => t'.configureAll rest
    | (_, .error f) => .error f

theorem runs_configureLog {t' : Terminal} {c : LoggingConfig} {verbose : Bool}
    (h : t.configureLog c verbose = (t', .ok ())) :
    t'.Runs (.described t.machine.cwd c verbose) t.machine.cwd t.time := by
  unfold configureLog at h
  generalize hconfigured : Setup.configure t.machine.files t.machine.cwd c verbose = configured at h
  obtain ⟨files, log, result⟩ := configured
  cases h
  have hlog := Setup.eq_of_configure hconfigured
  exact ⟨hlog, rfl, rfl, hlog ▸ Setup.isOpen_configure hconfigured⟩

theorem runs_configureAll {t' : Terminal} {calls : List (LoggingConfig × Bool)}
    {c : LoggingConfig} {verbose : Bool} (h : t.configureAll (calls ++ [(c, verbose)]) = .ok t') :
    t'.Runs (.described t.machine.cwd c verbose) t.machine.cwd t.time := by
  induction calls generalizing t with
  | nil =>
    change (match t.configureLog c verbose with
      | (t', .ok ()) => .ok t'
      | (_, .error f) => .error f) = Except.ok t' at h
    split at h
    · rename_i hconfigured
      cases h
      exact runs_configureLog hconfigured
    · cases h
  | cons call calls ih =>
    change (match t.configureLog call.1 call.2 with
      | (t', .ok ()) => t'.configureAll (calls ++ [(c, verbose)])
      | (_, .error f) => .error f) = Except.ok t' at h
    split at h
    · rename_i between hconfigured
      have hbetween := runs_configureLog hconfigured
      have hlast := ih h
      rwa [hbetween.cwd_eq, hbetween.time_eq] at hlast
    · cases h

/-- After the log has been set up several times, and each has gone well, what is in force is what
the last configuration describes: the level of the root, one channel for each output in their
order, and the first file.  Every event of the events that follow arrives once at every output
whose threshold it meets, which is the higher one of the level of the root and the level of the
output, and at no other, as far as its line can be encoded (`Receives`); where there are no
outputs, warnings and worse come out on the error stream.  A file keeps the level that it has
been given. -/
theorem events_routed {t t' : Terminal} {calls : List (LoggingConfig × Bool)} {c : LoggingConfig}
    {verbose : Bool} (h : t.configureAll (calls ++ [(c, verbose)]) = .ok t')
    {ms : List Message} (native : ∀ m ∈ ms, m.IsNative) :
    let root : Level := if verbose then .debug else c.level
    t'.log.root = root ∧
    t'.log.channels = c.outputs.map (Setup.channelOf t.machine.cwd root verbose) ∧
    t'.log.file = c.outputs.findSome? (·.destination.file?) ∧
    t'.ReceivesAll
      (ms.flatMap fun m =>
        if c.outputs = [] then
          if max root.number Level.warning.number ≤ m.rank then
            [(m, .console .stderr, m.unroutedLine t.time ++ "\n")]
          else []
        else
          (t'.log.channels.filter fun ch => max root.number ch.threshold.number ≤ m.rank).map
            fun ch => (m, ch.destination, ch.line t.time m ++ "\n"))
      (ms.foldl Terminal.deliver t') ∧
    (∀ o ∈ c.outputs, ∀ path level, o.destination = .file path → o.level = some level →
      (Setup.channelOf t.machine.cwd root verbose o).threshold = level) := by
  intro root
  -- Only the last of the calls is left in the set-up, and a record asks only for the set-up.
  have hruns := runs_configureAll h
  have hlog := hruns.log_eq
  refine ⟨hlog ▸ rfl, hlog ▸ rfl, hlog ▸ rfl, ?_, ?_⟩
  · have hempty : t'.log.channels = [] ↔ c.outputs = [] := by
      rw [hlog]
      exact List.map_eq_nil_iff
    have hroot : t'.log.root = root := hlog ▸ rfl
    have hlines (m : Message) (hm : m ∈ ms) : (t'.log.deliveries t.time m).map (m, ·) =
        if c.outputs = [] then
          if max root.number Level.warning.number ≤ m.rank then
            [(m, .console .stderr, m.unroutedLine t.time ++ "\n")]
          else []
        else
          (t'.log.channels.filter fun ch => max root.number ch.threshold.number ≤ m.rank).map
            fun ch => (m, ch.destination, ch.line t.time m ++ "\n") := by
      rw [Setup.deliveries_native _ _ (native m hm), hroot]
      simp only [hempty]
      split
      · split <;> rfl
      · exact List.map_map
    have hall := hruns.deliverAll ms
    rw [← hlog, List.flatMap_def, List.map_congr_left hlines, ← List.flatMap_def] at hall
    exact hall
  · intro o ho path level hfile hlevel
    show Setup.thresholdOf root verbose o = level
    unfold Setup.thresholdOf
    rw [hfile, hlevel]
    simp [Destination.isConsole]

/-- Once more, with everything asked for: the file of the first time is forgotten, and the console
shows an event that the file of the second time does not take. -/
theorem events_routed_verbose :
    let t := fresh ⟨.empty, ⟨.slash, []⟩, [], .alone "/root"⟩ "now" [] []
    let file (s : String) (level : Option Level) : LogOutput := ⟨.json, .file (.ofString s), level⟩
    let c : LoggingConfig :=
      ⟨.error, [⟨.console, .console .stderr, some .error⟩, file "/l/b.log" (some .error)]⟩
    let m := Message.ofEvent .debug "nano" "started" [] none
    ∃ t', t.configureAll ([(⟨.info, [file "/l/a.log" none]⟩, false)] ++ [(c, true)]) = .ok t' ∧
      t'.log.file = some (.ofString "/l/b.log") ∧
      t'.ReceivesAll [(m, .console .stderr, m.consoleLine "now" ++ "\n")] (t'.deliver m) := by
  intro t file c m
  have hsome : (t.configureAll ([(⟨.info, [file "/l/a.log" none]⟩, false)] ++
      [(c, true)])).toOption.isSome = true := by decide +kernel
  obtain ⟨t', ht'⟩ := Option.isSome_iff_exists.mp hsome
  have hcalls := ok_of_toOption ht'
  have native : ∀ m' ∈ [m], m'.IsNative := by
    intro m' hm'
    rw [List.mem_singleton.mp hm']
    exact ⟨rfl, by decide +kernel⟩
  obtain ⟨-, hchannels, hfile, hall, -⟩ := events_routed hcalls native
  rw [hchannels] at hall
  -- Of the two channels only the console has a threshold that the event meets.
  have hreached : ((c.outputs.map (Setup.channelOf ⟨.slash, []⟩ .debug true)).filter fun ch =>
      max Level.debug.number ch.threshold.number ≤ m.rank) =
        [⟨.console .stderr, .console, .debug⟩] := by decide +kernel
  have hall' : t'.ReceivesAll [(m, .console .stderr, m.consoleLine "now" ++ ("\n" : Text))]
      (t'.deliver m) := by
    simp only [List.flatMap_cons, List.flatMap_nil, List.append_nil, List.foldl_cons,
      List.foldl_nil] at hall
    rw [if_neg (by simp [c])] at hall
    erw [hreached] at hall
    exact hall
  exact ⟨t', hcalls, hfile.trans (by decide +kernel), hall'⟩

/-- Two events that are written elsewhere than at the outputs whose threshold they meet: without
outputs a warning comes out on the error stream; and half of a surrogate pair does not get into
the file that is the only output, while the error stream gets a report with the event in it. -/
theorem events_misrouted :
    let trace : CallTrace := ⟨"Traceback (most recent call last):\n", []⟩
    let t := fresh ⟨.empty, ⟨.slash, []⟩, [], .alone "/root"⟩ "now" [] [trace]
    let path : Path := .ofString "/a.log"
    let m := Message.ofEvent .warning "nano" "w" [] none
    let m' := Message.ofEvent .warning "nano" [.surrogate 0] [] none
    (∃ t', t.configureAll [(⟨.warning, []⟩, false)] = .ok t' ∧ m.IsNative ∧
      t'.log.channels = [] ∧ t'.stderr = [] ∧ (t'.deliver m).stderr ≠ []) ∧
    ∃ t', t.configureAll [(⟨.warning, [⟨.console, .file path, none⟩]⟩, false)] = .ok t' ∧
      m'.IsNative ∧ t'.log.channels = [⟨.file path, .console, .warning⟩] ∧
      (t'.deliver m').machine = t'.machine ∧
      (t'.deliver m').stderr = ("--- Logging error ---\n" ++
        "Traceback (most recent call last):\nUnicodeEncodeError: 'utf-8' codec can't encode " ++
        "character '\\ud800' in position 16: surrogates not allowed\nCall stack:\n" ++
        "Message: \x7b'event': '\\ud800', 'logger': 'nano', 'level': 'warning', " ++
        "'timestamp': 'now'\x7d\nArguments: ()\n").toList := by
  intro trace t path m m'
  refine ⟨⟨_, rfl, ⟨rfl, by decide +kernel⟩, rfl, rfl, by decide +kernel⟩, ?_⟩
  let c : LoggingConfig := ⟨.warning, [⟨.console, .file path, none⟩]⟩
  have hsome : (t.configureAll ([] ++ [(c, false)])).toOption.isSome = true := by decide +kernel
  obtain ⟨t', ht'⟩ := Option.isSome_iff_exists.mp hsome
  have hcalls := ok_of_toOption ht'
  have hruns := runs_configureAll hcalls
  have hlog : t'.log = ⟨.warning, [⟨.file path, .console, .warning⟩], some path⟩ :=
    hruns.log_eq.trans (by decide +kernel)
  have hlines : t'.log.deliveries t'.time m' = [(.file path, m'.consoleLine "now" ++ "\n")] := by
    rw [hlog, hruns.time_eq]
    decide +kernel
  obtain ⟨fault, hbroken⟩ : ∃ fault,
      Utf8.encode (m'.consoleLine "now" ++ ("\n" : Text)) = .error fault := ⟨_, rfl⟩
  have hdeliver : t'.deliver m' = t'.reportError m' fault := by
    unfold Terminal.deliver
    rw [hlines, List.foldl_cons, List.foldl_nil]
    exact writeLine_of_unencodable (by simp) hbroken
  have hstderr : (t.configureAll ([] ++ [(c, false)])).toOption.map
      (fun t' => (t'.deliver m').stderr) = some ("--- Logging error ---\n" ++
        "Traceback (most recent call last):\nUnicodeEncodeError: 'utf-8' codec can't encode " ++
        "character '\\ud800' in position 16: surrogates not allowed\nCall stack:\n" ++
        "Message: \x7b'event': '\\ud800', 'logger': 'nano', 'level': 'warning', " ++
        "'timestamp': 'now'\x7d\nArguments: ()\n").toList := by decide +kernel
  rw [ht'] at hstderr
  exact ⟨t', hcalls, ⟨rfl, by decide +kernel⟩, hlog ▸ rfl, by rw [hdeliver]; rfl,
    Option.some.inj hstderr⟩

end Terminal

end EditorLint
