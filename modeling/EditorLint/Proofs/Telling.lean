import EditorLint.Proofs.Traces

/-!
# What the host is told

A host that wants to know of faults is told of each one once.  Faults are told in four places:
where the settings are loaded, where the run of the linter fails, where anything unforeseen
ends the request, and where a fix or a publication is refused.  These are nested, and yet no
request tells of more than one fault (`faults_told_once`):

* `RunTold`, `LoadTold`: a request tells of a fault where its outcome is a failure, and the
  failure is that fault, or the settings are unavailable;
* `EndTold`: what it does with the outcome tells of another one only where the outcome was no
  failure: the sink refuses to publish it, or the document refuses to be changed;
* `Tells`: the turns of a request put these together, wherever they lie among the turns of
  others.

The rules for the parts of an action are those of `Action.Tells`: what comes before the telling
is silent, and what comes after it only returns.
-/

namespace EditorLint

/-! ## Actions that tell -/

namespace Action

variable {α β : Type}

/-- The faults that an action tells the host of. -/
def told (x : Action α) : List Fault := Effect.reports x.effects

/-- What an action tells fits what it ends with, and it tells nothing if it fails. -/
structure Tells (Q : α → List Fault → Prop) (x : Action α) : Prop where
  ok : ∀ a, x.result = .ok a → Q a x.told
  error : ∀ e, x.result = .error e → x.told = []

variable {Q : α → List Fault → Prop} {x : Action α}

@[simp] theorem told_forRequest (id : Text) (x : Action α) : (x.forRequest id).told = x.told := by
  unfold told Effect.reports forRequest
  rw [List.filterMap_map]
  congr 1
  funext e
  cases e <;> rfl

theorem told_bind_of_ok {f : α → Action β} {a : α} (h : x.result = .ok a) :
    (x >>= f).told = x.told ++ (f a).told := by
  show (bind x f).told = _
  unfold bind told
  rw [h]
  exact List.filterMap_append

theorem told_bind_of_error {f : α → Action β} {e : Failure} (h : x.result = .error e) :
    (x >>= f).told = x.told := by
  show (bind x f).told = _
  unfold bind told
  rw [h]

theorem tells_pure {a : α} (h : Q a []) : Tells Q (pure a) where
  ok := by
    intro b hb
    cases hb
    exact h
  error := by
    intro e he
    cases he

theorem tells_fail (e : Failure) : Tells Q (fail e : Action α) where
  ok := by
    intro a ha
    cases ha
  error := fun _ _ => rfl

/-- The second part of an action tells something only if the first has been silent; otherwise
it just returns. -/
theorem Tells.bind {R : β → List Fault → Prop} {f : α → Action β} (hx : x.Tells Q)
    (hf : ∀ a fs, Q a fs → (fs = [] ∧ (f a).Tells R) ∨ ∃ b, f a = pure b ∧ R b fs) :
    (x >>= f).Tells R := by
  cases hr : x.result with
  | error e =>
    constructor
    · intro b hb
      rw [result_bind_error hr f] at hb
      cases hb
    · intro e' _
      rw [told_bind_of_error hr]
      exact hx.error e hr
  | ok a =>
    have hsecond : (x >>= f).result = (f a).result := by
      show (Action.bind x f).result = _
      unfold Action.bind
      rw [hr]
    -- Either nothing has been told so far and `f` tells, or the telling is done and `f` ends at
    -- once.
    rcases hf a x.told (hx.ok a hr) with ⟨hsilent, htells⟩ | ⟨b, hpure, hb⟩
    · have hall : (x >>= f).told = (f a).told := by
        rw [told_bind_of_ok hr, hsilent]
        rfl
      constructor
      · intro b hb
        rw [hall]
        exact htells.ok b (hsecond ▸ hb)
      · intro e he
        rw [hall]
        exact htells.error e (hsecond ▸ he)
    · have hall : (x >>= f).told = x.told := by
        rw [told_bind_of_ok hr, hpure]
        exact List.append_nil _
      rw [hpure] at hsecond
      constructor
      · intro b' hb'
        cases hsecond.symm.trans hb'
        rw [hall]
        exact hb
      · intro e he
        cases hsecond.symm.trans he

theorem Tells.after {R : β → List Fault → Prop} {f : α → Action β} (hx : x.told = [])
    (hf : ∀ a, (f a).Tells R) : (x >>= f).Tells R := by
  have hsilent : x.Tells fun _ fs => fs = [] := ⟨fun _ _ => hx, fun _ _ => hx⟩
  exact hsilent.bind fun a fs hfs => .inl ⟨hfs, hf a⟩

theorem Tells.map {R : β → List Fault → Prop} {g : α → β} (hx : x.Tells Q)
    (h : ∀ a fs, Q a fs → R (g a) fs) : (x >>= fun a => pure (g a)).Tells R :=
  hx.bind fun a fs hfs => .inr ⟨g a, rfl, h a fs hfs⟩

theorem Tells.recover {f : Failure → Action α} (hx : x.Tells Q) (hf : ∀ e, (f e).Tells Q) :
    (x.recover f).Tells Q := by
  unfold Action.recover
  split
  · exact hx
  · rename_i e he
    have hall : Action.told ⟨x.effects ++ (f e).effects, (f e).result⟩ = (f e).told := by
      have hnone : Effect.reports x.effects = [] := hx.error e he
      unfold told Effect.reports at *
      rw [List.filterMap_append, hnone]
      rfl
    constructor
    · intro a ha
      rw [hall]
      exact (hf e).ok a ha
    · intro e' he'
      rw [hall]
      exact (hf e).error e' he'

end Action

/-- A host that wants to know of faults and takes them all well is the one that notes them. -/
theorem Handler.eq_recording {h : Handler} (hcalm : h.Calm) (hwants : h.callback.isSome = true) :
    h = .recording := by
  obtain ⟨_ | callback⟩ := h
  · cases hwants
  · have hnone : callback = fun _ => .none := by
      funext f
      cases hf : callback f with
      | none => rfl
      | some e => exact absurd ⟨callback, f, rfl, hf⟩ (hcalm e)
    rw [hnone]
    rfl

/-! ## Runs -/

/-- What the host is told when a run comes to an outcome: of the fault that it failed with. -/
inductive RunTold : Outcome → List Fault → Prop where
  | ok (diagnostics : List Diagnostic) (fix : Option Text) (config : Option Path) :
    RunTold (.ok diagnostics fix config) []
  | empty (config : Option Path) : RunTold (.empty config) []
  | failed (f : Fault) (config : Option Path) : RunTold (.failed f.message config) [f]

/-- What the host is told when a request comes to an outcome, whose settings may be
unavailable. -/
inductive LoadTold (loaded : Except Failure LinterSettings) : Outcome → List Fault → Prop where
  | unavailable (f : Fault) (fails : loaded = .error (.fault f)) :
    LoadTold loaded Request.unavailable [f]
  | run {s : LinterSettings} {o : Outcome} {fs : List Fault} (loads : loaded = .ok s)
    (told : RunTold o fs) : LoadTold loaded o fs

/-- What the host is told while an action may have to wait: nothing as long as it does. -/
def WaitTold {τ : Type} (Q : Outcome → List Fault → Prop) :
    Progress τ Outcome → List Fault → Prop
  | .waiting _, fs => fs = []
  | .done o, fs => Q o fs

theorem runTold_ofReport (diagnostics : List Diagnostic) (fix : Option Text)
    (config : Option Path) : RunTold (.ofReport diagnostics fix config) [] := by
  unfold Outcome.ofReport
  split
  · exact .empty config
  · exact .ok diagnostics fix config

namespace Runner

theorem tells_failed (config : Path) (f : Fault) :
    (failed .recording config f).Tells RunTold where
  ok := by
    intro o ho
    cases ho
    exact .failed f (some config)
  error := by
    intro e he
    cases he

theorem tells_unreachable (t : Talk) (e : Failure) :
    (unreachable .recording t e).Tells RunTold := by
  unfold unreachable
  repeat' split
  · exact tells_failed _ _
  · exact tells_failed _ _
  · exact Action.tells_fail e

theorem told_spawn (i : Invocation) (refusal : Option Failure) : (spawn i refusal).told = [] := by
  cases refusal <;> rfl

theorem told_feed (i : Invocation) : (feed i).told = [] := by
  unfold feed
  split <;> rfl

theorem tells_start (settings : LinterSettings) (config file : Path) (mode : RunMode)
    (text : Option Text) (child : Child) :
    (start .recording settings config file mode text child).Tells (WaitTold RunTold) := by
  let t : Talk := ⟨.build settings config file mode text, config, settings.timeout⟩
  -- A child that refuses to start decides the outcome, and nothing is told otherwise.
  have hrefused : (Action.recover
      (do
        spawn t.invocation child.refusal
        return none)
      (fun f => do return some (← unreachable .recording t f))).Tells fun refused fs =>
        match refused with
        | none => fs = []
        | some o => RunTold o fs := by
    apply Action.Tells.recover
    · exact .after (told_spawn _ _) fun _ => Action.tells_pure rfl
    · intro f
      exact (tells_unreachable t f).map fun _ _ h => h
  refine .after rfl fun _ => hrefused.bind fun refused fs hfs => ?_
  cases refused with
  | none =>
    left
    exact ⟨hfs, .after (told_feed _) fun _ => Action.tells_pure rfl⟩
  | some o => exact .inr ⟨.done o, rfl, hfs⟩

theorem tells_conclude (t : Talk) (o : ProcessOutput) :
    (conclude .recording t o).Tells RunTold := by
  unfold conclude
  refine .after rfl fun _ => ?_
  dsimp only
  split
  · exact tells_failed _ _
  · refine .after ?_ fun report => ?_
    · unfold Action.told Effect.reports Action.ofLogged
      rw [List.filterMap_map]
      exact List.filterMap_eq_nil_iff.mpr fun _ _ => rfl
    · cases report with
      | unreadable reason => exact tells_failed _ _
      | readable diagnostics fix => exact Action.tells_pure (runTold_ofReport _ _ _)

theorem tells_resume (t : Talk) (e : TalkEnd) : (resume .recording t e).Tells RunTold := by
  unfold resume
  split
  · exact tells_conclude t _
  · exact tells_unreachable t _

end Runner

namespace Request

theorem tells_unforeseen (path : Path) (f : Failure) :
    (unforeseen .recording path f).Tells RunTold where
  ok := by
    intro o ho
    cases ho
    exact .failed _ none
  error := by
    intro e he
    cases he

theorem tells_launch (m : Machine) (s : LinterSettings) (path : Path) (mode : RunMode)
    (text : Option Text) (child : Child) :
    (launch .recording m s path mode text child).Tells (WaitTold RunTold) := by
  unfold launch
  refine .after rfl fun found => ?_
  cases found with
  | none => exact .after rfl fun _ => Action.tells_pure (.empty none)
  | some config => exact Runner.tells_start s config path mode text child

theorem tells_begin (m : Machine) (loaded : Except Failure LinterSettings) (task : Task)
    (path : Path) (text : Text) (child : Child) :
    (begin .recording m loaded task path text child).Tells (WaitTold (LoadTold loaded)) := by
  cases loaded with
  | error e =>
    cases e with
    | fault f =>
      constructor
      · intro progress hp
        cases hp
        exact .unavailable f rfl
      · intro e he
        cases he
    | _ => exact Action.tells_fail _
  | ok s =>
    have hknown : (settings .recording (.ok s)).Tells fun known fs => known = some s ∧ fs = [] :=
      Action.tells_pure ⟨rfl, rfl⟩
    refine hknown.bind fun known fs hfs => .inl ⟨hfs.2, ?_⟩
    obtain ⟨rfl, -⟩ := hfs
    dsimp only
    split
    · exact Action.tells_pure (.run rfl (.empty none))
    · have hlaunched := (tells_launch m s path task.mode (input task text)
        child).recover fun f => (tells_unforeseen path f).map (g := Progress.done) fun _ _ h => h
      -- What is made of the progress of the launch tells no more than that.
      refine hlaunched.bind fun progress fs hfs => ?_
      cases progress with
      | waiting t => exact .inr ⟨.waiting (s, t), rfl, hfs⟩
      | done o => exact .inr ⟨.done o, rfl, .run rfl hfs⟩

/-- What the second part of a request tells of; it always comes to an outcome. -/
theorem tells_proceed (path : Path) (t : Runner.Talk) (e : TalkEnd) :
    (proceed .recording path t e).Tells RunTold :=
  (Runner.tells_resume t e).recover (tells_unforeseen path)

end Request

/-! ## Ends of requests -/

/-- The fault of a document that refuses to be changed. -/
def Fix.refusal (path : Path) (f : Failure) : Fault :=
  .unexpected ("applying fix failed: " ++ f.display) (Request.pathDetail path)

namespace Session

/-- The fault of a sink that refuses to publish. -/
def sinkFault (t : Ticket) (f : Failure) : Fault :=
  .unexpected ("publishing issues failed: " ++ f.display) (Request.pathDetail t.path)

/-- What the host is told while a request does what it was asked to with an outcome: of a sink
that refuses to publish it, or of a document that refuses to be changed. -/
inductive EndTold (s : Session) (t : Ticket) (o : Outcome) : Completion → List Fault → Prop where
  | diagnosed (task : t.task = .diagnose) : EndTold s t o (.outcome o) []
  | provided (task : t.task = .provideIssues) : EndTold s t o (.issues o.diagnostics) []
  | stale (task : t.task = .refresh) (overtaken : s.sequencer.isCurrent t.path t.token = false) :
    EndTold s t o (.outcome (.stale o.config)) []
  | refreshed (task : t.task = .refresh) (current : s.sequencer.isCurrent t.path t.token = true)
    (sink : isPublished o = true → s.sinkFailure = none) : EndTold s t o (.outcome o) []
  | unpublished {f : Failure} (task : t.task = .refresh)
    (current : s.sequencer.isCurrent t.path t.token = true) (published : isPublished o = true)
    (sink : s.sinkFailure = some f) :
    EndTold s t o (.outcome (.failed (sinkFault t f).message o.config)) [sinkFault t f]
  | closed (task : t.task.isFix = true) (gone : s.document? t.document = none) :
    EndTold s t o (.edited false) []
  | fixed {d : OpenDocument} {edited : Option OpenDocument} (task : t.task.isFix = true)
    (opened : s.document? t.document = some d) (applied : d.applyFix o.fix = .ok edited) :
    EndTold s t o (.edited edited.isSome) []
  | refused {d : OpenDocument} {f : Failure} (task : t.task.isFix = true)
    (opened : s.document? t.document = some d) (fails : d.applyFix o.fix = .error f) :
    EndTold s t o (.edited false) [Fix.refusal d.path f]

theorem EndsBy.told {s : Session} {t : Ticket} {o : Outcome} {c : Completion} {es : List Effect}
    (h : s.EndsBy t o c es) (hh : s.handler = .recording) :
    s.EndTold t o c (Effect.reports es) := by
  cases h with
  | diagnosed task => exact .diagnosed task
  | provided task => exact .provided task
  | stale task overtaken => exact .stale task overtaken
  | refreshed task current sink => exact .refreshed task current sink
  | unpublished task current published sink does =>
    rw [hh] at does
    subst does
    exact .unpublished task current published sink
  | closed task gone => exact .closed task gone
  | @amended d task opened x does =>
    rw [hh] at does
    have htold : Effect.reports x.effects = (Fix.amend .recording d o).told := by
      rw [does]
      exact Action.told_forRequest t.id _
    rw [htold, does, Action.result_forRequest]
    unfold Fix.amend
    cases happlied : d.applyFix o.fix with
    | error f => exact .refused task opened happlied
    | ok edited => cases edited <;> exact .fixed task opened happlied

/-- What an outcome has told and what is told afterwards is one fault at most: the sink and the
document get nothing to refuse from a failed run. -/
theorem EndTold.once {s : Session} {t : Ticket} {o : Outcome} {c : Completion}
    {loaded : Except Failure LinterSettings} {fs fs' : List Fault} (hend : s.EndTold t o c fs')
    (hload : LoadTold loaded o fs) : (fs ++ fs').length ≤ 1 := by
  have hfailed : fs = [] ∨ fs.length = 1 ∧ ∃ reason config, o = .failed reason config := by
    cases hload with
    | unavailable f fails => exact .inr ⟨rfl, _, _, rfl⟩
    | run loads told =>
      cases told with
      | ok | empty => exact .inl rfl
      | failed f config => exact .inr ⟨rfl, _, _, rfl⟩
  rcases hfailed with rfl | ⟨hone, reason, config, rfl⟩
  · cases hend <;> simp
  · cases hend with
    | unpublished _ _ published _ => cases published
    | refused _ _ fails => cases fails
    | _ => simp [hone]

end Session

/-! ## Requests among others -/

/-- The faults that the host is told of at a turn. -/
def Turn.told (m : Turn) : List Fault := Effect.reports m.effects

/-- The faults that a request tells the host of. -/
def told (t : Ticket) (ms : List Turn) : List Fault := Effect.reports (effectsOf t ms)

/-- How the turns of a request bring it to its end, if they do, and what they tell of.  A
request tells of something only when it comes to an outcome, and what it tells of is decided by
the outcome that its run has come to. -/
inductive Tells (t : Ticket) : List Turn → Option Completion → List Fault → Prop where
  | nothing : Tells t [] none []
  | waits {m : Turn} {ks : List Turn} {p : Pending} {d : OpenDocument} {child : Child}
    (own : p.ticket = t) (first : m.Starts p d child) (meanwhile : KilledAt p ks) :
    Tells t (m :: ks) none []
  | unloaded {m : Turn} {d : OpenDocument} {child : Child} {f : Failure}
    (first : m.Begins t d child) (fails : m.before.loaded = .error f) (other : f.isFault = false) :
    Tells t [m] (some (.failed f)) []
  | atOnce {m : Turn} {d : OpenDocument} {child : Child} {o : Outcome} {c : Completion}
    {fs fs' : List Fault} (first : m.Begins t d child)
    (comes : (m.opening t d child).result = .ok (.done o)) (load : LoadTold m.before.loaded o fs)
    (last : (m.before.admitted t).EndTold t o c fs') : Tells t [m] (some c) (fs ++ fs')
  | later {m m' : Turn} {ks : List Turn} {p : Pending} {d : OpenDocument} {child : Child}
    {e : TalkEnd} {o : Outcome} {c : Completion} {fs fs' : List Fault} (own : p.ticket = t)
    (first : m.Starts p d child) (meanwhile : KilledAt p ks) (what : m'.what = .goOn p e)
    (comes : (m'.closing p e).result = .ok o) (load : LoadTold m.before.loaded o fs)
    (last : m'.before.EndTold t o c fs') : Tells t (m :: ks ++ [m']) (some c) (fs ++ fs')
  | givenUp {m m' : Turn} {ks : List Turn} {p : Pending} {d : OpenDocument} {child : Child}
    (own : p.ticket = t) (first : m.Starts p d child) (meanwhile : KilledAt p ks)
    (what : m'.what = .giveUp p ∨ ∃ name, m'.what = .event (.cancel name)) :
    Tells t (m :: ks ++ [m']) (some .cancelled) []

theorem Tells.once {t : Ticket} {ms : List Turn} {r : Option Completion} {fs : List Fault}
    (h : Tells t ms r fs) : fs.length ≤ 1 := by
  cases h with
  | atOnce first comes load last => exact last.once load
  | later own first meanwhile what comes load last => exact last.once load
  | _ => simp

theorem Effect.reports_append (es es' : List Effect) :
    reports (es ++ es') = reports es ++ reports es' :=
  List.filterMap_append

section Recording

variable {m : Turn} {t : Ticket} {d : OpenDocument} {child : Child}

theorem told_opening (hh : m.before.handler = .recording) :
    (m.opening t d child).Tells (WaitTold (LoadTold m.before.loaded)) := by
  have htells := Request.tells_begin m.before.machine m.before.loaded t.task d.path d.text child
  unfold Turn.opening
  rw [hh]
  exact ⟨fun a ha => (Action.told_forRequest t.id _).symm ▸ htells.ok a ha,
    fun e he => (Action.told_forRequest t.id _).symm ▸ htells.error e he⟩

theorem told_reap (p : Pending) : p.reap.told = [] := by
  unfold Pending.reap
  split <;> rfl

theorem told_killing (p : Pending) : Effect.reports p.killing = [] := by
  unfold Pending.killing
  split <;> rfl

theorem told_closing {p : Pending} {e : TalkEnd} (hh : m.before.handler = .recording) :
    (m.closing p e).Tells RunTold := by
  have htells := Action.Tells.after (told_reap p) fun _ =>
    Request.tells_proceed p.ticket.path p.talk e
  unfold Turn.closing Session.proceed
  rw [hh]
  exact ⟨fun a ha => (Action.told_forRequest p.ticket.id _).symm ▸ htells.ok a ha,
    fun e he => (Action.told_forRequest p.ticket.id _).symm ▸ htells.error e he⟩

/-- What a request has done tells the host of what it should be told. -/
theorem Did.tells {ms : List Turn} {r : Option Completion} {es : List Effect} (h : Did t ms r es)
    (hh : ∀ m ∈ ms, m.before.handler = .recording) : Tells t ms r (Effect.reports es) := by
  -- A request that waits has told nothing yet, so all that it tells comes with its end.
  have silent {m : Turn} {p : Pending} {d : OpenDocument} {child : Child}
      (first : m.Starts p d child) (hm : m.before.handler = .recording) :
      Effect.reports (m.opening p.ticket d child).effects = [] :=
    (told_opening hm).ok _ first.waits
  cases h with
  | nothing => exact .nothing
  | @waits m ks p d child own first meanwhile =>
    subst own
    rw [Effect.reports_append, silent first (hh m (by simp)), told_killing]
    exact .waits rfl first meanwhile
  | @failed m d child f first fails =>
    have hm := hh m (by simp)
    rw [show Effect.reports _ = [] from (told_opening hm).error f fails]
    rcases Request.begin_error fails with ⟨callback, fault, hc, hf⟩ | ⟨hloaded, hother⟩
    · rw [hm] at hc
      cases hc
      cases hf
    · exact .unloaded first hloaded hother
  | @atOnce m d child o c es first comes last =>
    have hm := hh m (by simp)
    rw [Effect.reports_append]
    exact .atOnce first comes ((told_opening hm).ok _ comes) (last.told hm)
  | @failedLater m m' ks p d child e f own first meanwhile what leaves fails =>
    unfold Turn.closing at fails
    rw [Session.result_proceed] at fails
    obtain ⟨callback, fault, hc, hf⟩ := Request.raises_of_proceed fails
    rw [hh m' (by simp)] at hc
    cases hc
    cases hf
  | @later m m' ks p d child e o c es own first meanwhile what leaves comes last =>
    subst own
    have hm' := hh m' (by simp)
    rw [Effect.reports_append, silent first (hh m (by simp)), Effect.reports_append, told_killing,
      Effect.reports_append, List.nil_append, List.nil_append]
    have hload := LoadTold.run (Request.loaded_of_waiting first.waits)
      ((told_closing hm').ok o comes)
    exact .later rfl first meanwhile what comes hload (last.told hm')
  | @reaped m m' ks p d child own first meanwhile what killed =>
    subst own
    rw [Effect.reports_append, silent first (hh m (by simp)), Effect.reports_append, told_killing,
      show Effect.reports p.reap.effects = [] from told_reap p]
    exact .givenUp rfl first meanwhile (.inl what)
  | @givenUp m m' ks p d child name own first meanwhile what found spent =>
    subst own
    rw [Effect.reports_append, silent first (hh m (by simp)), told_killing]
    exact .givenUp rfl first meanwhile (.inr ⟨name, what⟩)

end Recording

namespace Session

/-- Where a host wants to know of faults and takes them all well: however the requests of a
session interleave, it is told of one fault at most by each of them, and of none otherwise.  A
request that has come to an outcome has told of a fault exactly where its settings could not be
loaded, its run has failed, the sink has refused to publish its outcome, or its document has
refused to be changed; a failed run has the message of that fault. -/
theorem faults_told_once (m₀ : Machine) {h : Handler} (hcalm : h.Calm)
    (hwants : h.callback.isSome = true) (source : SettingsSource)
    (documents : List (Text × OpenDocument)) {ms : List Turn} {s : Session}
    (ht : (initial m₀ h source documents).Timeline ms s) :
    (∀ m ∈ ms, m.ticket? = none → m.told = []) ∧
      ∀ t, (told t ms).length ≤ 1 ∧
        ∃ r, Tells t (turnsOf t ms) r (told t ms) ∧
          ∀ c, Stage.ended t c ∈ s.stages → r = some c := by
  obtain rfl := Handler.eq_recording hcalm hwants
  constructor
  · intro m hm hnone
    obtain ⟨earlier, later, -, -, hnow, -⟩ := ht.mem hm
    refine List.filterMap_eq_nil_iff.mpr fun e he => ?_
    obtain ⟨r, rfl⟩ := logs_happens hnow hnone e he
    rfl
  · intro t
    have hhandler (m : Turn) (hm : m ∈ turnsOf t ms) : m.before.handler = .recording := by
      obtain ⟨earlier, later, -, hbefore, -, -⟩ := ht.mem (List.mem_filter.mp hm).1
      exact (living_timeline hbefore).handler
    obtain ⟨r, hdid, hends⟩ := did_timeline ht t
    have htells := hdid.tells hhandler
    exact ⟨htells.once, r, htells, hends⟩

/-- A request whose linter cannot be started tells of that once. -/
theorem faults_told_once_spawn :
    let machine : Machine :=
      ⟨.ofNodes [([], .directory), (["eslint.config.js"], .file [] false)],
        ⟨.slash, []⟩, [], .alone "/root"⟩
    let documents : List (Text × OpenDocument) :=
      [([], .buffer ⟨⟨.slash, ["a"]⟩, [], none, none, 0, 0⟩)]
    let child : Child := ⟨some (.system (.notFound [])), .output ⟨none, [], []⟩, .never, false, false⟩
    let events : List Event := [.request [] .refresh [] child]
    let s₀ := initial machine .recording (.given (.ok .defaults)) documents
    let s := s₀.run events
    (Effect.reports s.effects).length = 1 ∧ Handler.recording.Calm ∧
      Handler.recording.callback.isSome = true ∧
      ∃ ms, s₀.Timeline ms s ∧ ms.filterMap Turn.event? = events ∧
        ∀ t, (told t ms).length ≤ 1 := by
  intro machine documents child events s₀ s
  obtain ⟨ms, ht, hevents⟩ := timeline_run s₀ events
  have hall := (faults_told_once machine Handler.calm_recording rfl _ documents ht).2
  exact ⟨by decide +kernel, Handler.calm_recording, rfl, ms, ht, hevents, fun t => (hall t).1⟩

end Session

end EditorLint
