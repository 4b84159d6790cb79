import EditorLint.Proofs.Outcomes
import EditorLint.Proofs.Spawning

/-!
# Well-formed outcomes

Whoever is given an outcome goes by its status, and by whether it names a configuration.  It is
well-formed if it has what its status promises and nothing else (`Outcome.WellFormed`).

1. A run comes to what its report says or to a failure, and names its configuration
   (`Runner.Concluded`), however it waits for its child.
2. A request that diagnoses comes to what its run does, to nothing where there is no
   configuration, or to a failure (`Request.Diagnosed`).
3. What is diagnosed is handed on, unless a refresh has been overtaken or cannot publish it
   (`Request.Answers`).

A request looks for the configuration when it begins (`Turn.Seeks`).  Where it finds none it is
over, and has done nothing to any child (`Did.still_of_seeks`).
-/

namespace EditorLint

namespace Outcome

/-- An outcome has what its status promises, and nothing else. -/
structure WellFormed (o : Outcome) : Prop where
  ok : o.status = "ok" →
    (∃ path, o.config = some path) ∧ o.error = none ∧
      (o.diagnostics ≠ [] ∨ ∃ text, o.fix = some text)
  empty : o.status = "empty" → o.diagnostics = [] ∧ o.fix = none ∧ o.error = none
  failed : o.status = "failed" →
    (∃ reason, o.error = some reason) ∧ o.diagnostics = [] ∧ o.fix = none
  stale : o.status = "stale" → o.diagnostics = [] ∧ o.fix = none ∧ o.error = none

theorem wellFormed_empty (config : Option Path) : (empty config).WellFormed := by
  constructor <;> simp [status, diagnostics, fix, error]

theorem wellFormed_failed (reason : Text) (config : Option Path) :
    (failed reason config).WellFormed := by
  constructor <;> simp [status, diagnostics, fix, error]

theorem wellFormed_stale (config : Option Path) : (stale config).WellFormed := by
  constructor <;> simp [status, diagnostics, fix, error]

theorem Shows.wellFormed {o : Outcome} {ds : List Diagnostic} {fix : Option Text} {config : Path}
    (h : o.Shows ds fix (some config)) : o.WellFormed := by
  have hstatus := h.status
  by_cases hnothing : ds = [] ∧ fix = none
  · rw [if_pos hnothing] at hstatus
    obtain ⟨rfl, rfl⟩ := hnothing
    constructor <;> simp [hstatus, h.diagnostics, h.fix, h.error]
  · rw [if_neg hnothing] at hstatus
    have hsome : ds ≠ [] ∨ ∃ text, fix = some text := by
      rw [← Option.ne_none_iff_exists']
      exact Classical.not_and_iff_not_or_not.mp hnothing
    constructor <;> simp [hstatus, h.config, h.error, h.diagnostics, h.fix, hsome]

end Outcome

namespace Runner

/-- The outcomes that a run with a configuration may come to. -/
inductive Concluded (config : Path) : Outcome → Prop where
  | report (diagnostics : List Diagnostic) (fix : Option Text) :
    Concluded config (.ofReport diagnostics fix (some config))
  | failed (reason : Text) : Concluded config (.failed reason (some config))

section Concluded

variable {config : Path} {o : Outcome}

theorem Concluded.wellFormed (h : Concluded config o) : o.WellFormed := by
  cases h with
  | report diagnostics fix => exact (Outcome.shows_ofReport diagnostics fix _).wellFormed
  | failed reason => exact Outcome.wellFormed_failed reason _

theorem Concluded.config_eq (h : Concluded config o) : o.config = some config := by
  cases h with
  | report diagnostics fix => exact Outcome.config_ofReport diagnostics fix _
  | failed reason => rfl

theorem Concluded.not_stale (h : Concluded config o) : o.status ≠ "stale" := by
  cases h with
  | report diagnostics fix =>
    rw [(Outcome.shows_ofReport diagnostics fix _).status]
    split <;> decide
  | failed reason => exact (by decide : "failed" ≠ "stale")

end Concluded

section Run

variable {h : Handler} {settings : LinterSettings} {config file : Path} {mode : RunMode}
  {text : Option Text} {child : Child} {o : Outcome}

/-- A run that starts is over because its child cannot be started, or waits. -/
theorem start_cases {progress : Progress Talk Outcome}
    (hs : (start h settings config file mode text child).result = .ok progress) :
    (∃ reason, progress = .done (.failed reason (some config))) ∨
      ∃ t, progress = .waiting t ∧ t.config = config := by
  cases hrefusal : child.refusal with
  | some f => exact .inl (failed_of_start hrefusal hs)
  | none =>
    cases hencode : Utf8.encode (text.getD []) with
    | error f =>
      rw [start_unfed h settings config file mode text hrefusal hencode] at hs
      cases hs
    | ok bytes =>
      rw [start_fed hrefusal hencode] at hs
      cases hs
      exact .inr ⟨_, rfl, rfl⟩

theorem concluded_of_resume {t : Talk} {e : TalkEnd} (hr : (resume h t e).result = .ok o) :
    Concluded t.config o := by
  by_cases hdelivers : ∃ diagnostics fix, Delivers e diagnostics fix
  · obtain ⟨diagnostics, fix, hdelivers⟩ := hdelivers
    rw [resume_of_delivers h t hdelivers] at hr
    cases hr
    exact .report diagnostics fix
  · have hnone (diagnostics : List Diagnostic) (fix : Option Text) :
        ¬Delivers e diagnostics fix := fun hd => hdelivers ⟨diagnostics, fix, hd⟩
    obtain ⟨reason, rfl⟩ := failed_of_resume hr hnone
    exact .failed reason

/-- A run hands an outcome back: at once, or when the talk with its child has ended somehow, after
whatever else has happened meanwhile. -/
inductive HandsBack (h : Handler) (settings : LinterSettings) (config file : Path) (mode : RunMode)
    (text : Option Text) (child : Child) : Outcome → Prop where
  | atOnce {o : Outcome}
    (ends : (start h settings config file mode text child).result = .ok (.done o)) :
    HandsBack h settings config file mode text child o
  | later {t : Talk} {e : TalkEnd} {o : Outcome}
    (waits : (start h settings config file mode text child).result = .ok (.waiting t))
    (resumes : (resume h t e).result = .ok o) :
    HandsBack h settings config file mode text child o

theorem handsBack_of_run (hr : (run h settings config file mode text child).result = .ok o) :
    HandsBack h settings config file mode text child o := by
  obtain ⟨progress, hs, hr⟩ := Action.result_bind hr
  cases progress with
  | done o' =>
    cases hr
    exact .atOnce hs
  | waiting t =>
    obtain ⟨_, -, hr⟩ := Action.result_bind hr
    exact .later hs hr

theorem HandsBack.concluded (hb : HandsBack h settings config file mode text child o) :
    Concluded config o := by
  cases hb with
  | atOnce ends =>
    rcases start_cases ends with ⟨reason, hdone⟩ | ⟨t, hwaiting, -⟩
    · cases hdone
      exact .failed reason
    · cases hwaiting
  | later waits resumes =>
    rcases start_cases waits with ⟨reason, hdone⟩ | ⟨t, hwaiting, rfl⟩
    · cases hdone
    · cases hwaiting
      exact concluded_of_resume resumes

end Run

end Runner

namespace Request

/-! ## Requests that diagnose -/

/-- The outcomes that a request may come to that diagnoses a document, by the machine and the
settings that it begins with. -/
inductive Diagnosed (m : Machine) (loaded : Except Failure LinterSettings) (path : Path) :
    Outcome → Prop where
  | unlocated {s : LinterSettings} (loads : loaded = .ok s) (search : located m s path = .ok none) :
    Diagnosed m loaded path (.empty none)
  | concluded {s : LinterSettings} {config : Path} {o : Outcome} (loads : loaded = .ok s)
    (search : located m s path = .ok (some config)) (run : Runner.Concluded config o) :
    Diagnosed m loaded path o
  | failed (reason : Text) : Diagnosed m loaded path (.failed reason none)

section Diagnosed

variable {m : Machine} {loaded : Except Failure LinterSettings} {path : Path} {o : Outcome}

theorem Diagnosed.wellFormed (h : Diagnosed m loaded path o) : o.WellFormed := by
  cases h with
  | unlocated => exact Outcome.wellFormed_empty none
  | concluded _ _ run => exact run.wellFormed
  | failed reason => exact Outcome.wellFormed_failed reason none

theorem Diagnosed.not_stale (h : Diagnosed m loaded path o) : o.status ≠ "stale" := by
  cases h with
  | unlocated => exact (by decide : "empty" ≠ "stale")
  | concluded _ _ run => exact run.not_stale
  | failed => exact (by decide : "failed" ≠ "stale")

theorem Diagnosed.located_of_empty (h : Diagnosed m loaded path o) (empty : o.status = "empty") :
    ∃ s, loaded = .ok s ∧ located m s path = .ok o.config := by
  cases h with
  | unlocated loads search => exact ⟨_, loads, search⟩
  | concluded loads search run => exact ⟨_, loads, by rw [run.config_eq, search]⟩
  | failed => exact absurd empty (by decide : "failed" ≠ "empty")

end Diagnosed

section Request

variable {h : Handler} {m : Machine} {loaded : Except Failure LinterSettings} {task : Task}
  {path : Path} {text : Text} {child : Child} {o : Outcome}

theorem loaded_of_settings {s : LinterSettings}
    (hs : (settings h loaded).result = .ok (some s)) : loaded = .ok s := by
  unfold settings at hs
  split at hs
  · cases hs
    rfl
  · obtain ⟨_, -, hs⟩ := Action.result_bind hs
    obtain ⟨_, -, hs⟩ := Action.result_bind hs
    cases hs
  · cases hs

theorem Comes.diagnosed {s : LinterSettings} (hc : Comes m s path child o) :
    Diagnosed m (.ok s) path o := by
  cases hc with
  | unlocated search => exact .unlocated rfl search
  | delivered search _ => exact .concluded rfl search (.report _ _)
  | undelivered search _ reason hknown =>
    rcases hknown with rfl | rfl
    · exact .failed reason
    · exact .concluded rfl search (.failed reason)
  | unsearched _ reason => exact .failed reason

/-- What the first part of a request that diagnoses comes to. -/
inductive Begun (m : Machine) (loaded : Except Failure LinterSettings) (path : Path) :
    Progress (LinterSettings × Runner.Talk) Outcome → Prop where
  | done {o : Outcome} (diagnosed : Diagnosed m loaded path o) : Begun m loaded path (.done o)
  | waits {s : LinterSettings} {t : Runner.Talk} (loads : loaded = .ok s)
    (search : located m s path = .ok (some t.config)) : Begun m loaded path (.waiting (s, t))

theorem begun_of_begin (diagnoses : task.isFix = false)
    {progress : Progress (LinterSettings × Runner.Talk) Outcome}
    (hb : (begin h m loaded task path text child).result = .ok progress) :
    Begun m loaded path progress := by
  obtain ⟨known, hknown, hrest⟩ := Action.result_bind hb
  cases known with
  | none =>
    cases hrest
    exact .done (.failed _)
  | some s =>
    obtain rfl := loaded_of_settings hknown
    have hasked : task = .willSave → s.fixOnSave = true := by
      rintro rfl
      cases diagnoses
    have hencodable : task.isFix = true → ∃ bytes, Utf8.encode text = .ok bytes := by
      intro hfix
      cases diagnoses.symm.trans hfix
    rcases opens_of_begin hasked hencodable hb with ⟨o, rfl, comes⟩ | ⟨t, rfl, hopens⟩
    · exact .done comes.diagnosed
    · cases hopens with
      | waits search => exact .waits rfl search

theorem diagnosed_of_proceed {s : LinterSettings} {t : Runner.Talk} {e : TalkEnd}
    (loads : loaded = .ok s) (search : located m s path = .ok (some t.config))
    (hp : (proceed h path t e).result = .ok o) : Diagnosed m loaded path o := by
  rcases Action.result_recover hp with hr | ⟨f, -, hu⟩
  · exact .concluded loads search (Runner.concluded_of_resume hr)
  · obtain ⟨reason, rfl⟩ := failed_of_unforeseen hu
    exact .failed reason

/-- A request hands an outcome back: at once, or when the talk with its child has ended somehow,
after whatever else has happened meanwhile. -/
inductive HandsBack (h : Handler) (m : Machine) (loaded : Except Failure LinterSettings)
    (task : Task) (path : Path) (text : Text) (child : Child) : Outcome → Prop where
  | atOnce {o : Outcome} (ends : (begin h m loaded task path text child).result = .ok (.done o)) :
    HandsBack h m loaded task path text child o
  | later {s : LinterSettings} {t : Runner.Talk} {e : TalkEnd} {o : Outcome}
    (waits : (begin h m loaded task path text child).result = .ok (.waiting (s, t)))
    (resumes : (proceed h path t e).result = .ok o) :
    HandsBack h m loaded task path text child o

theorem handsBack_of_run (hr : (run h m loaded task path text child).result = .ok o) :
    HandsBack h m loaded task path text child o := by
  obtain ⟨progress, hb, hr⟩ := Action.result_bind hr
  cases progress with
  | done o' =>
    cases hr
    exact .atOnce hb
  | waiting w =>
    obtain ⟨_, -, hr⟩ := Action.result_bind hr
    exact .later hb hr

theorem HandsBack.diagnosed (diagnoses : task.isFix = false)
    (hb : HandsBack h m loaded task path text child o) : Diagnosed m loaded path o := by
  cases hb with
  | atOnce ends =>
    cases begun_of_begin diagnoses ends with
    | done diagnosed => exact diagnosed
  | later waits resumes =>
    cases begun_of_begin diagnoses waits with
    | waits loads search => exact diagnosed_of_proceed loads search resumes

end Request

/-! ## What is handed on -/

/-- What a request answers whose diagnosis has come to an outcome: the same outcome, or, if it is
a refresh, that it is stale, or why it could not be published. -/
inductive Answers (task : Task) (o : Outcome) : Outcome → Prop where
  | same : Answers task o o
  | stale (refreshes : task = .refresh) : Answers task o (.stale o.config)
  | unpublished (refreshes : task = .refresh) (reason : Text) :
    Answers task o (.failed reason o.config)

section Answers

variable {task : Task} {o o' : Outcome}

theorem Answers.wellFormed (h : Answers task o o') (ho : o.WellFormed) : o'.WellFormed := by
  cases h with
  | same => exact ho
  | stale => exact Outcome.wellFormed_stale o.config
  | unpublished _ reason => exact Outcome.wellFormed_failed reason o.config

theorem Answers.refresh_of_stale (h : Answers task o o') (ho : o.status ≠ "stale")
    (stale : o'.status = "stale") : task = .refresh := by
  cases h with
  | same => exact absurd stale ho
  | stale refreshes | unpublished refreshes => exact refreshes

theorem Answers.eq_of_empty (h : Answers task o o') (empty : o'.status = "empty") : o' = o := by
  cases h with
  | same => rfl
  | stale => exact absurd empty (by decide : "stale" ≠ "empty")
  | unpublished => exact absurd empty (by decide : "failed" ≠ "empty")

end Answers

end Request

/-- A request that ends with an outcome diagnoses, and answers what has come of that. -/
theorem Session.EndsBy.answers {s : Session} {t : Ticket} {o o' : Outcome} {c : Completion}
    {es : List Effect} (h : s.EndsBy t o c es) (hc : c = .outcome o') :
    t.task.isFix = false ∧ Request.Answers t.task o o' := by
  have hrefresh (task : t.task = .refresh) : t.task.isFix = false := by rw [task]; rfl
  cases h with
  | diagnosed task =>
    cases hc
    exact ⟨by rw [task]; rfl, .same⟩
  | provided => cases hc
  | stale task =>
    cases hc
    exact ⟨hrefresh task, .stale task⟩
  | refreshed task =>
    cases hc
    exact ⟨hrefresh task, .same⟩
  | @unpublished f task _ _ _ x does =>
    subst does
    refine ⟨hrefresh task, ?_⟩
    unfold Action.completion at hc
    split at hc
    · next c hresult =>
      obtain ⟨_, -, hresult⟩ := Action.result_bind hresult
      obtain ⟨_, -, hresult⟩ := Action.result_bind hresult
      cases hresult
      cases hc
      exact .unpublished task _
    · cases hc
  | closed => cases hc
  | @amended d _ _ x does =>
    unfold OpenDocument.completion at hc
    split at hc <;> cases hc

/-! ## Turns -/

/-- A request that begins at a turn looks for its configuration, and this is what it finds. -/
def Turn.Seeks (m : Turn) (t : Ticket) (found : Option Path) : Prop :=
  ∃ d child s, m.Begins t d child ∧ m.before.loaded = .ok s ∧
    Request.located m.before.machine s d.path = .ok found

/-- A request has looked for its configuration at one of some turns. -/
def Sought (t : Ticket) (ms : List Turn) (found : Option Path) : Prop := ∃ m ∈ ms, m.Seeks t found

section Turns

variable {m : Turn} {ms : List Turn} {t : Ticket} {found found' : Option Path} {d d' : OpenDocument}
  {child child' : Child} {r : Option Completion} {es : List Effect} {o : Outcome}

theorem Turn.Begins.ticket?_eq (first : m.Begins t d child) : m.ticket? = some t := by
  unfold Turn.ticket?
  rw [first.what]
  show (m.before.document? t.document).map _ = some t
  rw [first.opened]
  exact congrArg some first.ticket

theorem Turn.Begins.document_eq (first : m.Begins t d child) (first' : m.Begins t d' child') :
    d = d' :=
  Option.some.inj (first.opened.symm.trans first'.opened)

theorem Turn.Seeks.unique (h : m.Seeks t found) (h' : m.Seeks t found') : found = found' := by
  obtain ⟨d, child, s, first, loads, search⟩ := h
  obtain ⟨d', child', s', first', loads', search'⟩ := h'
  obtain rfl := first.document_eq first'
  obtain rfl := Except.ok.inj (loads.symm.trans loads')
  exact Except.ok.inj (search.symm.trans search')

theorem sought_turnsOf : Sought t (turnsOf t ms) found ↔ Sought t ms found := by
  constructor
  · rintro ⟨m, hm, seeks⟩
    exact ⟨m, (List.mem_filter.mp hm).1, seeks⟩
  · rintro ⟨m, hm, seeks⟩
    obtain ⟨d, child, s, first, -⟩ := id seeks
    exact ⟨m, List.mem_filter.mpr ⟨hm, decide_eq_true first.ticket?_eq⟩, seeks⟩

theorem Did.begins_first (hdid : Did t (m :: ms) r es) :
    ∀ m' ∈ ms, ∀ d child, ¬m'.Begins t d child := by
  intro m' hm' d child first
  -- The turns after the first one kill the child, and end the request.
  have hkilled {p : Pending} {ks : List Turn} (meanwhile : KilledAt p ks) (hk : m' ∈ ks) : False := by
    cases meanwhile with
    | alive => cases hk
    | killed _ kills =>
      obtain rfl := List.mem_singleton.mp hk
      rcases kills.what with ⟨_, -, hwhat⟩ | ⟨_, -, hwhat, -⟩
      · cases first.what.symm.trans hwhat
      · cases first.what.symm.trans hwhat
  have hlast {k : Turn} {ks : List Turn} {p : Pending} (meanwhile : KilledAt p ks)
      (hlast : k.what ≠ m'.what) (hk : m' ∈ ks ++ [k]) : False := by
    rcases List.mem_append.mp hk with hk | hk
    · exact hkilled meanwhile hk
    · obtain rfl := List.mem_singleton.mp hk
      exact hlast rfl
  cases hdid with
  | failed | atOnce => cases hm'
  | waits _ _ meanwhile => exact hkilled meanwhile hm'
  | failedLater _ _ meanwhile what | later _ _ meanwhile what | reaped _ _ meanwhile what
  | givenUp _ _ meanwhile what =>
    refine hlast meanwhile ?_ hm'
    rw [what, first.what]
    nofun

theorem Did.seeks_first (hdid : Did t (m :: ms) r es) (h : Sought t (m :: ms) found) :
    m.Seeks t found := by
  obtain ⟨m', hm', seeks⟩ := h
  rcases List.mem_cons.mp hm' with rfl | hm'
  · exact seeks
  · obtain ⟨d, child, s, first, -⟩ := seeks
    exact absurd first (hdid.begins_first m' hm' d child)

theorem Did.sought_unique (hdid : Did t ms r es) (h : Sought t ms found)
    (h' : Sought t ms found') : found = found' := by
  cases ms with
  | nil =>
    obtain ⟨m, hm, -⟩ := h
    cases hm
  | cons m rest => exact (hdid.seeks_first h).unique (hdid.seeks_first h')

/-- Where a request to diagnose finds no configuration, its beginning is all of it, and has nothing
to do with any child. -/
theorem Turn.Seeks.opening (h : m.Seeks t none) (diagnoses : t.task.isFix = false)
    (first : m.Begins t d child) :
    (m.opening t d child).result = .ok (.done (.empty none)) ∧ (m.opening t d child).Still := by
  obtain ⟨d', child', s, first', loads, search⟩ := h
  obtain rfl := first.document_eq first'
  unfold Turn.opening
  rw [loads, Request.begin_unfound m.before.handler d.text child diagnoses search]
  exact ⟨rfl, Action.Still.forRequest (Action.still_log _) t.id⟩

/-- A request to diagnose that finds no configuration has nothing to do with any child. -/
theorem Did.still_of_seeks (hdid : Did t ms r es) (diagnoses : t.task.isFix = false)
    (h : Sought t ms none) : Effect.Still es := by
  have hopening {m : Turn} {rest : List Turn} {d : OpenDocument} {child : Child}
      (hms : ms = m :: rest) (first : m.Begins t d child) :
      (m.opening t d child).result = .ok (.done (.empty none)) ∧ (m.opening t d child).Still := by
    subst hms
    exact (hdid.seeks_first h).opening diagnoses first
  cases hdid with
  | nothing => exact Effect.still_nil
  | failed first => exact (hopening rfl first).2
  | atOnce first _ last => exact (hopening rfl first).2.append last.still
  | waits own first | failedLater own first | later own first | reaped own first
  | givenUp own first =>
    -- It has not waited for a child.
    subst own
    cases (hopening rfl first.toBegins).1.symm.trans first.waits

/-- A request that has ended with an outcome has diagnosed a document, from its beginning on. -/
theorem Did.diagnosed (hdid : Did t ms (some (.outcome o)) es) :
    t.task.isFix = false ∧ ∃ m ∈ ms, ∃ d child o', m.Begins t d child ∧
      Request.Diagnosed m.before.machine m.before.loaded d.path o' ∧
      Request.Answers t.task o' o := by
  generalize hr : some (Completion.outcome o) = r at hdid
  cases hdid with
  | nothing | waits | failed | failedLater | reaped | givenUp => cases hr
  | @atOnce m d child o' c es first comes last =>
    obtain ⟨diagnoses, answers⟩ := last.answers (Option.some.inj hr).symm
    refine ⟨diagnoses, m, List.mem_singleton_self m, d, child, o', first, ?_, answers⟩
    cases Request.begun_of_begin diagnoses comes with
    | done diagnosed => exact diagnosed
  | @later m m' ks p d child e o' c es own first meanwhile what leaves comes last =>
    subst own
    obtain ⟨diagnoses, answers⟩ := last.answers (Option.some.inj hr).symm
    refine ⟨diagnoses, m, List.mem_cons_self, d, child, o', first.toBegins, ?_, answers⟩
    cases Request.begun_of_begin diagnoses first.waits with
    | waits loads search =>
      have hpath : p.ticket.path = d.path := (congrArg Ticket.path first.ticket).symm
      rw [← hpath] at search ⊢
      rw [Turn.closing, Session.result_proceed] at comes
      exact Request.diagnosed_of_proceed loads search comes

end Turns

/-! ## Every outcome -/

namespace Session

section Timeline

variable {m₀ : Machine} {h : Handler} {source : SettingsSource}
  {documents : List (Text × OpenDocument)} {ms : List Turn} {s : Session} {t : Ticket} {o : Outcome}

/-- However the requests of a session interleave, one that has come to an outcome has diagnosed
its document, from its beginning on, and has answered what has come of that. -/
theorem diagnosed_timeline (ht : (initial m₀ h source documents).Timeline ms s)
    (ended : .ended t (.outcome o) ∈ s.stages) :
    Did t (turnsOf t ms) (some (.outcome o)) (effectsOf t ms) ∧ t.task.isFix = false ∧
      ∃ m ∈ ms, ∃ d child o', m.Begins t d child ∧
        Request.Diagnosed m.before.machine m.before.loaded d.path o' ∧
        Request.Answers t.task o' o := by
  obtain ⟨r, hdid, hends⟩ := did_timeline ht t
  obtain rfl := hends _ ended
  obtain ⟨diagnoses, m, hm, rest⟩ := hdid.diagnosed
  exact ⟨hdid, diagnoses, m, (List.mem_filter.mp hm).1, rest⟩

/-- A request that ends empty names what it has found when it looked for its configuration. -/
theorem sought_of_empty (ht : (initial m₀ h source documents).Timeline ms s)
    (ended : .ended t (.outcome o) ∈ s.stages) (empty : o.status = "empty") (found : Option Path) :
    Sought t ms found ↔ o.config = found := by
  obtain ⟨hdid, -, m, hm, d, child, o', first, diagnosed, answers⟩ := diagnosed_timeline ht ended
  obtain rfl := answers.eq_of_empty empty
  obtain ⟨settings, loads, search⟩ := diagnosed.located_of_empty empty
  have hsought : Sought t ms o.config := ⟨m, hm, d, child, settings, first, loads, search⟩
  constructor
  · intro hother
    exact hdid.sought_unique (sought_turnsOf.mpr hsought) (sought_turnsOf.mpr hother)
  · rintro rfl
    exact hsought

end Timeline

/-- Every outcome that is handed back is well-formed: that of a run, which names its
configuration; that of a request to diagnose, which if it is empty names what the search has
found; and that of every request of a session, however they interleave.  Only a refresh may be
stale.  Where the search finds nothing, no child is started or tried to be, and nothing is done to
any. -/
theorem outcomes_wellFormed (h : Handler) :
    (∀ settings config file mode text child o,
      ((Runner.run h settings config file mode text child).result = .ok o →
        Runner.HandsBack h settings config file mode text child o) ∧
      (Runner.HandsBack h settings config file mode text child o →
        o.WellFormed ∧ o.status ≠ "stale" ∧ o.config = some config)) ∧
    (∀ m loaded (task : Task) path text child, task.isFix = false →
      (∀ o, ((Request.run h m loaded task path text child).result = .ok o →
          Request.HandsBack h m loaded task path text child o) ∧
        (Request.HandsBack h m loaded task path text child o →
          o.WellFormed ∧ o.status ≠ "stale" ∧
          (o.status = "empty" → ∃ s, loaded = .ok s ∧ Request.located m s path = .ok o.config))) ∧
      ∀ s, loaded = .ok s → Request.located m s path = .ok none →
        let begun := Request.begin h m loaded task path text child
        begun.result = .ok (.done (.empty none)) ∧ Effect.processes begun.effects = [] ∧
          Effect.attempts begun.effects = []) ∧
    ∀ (m₀ : Machine) source documents ms s, (initial m₀ h source documents).Timeline ms s →
      ∀ t o, Stage.ended t (.outcome o) ∈ s.stages →
        o.WellFormed ∧ (o.status = "stale" → t.task = .refresh) ∧
        (o.status = "empty" → ∀ found, Sought t ms found ↔ o.config = found) ∧
        (Sought t ms none → Effect.processes (effectsOf t ms) = [] ∧
          Effect.attempts (effectsOf t ms) = []) := by
  refine ⟨?runs, ?requests, fun m₀ source documents ms s ht t o ended => ?sessions⟩
  case runs =>
    intro settings config file mode text child o
    refine ⟨Runner.handsBack_of_run, fun hb => ?_⟩
    have hconcluded := hb.concluded
    exact ⟨hconcluded.wellFormed, hconcluded.not_stale, hconcluded.config_eq⟩
  case requests =>
    intro m loaded task path text child diagnoses
    constructor
    · intro o
      refine ⟨Request.handsBack_of_run, fun hb => ?_⟩
      have hdiagnosed := hb.diagnosed diagnoses
      exact ⟨hdiagnosed.wellFormed, hdiagnosed.not_stale, hdiagnosed.located_of_empty⟩
    · rintro s rfl search begun
      have hbegun : begun = _ := Request.begin_unfound h text child diagnoses search
      rw [hbegun]
      exact ⟨rfl, rfl, rfl⟩
  case sessions =>
    obtain ⟨hdid, diagnoses, _, -, _, _, _, -, diagnosed, answers⟩ := diagnosed_timeline ht ended
    refine ⟨answers.wellFormed diagnosed.wellFormed, answers.refresh_of_stale diagnosed.not_stale,
      sought_of_empty ht ended, fun unfound => ?_⟩
    have hstill := hdid.still_of_seeks diagnoses (sought_turnsOf.mpr unfound)
    exact ⟨hstill.processes, hstill.attempts⟩

/-- Whether a request has ended with an outcome that is empty and names no configuration. -/
def endsUnlocated : Stage → Bool
  | .ended _ (.outcome o) => o.status == "empty" && o.config.isNone
  | _ => false

/-- A run whose child cannot be started, and a session in which a document is diagnosed that has no
configuration. -/
theorem outcomes_wellFormed_unlocated :
    let machine : Machine := ⟨.ofNodes [([], .directory)], ⟨.slash, []⟩, [], .alone "/root"⟩
    let file : Path := ⟨.slash, ["a"]⟩
    let documents : List (Text × OpenDocument) := [([], .buffer ⟨file, [], none, none, 0, 0⟩)]
    let child : Child := ⟨some (.system (.notFound [])), .output ⟨none, [], []⟩, .never, false, false⟩
    let s₀ := initial machine .none (.given (.ok .defaults)) documents
    let s := s₀.run [.request [] .diagnose [] child]
    (∃ o, (Runner.run .none .defaults ⟨.slash, ["c"]⟩ file .diagnose none child).result = .ok o ∧
      o.WellFormed ∧ o.status ≠ "stale") ∧
    (∃ o, (Request.run .none machine (.ok .defaults) .diagnose file [] child).result = .ok o ∧
      o.WellFormed ∧ o.status = "empty" ∧ Request.located machine .defaults file = .ok o.config) ∧
    ∃ ms t o, s₀.Timeline ms s ∧ Stage.ended t (.outcome o) ∈ s.stages ∧ o.WellFormed ∧
      o.config = none ∧ Sought t ms none ∧ Effect.processes (effectsOf t ms) = [] ∧
      Effect.attempts (effectsOf t ms) = [] := by
  intro machine file documents child s₀ s
  obtain ⟨hruns, hrequests, hsessions⟩ := outcomes_wellFormed .none
  have hrun : ∃ o, (Runner.run .none .defaults ⟨.slash, ["c"]⟩ file .diagnose none child).result =
      .ok o := ⟨_, rfl⟩
  have hunfound : Request.located machine .defaults file = .ok none :=
    ok_of_toOption (by decide +kernel)
  have hany : s.stages.any endsUnlocated = true := by decide +kernel
  refine ⟨?run, ?request, ?session⟩
  case run =>
    obtain ⟨o, ho⟩ := hrun
    obtain ⟨hback, hwell⟩ := hruns _ _ _ _ _ _ o
    obtain ⟨hwell, hstale, -⟩ := hwell (hback ho)
    exact ⟨o, ho, hwell, hstale⟩
  case request =>
    have hresult : (Request.run .none machine (.ok .defaults) .diagnose file [] child).result =
        .ok (.empty none) := by
      rw [Request.run_unfound .none [] child hunfound]
    obtain ⟨hback, hwell⟩ := (hrequests machine (.ok .defaults) .diagnose file [] child rfl).1 _
    obtain ⟨hwell, -, hempty⟩ := hwell (hback hresult)
    obtain ⟨settings, hsettings, hlocated⟩ := hempty rfl
    cases hsettings
    exact ⟨_, hresult, hwell, rfl, hlocated⟩
  case session =>
    obtain ⟨x, hx, hended⟩ := List.any_eq_true.mp hany
    obtain ⟨ms, ht, -⟩ := timeline_run s₀ [.request [] .diagnose [] child]
    cases x with
    | ended t c =>
      cases c with
      | outcome o =>
        obtain ⟨hstatus, hconfig⟩ := Bool.and_eq_true_iff.mp hended
        have hnone : o.config = none := Option.isNone_iff_eq_none.mp hconfig
        obtain ⟨hwell, -, hsought, hstill⟩ := hsessions machine _ documents ms s ht t o hx
        have hunfound : Sought t ms none := (hsought (eq_of_beq hstatus) none).mpr hnone
        exact ⟨ms, t, o, ht, hx, hwell, hnone, hunfound, hstill hunfound⟩
      | _ => cases hended
    | _ => cases hended

end Session

end EditorLint
