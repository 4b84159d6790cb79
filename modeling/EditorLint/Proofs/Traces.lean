import EditorLint.Proofs.LiveText
import EditorLint.Proofs.Timeline

/-!
# What a request does at its turns

The history of a session holds the effects of its requests: what they log, what they do to
child processes, and what they tell the host.  `effectsOf` are those of one request, turn by
turn, whatever happens in between.

When a request begins it has the effects of `Request.begin`, and when it goes on those of
`Request.proceed`, before which it reaps its child if that was killed.  One that comes to an
outcome has those of its end besides, which `EndsBy` spells out (`closes_finish`).  `Did` puts
these together, and says of every request what it has done and how it has ended
(`did_timeline`).  What happens apart from requests only logs (`logs_happens`).
-/

namespace EditorLint

def Entry.effect? : Entry → Option Effect
  | effect _ e => some e
  | _ => none

def Action.completion (x : Action Completion) : Completion :=
  match x.result with
  | .ok c => c
  | .error f => .failed f

/-- How a fix ends with what has become of its document. -/
def OpenDocument.completion : Except Failure (Option OpenDocument) → Completion
  | .ok edited => .edited edited.isSome
  | .error f => .failed f

namespace Session

/-- The effects that have come about, in order. -/
def effects (s : Session) : List Effect := s.history.filterMap Entry.effect?

section Effects

variable (s : Session) (t : Ticket) (who : Text) (c : Completion) (x : Stage)

@[simp] theorem effects_note (es : List Effect) : (s.note who es).effects = s.effects ++ es := by
  have hall : (es.map (Entry.effect who)).filterMap Entry.effect? = es := by
    rw [List.filterMap_map]
    exact List.filterMap_some
  unfold effects note
  rw [List.filterMap_append, hall]

@[simp] theorem effects_mark : (s.mark x).effects = s.effects := by
  simp [effects, mark, Entry.effect?]

@[simp] theorem effects_complete : (s.complete who c).effects = s.effects := by
  simp [effects, complete, Entry.effect?]

@[simp] theorem effects_close : (s.close t c).effects = s.effects := by
  simp [close]

end Effects

/-- A session goes on with the stages `k` and the effects `es`. -/
structure Goes (s s' : Session) (k : List Stage) (es : List Effect) : Prop where
  stages : s'.stages = s.stages ++ k
  effects : s'.effects = s.effects ++ es

/-- A request ends, with the effects `es`. -/
def Closes (s s' : Session) (t : Ticket) (c : Completion) (es : List Effect) : Prop :=
  ∃ k, (∀ u c', Stage.ended u c' ∉ k) ∧ s.Goes s' (k ++ [.ended t c]) es

namespace Goes

variable {s s' s'' : Session} {k : List Stage} {es es' : List Effect} {t : Ticket} {c : Completion}

theorem refl (s : Session) : s.Goes s [] [] := ⟨(List.append_nil _).symm, (List.append_nil _).symm⟩

theorem note (h : s.Goes s' k es) (who : Text) (es' : List Effect) :
    s.Goes (s'.note who es') k (es ++ es') where
  stages := (stages_note s' who es').trans h.stages
  effects := by rw [effects_note, h.effects, List.append_assoc]

theorem mark (h : s.Goes s' k es) (x : Stage) : s.Goes (s'.mark x) (k ++ [x]) es where
  stages := by rw [stages_mark, h.stages, List.append_assoc]
  effects := (effects_mark s' x).trans h.effects

theorem of_history (h : s.Goes s' k es) (history : s''.history = s'.history) : s.Goes s'' k es where
  stages := (congrArg (List.filterMap Entry.stage?) history).trans h.stages
  effects := (congrArg (List.filterMap Entry.effect?) history).trans h.effects

theorem close (h : s.Goes s' k es) (hk : ∀ u c', Stage.ended u c' ∉ k) (t : Ticket)
    (c : Completion) : s.Closes (s'.close t c) t c es := by
  refine ⟨k, hk, ?_, (effects_close s' t c).trans h.effects⟩
  rw [stages_close, h.stages, List.append_assoc]

theorem closes (h : s.Goes s' k es) (hk : ∀ u c', Stage.ended u c' ∉ k)
    (h' : s'.Closes s'' t c es') : s.Closes s'' t c (es ++ es') := by
  obtain ⟨l, hl, hgoes⟩ := h'
  refine ⟨k ++ l, ?_, ?_, ?_⟩
  · intro u c' hmem
    exact (List.mem_append.mp hmem).elim (hk u c') (hl u c')
  · rw [hgoes.stages, h.stages]
    simp only [List.append_assoc]
  · rw [hgoes.effects, h.effects, List.append_assoc]

end Goes

theorem Closes.of_history {s s' s'' : Session} {t : Ticket} {c : Completion} {es : List Effect}
    (h : s.Closes s' t c es) (history : s''.history = s'.history) : s.Closes s'' t c es := by
  obtain ⟨k, hk, hgoes⟩ := h
  exact ⟨k, hk, hgoes.of_history history⟩

/-! ## The end of a request -/

/-- What a request does with an outcome, how it ends then, and with which effects. -/
inductive EndsBy (s : Session) (t : Ticket) (o : Outcome) : Completion → List Effect → Prop where
  | diagnosed (task : t.task = .diagnose) : EndsBy s t o (.outcome o) []
  | provided (task : t.task = .provideIssues) : EndsBy s t o (.issues o.diagnostics) []
  | stale (task : t.task = .refresh) (overtaken : s.sequencer.isCurrent t.path t.token = false) :
    EndsBy s t o (.outcome (.stale o.config)) (staleCompletion t o).effects
  | refreshed (task : t.task = .refresh) (current : s.sequencer.isCurrent t.path t.token = true)
    (sink : isPublished o = true → s.sinkFailure = none) : EndsBy s t o (.outcome o) []
  | unpublished {f : Failure} (task : t.task = .refresh)
    (current : s.sequencer.isCurrent t.path t.token = true) (published : isPublished o = true)
    (sink : s.sinkFailure = some f) {x : Action Completion}
    (does : x = unpublishedCompletion s.handler t o f) : EndsBy s t o x.completion x.effects
  | closed (task : t.task.isFix = true) (gone : s.document? t.document = none) :
    EndsBy s t o (.edited false) []
  | amended {d : OpenDocument} (task : t.task.isFix = true)
    (opened : s.document? t.document = some d) {x : Action (Option OpenDocument)}
    (does : x = (Fix.amend s.handler d o).forRequest t.id) :
    EndsBy s t o (OpenDocument.completion x.result) x.effects

theorem EndsBy.same {s s' : Session} {t : Ticket} {o : Outcome} {c : Completion} {es : List Effect}
    (h : s'.EndsBy t o c es) (sequencer : s'.sequencer = s.sequencer)
    (sinkFailure : s'.sinkFailure = s.sinkFailure) (documents : s'.documents = s.documents)
    (handler : s'.handler = s.handler) : s.EndsBy t o c es := by
  have hdoc : s'.document? t.document = s.document? t.document :=
    congrArg (List.lookup t.document) documents
  cases h with
  | diagnosed task => exact .diagnosed task
  | provided task => exact .provided task
  | stale task overtaken => exact .stale task (sequencer ▸ overtaken)
  | refreshed task current sink => exact .refreshed task (sequencer ▸ current) (sinkFailure ▸ sink)
  | unpublished task current published sink does =>
    exact .unpublished task (sequencer ▸ current) published (sinkFailure ▸ sink) (handler ▸ does)
  | closed task gone => exact .closed task (hdoc ▸ gone)
  | amended task opened does => exact .amended task (hdoc ▸ opened) (handler ▸ does)

theorem closes_publish (s : Session) {t : Ticket} (task : t.task = .refresh) (o : Outcome) :
    ∃ c es, s.EndsBy t o c es ∧ s.Closes (s.publish t o) t c es := by
  have concluded (s' : Session) (x : Action Completion) :
      s'.Closes (s'.conclude t x) t x.completion x.effects := by
    have hnoted := ((Goes.refl s').note t.name x.effects).close (by simp) t x.completion
    unfold conclude
    unfold Action.completion at hnoted ⊢
    cases hr : x.result <;> simpa only [hr, List.nil_append] using hnoted
  unfold publish
  split
  · rename_i current
    let s' := { s with sequencer := s.sequencer.finish t.path t.token }
    have hs : s.Goes s' [] [] := (Goes.refl s).of_history rfl
    show ∃ c es, s.EndsBy t o c es ∧ s.Closes (s'.publishCurrent t o) t c es
    unfold publishCurrent
    split
    · rename_i published sink
      have hset : s.Goes { s' with issues := s'.issues.set t.path o.diagnostics } [] [] :=
        hs.of_history rfl
      exact ⟨_, _, .refreshed task current fun _ => sink,
        (hset.mark (.published t o.diagnostics)).close (by simp) t _⟩
    · rename_i f published sink
      exact ⟨_, _, .unpublished task current published sink rfl,
        hs.closes (by simp) (concluded s' _)⟩
    · rename_i unpublished
      refine ⟨_, _, .refreshed task current fun published => ?_, hs.close (by simp) t _⟩
      rw [published] at unpublished
      cases unpublished
  · rename_i overtaken
    exact ⟨_, _, .stale task (Bool.eq_false_iff.mpr overtaken), concluded s _⟩

theorem closes_amend (s : Session) {t : Ticket} (task : t.task.isFix = true) (delay : Float)
    (o : Outcome) : ∃ c es, s.EndsBy t o c es ∧ s.Closes (s.amend t delay o) t c es := by
  unfold amend
  split
  · rename_i gone
    exact ⟨_, _, .closed task gone, (Goes.refl s).close (by simp) t _⟩
  · rename_i d opened
    let x := (Fix.amend s.handler d o).forRequest t.id
    have hclosed := ((Goes.refl s).note t.name x.effects).close (by simp) t
      (OpenDocument.completion x.result)
    -- Changing the document and planning a save is nothing that the history notes.
    have hhistory (s' : Session) (r : Except Failure (Option OpenDocument)) :
        (s'.closeFix t delay r).history = (s'.close t (OpenDocument.completion r)).history := by
      cases r with
      | error f => rfl
      | ok edited => cases edited <;> rfl
    exact ⟨_, _, .amended task opened rfl, hclosed.of_history (hhistory _ _)⟩

/-- A request whose run has come to an outcome ends. -/
theorem closes_finish (s : Session) (t : Ticket) (delay : Float) (o : Outcome) :
    ∃ c es, s.EndsBy t o c es ∧ s.Closes (s.finish t delay o) t c es := by
  let found := s.mark (.found t o)
  have hfound : s.Goes found [.found t o] [] := (Goes.refl s).mark (.found t o)
  have after {s' : Session} (h : ∃ c es, found.EndsBy t o c es ∧ found.Closes s' t c es) :
      ∃ c es, s.EndsBy t o c es ∧ s.Closes s' t c es := by
    obtain ⟨c, es, hend, hcloses⟩ := h
    exact ⟨c, es, hend.same rfl rfl rfl rfl, hfound.closes (by simp) hcloses⟩
  unfold finish
  cases task : t.task with
  | diagnose => exact ⟨_, _, .diagnosed task, hfound.close (by simp) t _⟩
  | provideIssues => exact ⟨_, _, .provided task, hfound.close (by simp) t _⟩
  | refresh => exact after (found.closes_publish task o)
  | fix | willSave => exact after (found.closes_amend (by rw [task]; rfl) delay o)

end Session

/-! ## Turns -/

def Turn.effects (m : Turn) : List Effect := m.after.effects.drop m.before.effects.length

/-- The effects of a request. -/
def effectsOf (t : Ticket) (ms : List Turn) : List Effect := (turnsOf t ms).flatMap Turn.effects

/-- What a request does when it begins at a turn. -/
def Turn.opening (m : Turn) (t : Ticket) (d : OpenDocument) (child : Child) :
    Action (Progress (LinterSettings × Runner.Talk) Outcome) :=
  (Request.begin m.before.handler m.before.machine m.before.loaded t.task d.path d.text
    child).forRequest t.id

/-- What a request that has waited does when it goes on at a turn. -/
def Turn.closing (m : Turn) (p : Pending) (e : TalkEnd) : Action Outcome := m.before.proceed p e

/-- The killing of a child that has been killed. -/
def Pending.killing (p : Pending) : List Effect :=
  if p.killed.isSome then [.process .kill] else []

/-- What a request has done at its turns, and how it has ended if it has. -/
inductive Did (t : Ticket) : List Turn → Option Completion → List Effect → Prop where
  | nothing : Did t [] none []
  | waits {m : Turn} {ks : List Turn} {p : Pending} {d : OpenDocument} {child : Child}
    (own : p.ticket = t) (first : m.Starts p d child) (meanwhile : KilledAt p ks) :
    Did t (m :: ks) none ((m.opening t d child).effects ++ p.killing)
  | failed {m : Turn} {d : OpenDocument} {child : Child} {f : Failure}
    (first : m.Begins t d child) (fails : (m.opening t d child).result = .error f) :
    Did t [m] (some (.failed f)) (m.opening t d child).effects
  | atOnce {m : Turn} {d : OpenDocument} {child : Child} {o : Outcome} {c : Completion}
    {es : List Effect} (first : m.Begins t d child)
    (comes : (m.opening t d child).result = .ok (.done o))
    (last : (m.before.admitted t).EndsBy t o c es) :
    Did t [m] (some c) ((m.opening t d child).effects ++ es)
  | failedLater {m m' : Turn} {ks : List Turn} {p : Pending} {d : OpenDocument} {child : Child}
    {e : TalkEnd} {f : Failure} (own : p.ticket = t) (first : m.Starts p d child)
    (meanwhile : KilledAt p ks) (what : m'.what = .goOn p e) (leaves : p.Leaves (.talk e))
    (fails : (m'.closing p e).result = .error f) : Did t (m :: ks ++ [m']) (some (.failed f))
      ((m.opening t d child).effects ++ (p.killing ++ (m'.closing p e).effects))
  | later {m m' : Turn} {ks : List Turn} {p : Pending} {d : OpenDocument} {child : Child}
    {e : TalkEnd} {o : Outcome} {c : Completion} {es : List Effect} (own : p.ticket = t)
    (first : m.Starts p d child) (meanwhile : KilledAt p ks) (what : m'.what = .goOn p e)
    (leaves : p.Leaves (.talk e)) (comes : (m'.closing p e).result = .ok o)
    (last : m'.before.EndsBy t o c es) : Did t (m :: ks ++ [m']) (some c)
      ((m.opening t d child).effects ++ (p.killing ++ ((m'.closing p e).effects ++ es)))
  | reaped {m m' : Turn} {ks : List Turn} {p : Pending} {d : OpenDocument} {child : Child}
    (own : p.ticket = t) (first : m.Starts p d child) (meanwhile : KilledAt p ks)
    (what : m'.what = .giveUp p) (killed : p.killed = some .cancelled) :
    Did t (m :: ks ++ [m']) (some .cancelled)
      ((m.opening t d child).effects ++ (p.killing ++ p.reap.effects))
  | givenUp {m m' : Turn} {ks : List Turn} {p : Pending} {d : OpenDocument} {child : Child}
    {name : Text} (own : p.ticket = t) (first : m.Starts p d child) (meanwhile : KilledAt p ks)
    (what : m'.what = .event (.cancel name))
    (found : m'.before.pending.find? (fun p => p.ticket.name == name) = some p)
    (spent : p.killed ≠ none ∨ WaitEnd.cancelled.kills p.child.exited = false) :
    Did t (m :: ks ++ [m']) (some .cancelled) ((m.opening t d child).effects ++ p.killing)

/-- Whether a turn ends a request in no other way than one. -/
def Turn.EndsOnly (m : Turn) (t : Ticket) (r : Option Completion) : Prop :=
  ∀ c, Stage.ended t c ∈ m.after.stages → Stage.ended t c ∈ m.before.stages ∨ r = some c

namespace Session

variable {m : Turn} {t : Ticket} {d : OpenDocument} {child : Child} {es : List Effect}

theorem Goes.turn {k : List Stage} (h : m.before.Goes m.after k es) : m.effects = es := by
  unfold Turn.effects
  rw [h.effects, List.drop_left]

theorem Closes.turn {c : Completion} (h : m.before.Closes m.after t c es) :
    m.effects = es ∧ m.EndsOnly t (some c) := by
  obtain ⟨k, hk, hgoes⟩ := h
  refine ⟨hgoes.turn, fun c' hc' => ?_⟩
  rw [hgoes.stages] at hc'
  rcases List.mem_append.mp hc' with hc' | hc'
  · exact .inl hc'
  · rcases List.mem_append.mp hc' with hc' | hc'
    · exact absurd hc' (hk t c')
    · cases List.mem_singleton.mp hc'
      exact .inr rfl

theorem goes_of_begins (first : m.Begins t d child) :
    let begun := (m.before.admitted t).note t.name (m.opening t d child).effects
    m.before.Goes begun [.began t] (m.opening t d child).effects ∧
      m.after = begun.enter t child (m.opening t d child).result := by
  intro begun
  have hadmitted : m.before.Goes (m.before.admitted t) [.began t] [] := by
    have hsame : m.before.Goes { m.before with
        sequencer := (m.before.tokenFor t.task t.path).2
        requests := m.before.requests + 1 } [] [] := (Goes.refl m.before).of_history rfl
    exact hsame.mark (.began t)
  refine ⟨hadmitted.note t.name _, ?_⟩
  rw [first.after]
  unfold launch
  rw [first.ticket]
  rfl

theorem waits_of_starts {p : Pending} (first : m.Starts p d child) :
    m.effects = (m.opening p.ticket d child).effects ∧ m.EndsOnly p.ticket none := by
  obtain ⟨hgoes, hafter⟩ := goes_of_begins first.toBegins
  have hwaits : (m.opening p.ticket d child).result = .ok (.waiting (p.settings, p.talk)) :=
    first.waits
  rw [hwaits] at hafter
  have hsame : m.before.Goes m.after [.began p.ticket] _ :=
    hgoes.of_history (by rw [hafter]; rfl)
  refine ⟨hsame.turn, fun c hc => .inl ?_⟩
  rw [hsame.stages] at hc
  simpa using hc

theorem did_of_begins (first : m.Begins t d child) :
    ∃ r, Did t [m] r m.effects ∧ m.EndsOnly t r := by
  obtain ⟨hgoes, hafter⟩ := goes_of_begins first
  cases hx : (m.opening t d child).result with
  | error f =>
    rw [hx] at hafter
    have hcloses := hgoes.close (by simp) t (.failed f)
    rw [show Session.close _ t (.failed f) = m.after from hafter.symm] at hcloses
    obtain ⟨heffects, hends⟩ := hcloses.turn
    rw [heffects]
    exact ⟨_, .failed first hx, hends⟩
  | ok progress =>
    rw [hx] at hafter
    cases progress with
    | done o =>
      obtain ⟨c, es, hend, hcloses⟩ :=
        closes_finish ((m.before.admitted t).note t.name (m.opening t d child).effects) t 0 o
      have hall := hgoes.closes (by simp) hcloses
      rw [show Session.finish _ t 0 o = m.after from hafter.symm] at hall
      obtain ⟨heffects, hends⟩ := hall.turn
      rw [heffects]
      exact ⟨_, .atOnce first hx (hend.same rfl rfl rfl rfl), hends⟩
    | waiting w =>
      let p : Pending :=
        ⟨t, w.1, w.2, child, m.before.clock + w.2.timeout, m.before.answerDue child, none⟩
      have hstarts : m.Starts p d child := ⟨first, hx⟩
      obtain ⟨heffects, hends⟩ := waits_of_starts hstarts
      have hdid := Did.waits (p := p) rfl hstarts (.alive rfl)
      rw [show p.killing = [] from rfl, List.append_nil] at hdid
      rw [heffects]
      exact ⟨_, hdid, hends⟩

theorem kills_of_kills {p : Pending} {w : WaitEnd} (kills : m.Kills p w) :
    m.effects = [.process .kill] ∧ m.EndsOnly p.ticket none := by
  obtain ⟨ps, hafter⟩ := kills.after
  have hgoes : m.before.Goes m.after [] [.process .kill] :=
    ((Goes.refl m.before).note p.ticket.name _).of_history (by rw [hafter])
  refine ⟨hgoes.turn, fun c hc => .inl ?_⟩
  rw [hgoes.stages] at hc
  simpa using hc

theorem effects_killedAt {p : Pending} {ks : List Turn} (h : KilledAt p ks) :
    ks.flatMap Turn.effects = p.killing ∧ ∀ k ∈ ks, k.EndsOnly p.ticket none := by
  cases h with
  | alive alive => simp [Pending.killing, alive]
  | killed same kills killed =>
    obtain ⟨heffects, hends⟩ := kills_of_kills kills
    rw [← same.ticket] at hends
    exact ⟨by simp [Pending.killing, killed, heffects], by simpa using hends⟩

/-- A request that has waited ends when it goes on, or is given up. -/
theorem did_of_ends {m m' : Turn} {ks : List Turn} {p : Pending} (first : m.Starts p d child)
    (meanwhile : KilledAt p ks) (last : m'.Ends p) :
    ∃ r, Did p.ticket (m :: ks ++ [m']) r
        ((m.opening p.ticket d child).effects ++ (p.killing ++ m'.effects)) ∧
      m'.EndsOnly p.ticket r := by
  cases last with
  | givenUp name what found spent after =>
    obtain ⟨ps, hafter⟩ := after
    have hclosed := (Goes.refl m'.before).close (by simp) p.ticket .cancelled
    have hcloses : m'.before.Closes m'.after p.ticket .cancelled _ :=
      hclosed.of_history (by rw [hafter])
    obtain ⟨heffects, hends⟩ := hcloses.turn
    rw [heffects, List.append_nil]
    exact ⟨_, .givenUp rfl first meanwhile what found spent, hends⟩
  | reaped what killed after =>
    obtain ⟨ps, hafter⟩ := after
    have hclosed := ((Goes.refl m'.before).note p.ticket.name p.reap.effects).close (by simp)
      p.ticket .cancelled
    have hcloses : m'.before.Closes m'.after p.ticket .cancelled _ :=
      hclosed.of_history (by rw [hafter]; rfl)
    obtain ⟨heffects, hends⟩ := hcloses.turn
    rw [heffects]
    exact ⟨_, .reaped rfl first meanwhile what killed, hends⟩
  | goesOn e what leaves after =>
    obtain ⟨ps, hafter⟩ := after
    -- Its effects are noted first, and then it fails or comes to its outcome.
    let noted := m'.before.note p.ticket.name (m'.closing p e).effects
    have hnoted : m'.before.Goes noted [] (m'.closing p e).effects :=
      (Goes.refl m'.before).note p.ticket.name _
    cases hx : (m'.closing p e).result with
    | error f =>
      have hgo : m'.before.goOn p e = noted.close p.ticket (.failed f) := by
        unfold Turn.closing at hx
        simp only [goOn, hx]
        rfl
      have hcloses : m'.before.Closes m'.after p.ticket (.failed f) _ :=
        (hnoted.close (by simp) p.ticket (.failed f)).of_history (by rw [hafter, ← hgo])
      obtain ⟨heffects, hends⟩ := hcloses.turn
      rw [heffects]
      exact ⟨_, .failedLater rfl first meanwhile what leaves hx, hends⟩
    | ok o =>
      have hgo : m'.before.goOn p e = noted.finish p.ticket p.settings.saveDelay o := by
        unfold Turn.closing at hx
        simp only [goOn, hx]
        rfl
      obtain ⟨c, es, hend, hfinish⟩ := closes_finish noted p.ticket p.settings.saveDelay o
      have hcloses : m'.before.Closes m'.after p.ticket c _ :=
        (hnoted.closes (by simp) hfinish).of_history (by rw [hafter, ← hgo])
      obtain ⟨heffects, hends⟩ := hcloses.turn
      rw [heffects]
      exact ⟨_, .later rfl first meanwhile what leaves hx (hend.same rfl rfl rfl rfl), hends⟩

/-- However a session goes on from its beginning: what each request has done, and how it has
ended if it has. -/
theorem did_timeline {m₀ : Machine} {h : Handler} {source : SettingsSource}
    {documents : List (Text × OpenDocument)} {ms : List Turn} {s : Session}
    (ht : (initial m₀ h source documents).Timeline ms s) (t : Ticket) :
    ∃ r, Did t (turnsOf t ms) r (effectsOf t ms) ∧
      ∀ c, Stage.ended t c ∈ s.stages → r = some c := by
  -- A request that has ended has done so at one of its turns.
  have hturn (c : Completion) (hc : Stage.ended t c ∈ s.stages) : ∃ m ∈ turnsOf t ms,
      Stage.ended t c ∈ m.after.stages ∧ Stage.ended t c ∉ m.before.stages := by
    rcases ht.turn_of_stage hc with hold | ⟨m, hm, hown, hnew⟩
    · cases hold
    · exact ⟨m, List.mem_filter.mpr ⟨hm, decide_eq_true hown⟩, hnew⟩
  have hturns := (accounted_timeline ht).turns t
  unfold effectsOf
  generalize turnsOf t ms = turns at hturn hturns
  cases hturns with
  | none =>
    refine ⟨none, .nothing, fun c hc => ?_⟩
    obtain ⟨m, hm, -⟩ := hturn c hc
    cases hm
  | @begins m d child first =>
    obtain ⟨r, hdid, hends⟩ := did_of_begins first
    refine ⟨r, by simpa using hdid, fun c hc => ?_⟩
    obtain ⟨m', hm', hafter, hbefore⟩ := hturn c hc
    obtain rfl := List.mem_singleton.mp hm'
    exact (hends c hafter).resolve_left hbefore
  | @killed m k p w d child own first kills =>
    subst own
    obtain ⟨heffects, hwaits⟩ := waits_of_starts first
    obtain ⟨hkill, hends⟩ := kills_of_kills kills
    let q : Pending := { p with killed := some w }
    have hdid : Did p.ticket [m, k] none _ :=
      .waits (p := q) rfl (first.same ⟨rfl, rfl, rfl⟩) (.killed (q := p) ⟨rfl, rfl, rfl⟩ kills rfl)
    refine ⟨none, by simpa [heffects, hkill, Pending.killing, q] using hdid, fun c hc => ?_⟩
    obtain ⟨m', hm', hafter, hbefore⟩ := hturn c hc
    rcases List.mem_cons.mp hm' with rfl | hm'
    · exact (hwaits c hafter).resolve_left hbefore
    · obtain rfl := List.mem_singleton.mp hm'
      exact (hends c hafter).resolve_left hbefore
  | @ends m m' ks p d child own first meanwhile last =>
    subst own
    obtain ⟨heffects, hwaits⟩ := waits_of_starts first
    obtain ⟨hkilling, hkills⟩ := effects_killedAt meanwhile
    obtain ⟨r, hdid, hends⟩ := did_of_ends first meanwhile last
    refine ⟨r, by simpa [heffects, hkilling] using hdid, fun c hc => ?_⟩
    obtain ⟨m'', hm'', hafter, hbefore⟩ := hturn c hc
    rcases List.mem_append.mp hm'' with hm'' | hm''
    · rcases List.mem_cons.mp hm'' with rfl | hm''
      · cases (hwaits c hafter).resolve_left hbefore
      · cases (hkills m'' hm'' c hafter).resolve_left hbefore
    · obtain rfl := List.mem_singleton.mp hm''
      exact (hends c hafter).resolve_left hbefore

/-! ## What happens apart from requests -/

/-- A turn of no request only logs. -/
theorem logs_happens {s s' : Session} {a : Happening} (h : s.Happens a s')
    (hnone : Turn.ticket? ⟨s, a, s'⟩ = none) : ∀ e ∈ Turn.effects ⟨s, a, s'⟩, ∃ r, e = .log r := by
  -- New effects are those behind the effects that were there.
  have logs {s' : Session} {a : Happening} {es : List Effect} (h : s'.effects = s.effects ++ es)
      (hes : ∀ e ∈ es, ∃ r, e = .log r) : ∀ e ∈ Turn.effects ⟨s, a, s'⟩, ∃ r, e = .log r := by
    unfold Turn.effects
    rw [h, List.drop_left]
    exact hes
  have silent {s' : Session} {a : Happening} (h : s'.effects = s.effects) :
      ∀ e ∈ Turn.effects ⟨s, a, s'⟩, ∃ r, e = .log r :=
    logs (h.trans (List.append_nil _).symm) (by simp)
  cases h with
  | @save d front rest =>
    unfold saveNow
    split
    · exact silent rfl
    · dsimp only
      split
      · exact logs (effects_note _ _ _) (by simp)
      · exact logs (effects_note _ _ _) (by simp)
      · exact silent rfl
  | kill | goOn | giveUp => cases hnone
  | event e =>
    cases e with
    | request name task document child =>
      have hclosed : s.document? document = none := by simpa [Turn.ticket?] using hnone
      refine silent ?_
      simp only [Session.handle, hclosed]
    | cancel name =>
      have hgone : (s.pending.find? fun p => p.ticket.name == name) = none := by
        simpa only [Turn.ticket?, Option.map_eq_none_iff] using hnone
      refine silent ?_
      simp only [Session.handle, cancel, hgone]
      rfl
    | answer | died | advance | saveLater | settings | sink | files => exact silent rfl
    | edit | replace | save | applyFix | issues =>
      simp only [Session.handle]
      repeat' split
      all_goals first
        | exact silent rfl
        | exact silent (effects_complete _ _ _)
        | exact logs ((effects_complete _ _ _).trans (effects_note _ _ _)) (by simp)

end Session

end EditorLint
