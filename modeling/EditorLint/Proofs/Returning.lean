import EditorLint.Proofs.Lifecycle
import EditorLint.Session.Timeline

/-!
# Requests return

Where the host takes every fault well, a request fails exactly where the loading of its
settings raises something besides the library's own faults, and then with that
(`failed_iff`).  Every other request that is not cancelled returns, at the latest when its
child runs out of time, and returns what was asked for (`requests_return`).

A request works in a context of its own, in which its identifier is put in force when it
begins and is put out of force when it returns, also when it fails (`launchIn_eq`,
`goOnIn_eq`, `cancelIn_eq`).
-/

namespace EditorLint

namespace Session

/-! ## Failures -/

/-- An event makes a request whose settings cannot be loaded for a reason that is no fault. -/
def BeginsUnloaded (s : Session) (e : Event) (t : Ticket) (f : Failure) : Prop :=
  ∃ name task document child d, e = .request name task document child ∧
    s.document? document = some d ∧ t = s.ticketFor name task document d.path ∧
    s.loaded = .error f ∧ f.isFault = false

def Unloaded (s : Session) (events : List Event) (t : Ticket) (f : Failure) : Prop :=
  ∃ earlier e later, events = earlier ++ e :: later ∧ (s.run earlier).BeginsUnloaded e t f

/-- A session in which no further request has failed. -/
structure Unfailing (base s : Session) : Prop where
  handler : s.handler = base.handler
  stages : ∃ k, s.stages = base.stages ++ k ∧ ∀ t f, Stage.ended t (.failed f) ∉ k

namespace Unfailing

variable {base s s' : Session} {k : List Stage}

theorem refl (s : Session) : s.Unfailing s := ⟨rfl, [], by simp, by simp⟩

theorem moves (hk : ∀ t f, Stage.ended t (.failed f) ∉ k) (hs : s.Moves s' k)
    (h : base.Unfailing s) : base.Unfailing s' where
  handler := hs.handler.trans h.handler
  stages := by
    obtain ⟨l, hl, hnone⟩ := h.stages
    refine ⟨l ++ k, by rw [hs.stages, hl, List.append_assoc], fun t f hmem => ?_⟩
    rcases List.mem_append.mp hmem with hmem | hmem
    · exact hnone t f hmem
    · exact hk t f hmem

theorem same (hstages : s'.stages = s.stages) (hhandler : s'.handler = s.handler)
    (h : base.Unfailing s) : base.Unfailing s' where
  handler := hhandler.trans h.handler
  stages := by
    rw [hstages]
    exact h.stages

theorem settled (hcalm : s.handler.Calm) : s.Unfailing s.settled := by
  have k : Settles fun _ s' => s.Unfailing s' := {
    perm := fun _ h => h
    aside := fun _ _ _ h => ⟨h.handler, h.stages⟩
    kill := fun {_ s' p} _ h => h.same (stages_note s' p.ticket.name _) rfl
    goOn := by
      intro _ s' p e h
      obtain ⟨k, hk, hs⟩ := s'.moves_goOn p e
      exact h.moves (fun t f hf => hcalm f (h.handler ▸ hk.failed hf)) hs
    giveUp := fun {_ s' p} h => h.moves (by simp) (s'.moves_giveUp p)
    saveNow := fun {_ s'} d h =>
      h.same (s'.saveNow_same d).1 (s'.saveNow_same d).2.1 }
  exact k.settled (refl s)

end Unfailing

/-- A request whose settings cannot be loaded for a reason that is no fault begins and fails. -/
theorem stages_launch_unloaded {s : Session} {f : Failure} (hloaded : s.loaded = .error f)
    (hf : f.isFault = false) (name : Text) (task : Task) (document : Text) (d : OpenDocument)
    (child : Child) :
    (s.launch name task document d child).stages =
      s.stages ++ [.began (s.ticketFor name task document d.path),
        .ended (s.ticketFor name task document d.path) (.failed f)] := by
  let t := s.ticketFor name task document d.path
  let x := (Request.begin s.handler s.machine s.loaded task d.path d.text child).forRequest t.id
  have hx : x.result = .error f := Request.begin_of_error hloaded hf
  show (((s.admitted t).note name x.effects).enter t child x.result).stages = _
  rw [hx]
  show (((s.admitted t).note name x.effects).close t (.failed f)).stages = _
  rw [stages_close, stages_note, stages_admitted, List.append_assoc]
  rfl

/-- A request fails at its beginning exactly where its settings cannot be loaded for a reason
that is no fault. -/
theorem failed_launch {s : Session} (hcalm : s.handler.Calm) (name : Text) (task : Task)
    (document : Text) (d : OpenDocument) (child : Child) (t : Ticket) (f : Failure) :
    .ended t (.failed f) ∈ (s.launch name task document d child).stages ↔
      .ended t (.failed f) ∈ s.stages ∨
        t = s.ticketFor name task document d.path ∧ s.loaded = .error f ∧ f.isFault = false := by
  let P : Failure → Prop := fun f => s.loaded = .error f ∧ f.isFault = false
  have hraises : ∀ f, s.handler.Raises f → P f := fun f hf => absurd hf (hcalm f)
  obtain ⟨-, -, ⟨k, hk, hstages, -⟩ | ⟨p, -, hstages, -⟩⟩ :=
    s.stages_launch name task document d child hraises fun f => And.intro
  · rw [hstages, List.mem_append, List.mem_cons]
    refine or_congr_right ⟨?_, ?_⟩
    · rintro (hbegan | hend)
      · cases hbegan
      · exact ⟨(hk.completion hend).1, hk.failed hend⟩
    · rintro ⟨rfl, hloaded, hf⟩
      have hboth := stages_launch_unloaded hloaded hf name task document d child
      rw [hstages] at hboth
      obtain ⟨-, rfl⟩ := List.cons.inj (List.append_cancel_left hboth)
      exact .inr (List.mem_singleton_self _)
  · rw [hstages, List.mem_append]
    refine or_congr_right ⟨by simp, ?_⟩
    rintro ⟨rfl, hloaded, hf⟩
    have hboth := stages_launch_unloaded hloaded hf name task document d child
    rw [hstages] at hboth
    simp at hboth

theorem failed_handle (s : Session) {e : Event}
    (he : ∀ name task document child, e ≠ .request name task document child) (t : Ticket)
    (f : Failure) :
    (s.handle e).handler = s.handler ∧
      (.ended t (.failed f) ∈ (s.handle e).stages ↔ .ended t (.failed f) ∈ s.stages) := by
  have host (ho : e.ofHost = true) : (s.handle e).handler = s.handler ∧
      (.ended t (.failed f) ∈ (s.handle e).stages ↔ .ended t (.failed f) ∈ s.stages) := by
    obtain ⟨hstages, hhandler, -⟩ := s.handle_same ho
    exact ⟨hhandler, by rw [hstages]⟩
  cases e with
  | request name task document child => exact absurd rfl (he name task document child)
  | answer | died | advance | saveLater => exact ⟨rfl, Iff.rfl⟩
  | cancel name =>
    simp only [Session.handle, Session.cancel]
    split
    · rename_i p _
      split
      · have hkill (s : Session) : (s.kill p .cancelled).stages = s.stages := stages_note _ _ _
        exact ⟨rfl, by rw [hkill]; rfl⟩
      · refine ⟨rfl, ?_⟩
        rw [stages_close, List.mem_append]
        exact or_iff_left (by simp)
    · exact ⟨rfl, Iff.rfl⟩
  | edit | replace | save | applyFix | settings | sink | issues | files => exact host rfl

/-- At an event a request fails exactly where it begins then and its settings cannot be loaded
for a reason that is no fault. -/
theorem failed_step {s : Session} (hcalm : s.handler.Calm) (e : Event) (t : Ticket) (f : Failure) :
    (s.step e).handler = s.handler ∧
      (.ended t (.failed f) ∈ (s.step e).stages ↔
        .ended t (.failed f) ∈ s.stages ∨ s.BeginsUnloaded e t f) := by
  -- What the event does by itself comes first, and what comes due by that fails no request.
  have hhandled : (s.handle e).handler = s.handler ∧
      (.ended t (.failed f) ∈ (s.handle e).stages ↔
        .ended t (.failed f) ∈ s.stages ∨ s.BeginsUnloaded e t f) := by
    by_cases he : ∃ name task document child, e = .request name task document child
    · obtain ⟨name, task, document, child, rfl⟩ := he
      simp only [Session.handle]
      cases hd : s.document? document with
      | none =>
        refine ⟨rfl, .inl, ?_⟩
        rintro (h | ⟨_, _, _, _, d, he, hd', -⟩)
        · exact h
        · cases he
          rw [hd] at hd'
          cases hd'
      | some d =>
        have hhandler := (s.stages_launch (P := fun _ => True) name task document d child
          (fun _ _ => trivial) fun _ _ _ => trivial).1
        refine ⟨hhandler, (failed_launch hcalm name task document d child t f).trans ?_⟩
        refine or_congr_right ⟨fun h => ⟨name, task, document, child, d, rfl, hd, h⟩, ?_⟩
        rintro ⟨_, _, _, _, d', he, hd', h⟩
        cases he
        rw [hd] at hd'
        cases hd'
        exact h
    · have hno : ∀ name task document child, e ≠ .request name task document child :=
        fun name task document child h => he ⟨name, task, document, child, h⟩
      obtain ⟨hhandler, hmem⟩ := s.failed_handle hno t f
      refine ⟨hhandler, hmem.trans ⟨.inl, ?_⟩⟩
      rintro (h | ⟨name, task, document, child, d, rfl, -⟩)
      · exact h
      · exact absurd rfl (hno name task document child)
  obtain ⟨hhandler, hmem⟩ := hhandled
  have hsettled := Unfailing.settled (s := s.handle e) (by rwa [hhandler])
  obtain ⟨k, hk, hnone⟩ := hsettled.stages
  refine ⟨hsettled.handler.trans hhandler, ?_⟩
  rw [← hmem]
  unfold step
  rw [hk, List.mem_append]
  exact or_iff_left (hnone t f)

theorem unloaded_cons (s : Session) (e : Event) (rest : List Event) (t : Ticket) (f : Failure) :
    s.Unloaded (e :: rest) t f ↔ s.BeginsUnloaded e t f ∨ (s.step e).Unloaded rest t f := by
  constructor
  · rintro ⟨earlier, e', later, hevents, h⟩
    cases earlier with
    | nil =>
      obtain ⟨rfl, rfl⟩ := List.cons.inj hevents
      exact .inl h
    | cons first earlier =>
      obtain ⟨rfl, rfl⟩ := List.cons.inj hevents
      exact .inr ⟨earlier, e', later, rfl, h⟩
  · rintro (h | ⟨earlier, e', later, rfl, h⟩)
    · exact ⟨[], e, rest, rfl, h⟩
    · exact ⟨e :: earlier, e', later, rfl, h⟩

/-- In a run a request fails exactly where the loading of its settings does, for a reason that
is no fault. -/
theorem failed_run {s : Session} (hcalm : s.handler.Calm) (events : List Event) (t : Ticket)
    (f : Failure) :
    .ended t (.failed f) ∈ (s.run events).stages ↔
      .ended t (.failed f) ∈ s.stages ∨ s.Unloaded events t f := by
  induction events generalizing s with
  | nil =>
    refine ⟨.inl, ?_⟩
    rintro (h | ⟨earlier, e, later, hevents, -⟩)
    · exact h
    · simp at hevents
  | cons e rest ih =>
    obtain ⟨hhandler, hmem⟩ := failed_step hcalm e t f
    have hrest := ih (s := s.step e) (by rwa [hhandler])
    rw [unloaded_cons, ← or_assoc, ← hmem]
    exact hrest

/-- What a request does when it begins in its context: its identifier stays in force exactly if
it waits. -/
theorem launchIn_match (s : Session) (bound : Option Text) (name : Text) (task : Task)
    (document : Text) (d : OpenDocument) (child : Child) :
    let t := s.ticketFor name task document d.path
    s.launchIn ⟨s.requests, bound⟩ name task document d child =
      match ((Request.begin s.handler s.machine s.loaded task d.path d.text child).forRequest
        t.id).result with
      | .ok (.waiting _) => (s.launch name task document d child, ⟨s.requests + 1, some t.id⟩)
      | .ok (.done _) | .error _ =>
        (s.launch name task document d child, ⟨s.requests + 1, none⟩) := rfl

/-- A request begins as in its context, where no identifier is in force once it has ended. -/
theorem launchIn_eq (s : Session) (bound : Option Text) (name : Text) (task : Task)
    (document : Text) (d : OpenDocument) (child : Child) :
    let r := s.launchIn ⟨s.requests, bound⟩ name task document d child
    r.1 = s.launch name task document d child ∧
      (r.2.bound = none ∨
        r.1.pending ≠ s.pending ∧ r.2.bound = some (s.ticketFor name task document d.path).id) := by
  let t := s.ticketFor name task document d.path
  let x := (Request.begin s.handler s.machine s.loaded task d.path d.text child).forRequest t.id
  dsimp only
  rw [launchIn_match]
  cases hx : x.result with
  | error f => exact ⟨rfl, .inl rfl⟩
  | ok progress =>
    cases progress with
    | done o => exact ⟨rfl, .inl rfl⟩
    | waiting w =>
      refine ⟨rfl, .inr ⟨?_, rfl⟩⟩
      show (((s.admitted t).note name x.effects).enter t child x.result).pending ≠ s.pending
      rw [hx]
      show s.pending ++ [_] ≠ s.pending
      simp

/-- A request goes on as in its context, where no identifier is in force afterwards. -/
theorem goOnIn_eq (s : Session) {c : Correlation} {p : Pending} (hc : c.bound = some p.ticket.id)
    (e : TalkEnd) : (s.goOnIn c p e).1 = s.goOn p e ∧ (s.goOnIn c p e).2.bound = none := by
  have hcarried {α : Type} (x : Action α) : c.carried x = x.forRequest p.ticket.id := by
    unfold Correlation.carried
    rw [hc]
  unfold goOnIn goOn proceed
  simp only [hcarried]
  generalize Action.forRequest p.ticket.id (do
    p.reap
    Request.proceed s.handler p.ticket.path p.talk e) = x
  obtain ⟨effects, result⟩ := x
  cases result with
  | error f => exact ⟨rfl, rfl⟩
  | ok o =>
    cases htask : p.ticket.task with
    | diagnose | provideIssues | refresh => exact ⟨rfl, rfl⟩
    | fix | willSave =>
      simp only [Task.isFix, if_true, finish, htask, amend]
      cases ((s.note p.ticket.name effects).mark (.found p.ticket o)).document?
        p.ticket.document <;> exact ⟨rfl, rfl⟩

/-- A request is given up as in its context, where no identifier is in force once it has ended. -/
theorem cancelIn_eq (s : Session) (c : Correlation) (name : Text) :
    (s.cancelIn c name).1 = s.cancel name ∧
      ∀ t, .ended t .cancelled ∈ (s.cancel name).stages →
        .ended t .cancelled ∈ s.stages ∨ (s.cancelIn c name).2.bound = none := by
  unfold cancelIn cancel
  cases s.pending.find? fun p => p.ticket.name == name with
  | none => exact ⟨rfl, fun t ht => .inl ht⟩
  | some p =>
    dsimp only
    split
    · refine ⟨rfl, fun t ht => .inl ?_⟩
      have hkill (s : Session) : (s.kill p .cancelled).stages = s.stages := stages_note _ _ _
      rwa [hkill] at ht
    · exact ⟨rfl, fun t _ => .inr rfl⟩

/-! ## Every run -/

/-- In every run, a request that has begun has ended, or waits: for a child that has not answered
and has time left, or for a killed one to be gone.  One that has ended has returned what was asked for,
was cancelled, or has failed, which happens exactly where the loading of its settings raises
something besides faults.  Its identifier is in force at most as long as it has not
returned. -/
theorem requests_return (m : Machine) {h : Handler} (hcalm : h.Calm) (source : SettingsSource)
    (documents : List (Text × OpenDocument)) (events : List Event) :
    let s₀ := initial m h source documents
    let s := s₀.run events
    (∀ t, .began t ∈ s.stages →
      (∃ c, .ended t c ∈ s.stages) ∨
        ∃ p ∈ s.pending, p.ticket = t ∧ p.over? s.clock = none) ∧
    (∀ t c, .ended t c ∈ s.stages →
      c.isProper t.task = true ∨ c = .cancelled ∨ ∃ f, c = .failed f ∧ s₀.Unloaded events t f) ∧
    (∀ t f, s₀.Unloaded events t f → .ended t (.failed f) ∈ s.stages) ∧
    (∀ (s : Session) (bound : Option Text) (name : Text) (task : Task) (document : Text)
      (d : OpenDocument) (child : Child),
      let r := s.launchIn ⟨s.requests, bound⟩ name task document d child
      r.1 = s.launch name task document d child ∧
        (r.2.bound = none ∨
          r.1.pending ≠ s.pending ∧ r.2.bound = some (s.ticketFor name task document d.path).id)) ∧
    (∀ (s : Session) (c : Correlation) (p : Pending) (e : TalkEnd), c.bound = some p.ticket.id →
      (s.goOnIn c p e).1 = s.goOn p e ∧ (s.goOnIn c p e).2.bound = none) ∧
    ∀ (s : Session) (c : Correlation) (name : Text),
      (s.cancelIn c name).1 = s.cancel name ∧
        ∀ t, .ended t .cancelled ∈ (s.cancel name).stages →
          .ended t .cancelled ∈ s.stages ∨ (s.cancelIn c name).2.bound = none := by
  intro s₀ s
  have v := living_run m h source documents events
  have hrests : s.Rests := rests_run (s := s₀) (by simp [Rests, s₀, initial]) events
  have hfailed (t : Ticket) (f : Failure) :
      .ended t (.failed f) ∈ s.stages ↔ s₀.Unloaded events t f := by
    have hnew : .ended t (.failed f) ∉ s₀.stages := by simp [s₀, initial, Session.stages]
    exact (failed_run (s := s₀) hcalm events t f).trans (or_iff_right hnew)
  refine ⟨?_, ?_, fun t f => (hfailed t f).mpr, launchIn_eq, fun s c p e hc => goOnIn_eq s hc e,
    cancelIn_eq⟩
  · intro t ht
    rcases v.accounted t ht with hw | hended
    · obtain ⟨p, hp, rfl⟩ := List.mem_map.mp hw
      exact .inr ⟨p, hp, rfl, hrests p hp⟩
    · exact .inl hended
  · intro t c hc
    have hcourse : .ended t c ∈ course t s.stages :=
      List.mem_filter.mpr ⟨hc, by simp [Stage.ticket]⟩
    rcases (v.lives t (v.known _ hc)).completion hcourse with hproper | hcancelled | ⟨f, rfl, -⟩
    · exact .inl hproper
    · exact .inr (.inl hcancelled)
    · exact .inr (.inr ⟨f, rfl, (hfailed t f).mp hc⟩)

/-- A host that is told of every fault: a request whose settings cannot be loaded is over at
once, and one whose child never answers waits. -/
theorem requests_return_told :
    let path : Path := ⟨.slash, ["a"]⟩
    let m : Machine := ⟨.ofNodes [([], .directory), (["eslint.config.js"], .file [] false)],
      ⟨.slash, []⟩, [], .alone "/root"⟩
    let documents : List (Text × OpenDocument) := [([], .buffer ⟨path, [], none, none, 0, 0⟩)]
    let child : Child := ⟨none, .output ⟨none, [], []⟩, .never, false, false⟩
    let events : List Event := [.request "f" .willSave [] child,
      .settings (.given (.ok .defaults)), .request "g" (.fix false) [] child]
    let s := (initial m .recording (.given (.error (.fault (.unexpected [] [])))) documents).run events
    Handler.recording.Calm ∧ (s.stages.length, s.pending.length) = (4, 1) ∧
      ∀ t, .began t ∈ s.stages →
        (∃ c, .ended t c ∈ s.stages) ∨
          ∃ p ∈ s.pending, p.ticket = t ∧ p.over? s.clock = none := by
  intro path m documents child events s
  have hcalm : Handler.recording.Calm := by
    rintro f ⟨callback, fault, hc, hf⟩
    cases hc
    cases hf
  exact ⟨hcalm, by decide +kernel, (requests_return m hcalm _ documents events).1⟩

/-- The settings of the workspace, where the global file holds a list: a fix ends with a
failure that nobody is told of. -/
theorem request_fails_unloaded :
    let m : Machine := ⟨.ofNodes [([], .directory), (["h"], .directory), (["h", ".config"], .directory),
      (["h", ".config", "nanolint"], .directory),
      (["h", ".config", "nanolint", "config.yaml"], .file [0x2d, 0x20, 0x61, 0x0a] false)],
      ⟨.slash, []⟩, [("HOME", "/h")], .alone "/root"⟩
    let documents : List (Text × OpenDocument) :=
      [([], .buffer ⟨⟨.slash, ["a"]⟩, [], none, none, 0, 0⟩)]
    let child : Child := ⟨none, .output ⟨none, [], []⟩, .never, false, false⟩
    let s := (initial m .none .workspace documents).run [.request [] (.fix false) [] child]
    Handler.none.Calm ∧ ∃ t f, .ended t (.failed f) ∈ s.stages ∧ f.isFault = false := by
  intro m documents child s
  have hany : s.stages.any (fun
      | .ended _ (.failed f) => !f.isFault
      | _ => false) = true := by decide +kernel
  obtain ⟨x, hx, hfailed⟩ := List.any_eq_true.mp hany
  refine ⟨Handler.calm_none, ?_⟩
  cases x with
  | ended t c =>
    cases c with
    | failed f => exact ⟨t, f, hx, by simpa using hfailed⟩
    | _ => cases hfailed
  | _ => cases hfailed

end Session

end EditorLint
