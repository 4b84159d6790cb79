import EditorLint.Proofs.Reaping
import EditorLint.Proofs.Verdicts

/-!
# What a run does to its child, in order

A child is spawned, given its input, killed and reaped: `Runner.course` is all that a run can do
to it, and what a run does is a beginning of that.  It is nothing where the child cannot be
started; the spawn alone where its text cannot be encoded; the spawn and the input where the wait
for the child is not cut short, or its status is set by then; and everything otherwise
(`children_course`).  So no run ends between the kill and the reap, unless it is interrupted there.

The same holds of every request of a session, however requests interleave and whichever of them
are cancelled.
-/

namespace EditorLint

open EditorLint.Action

namespace Runner

/-- All that a run can do to its child, in order.  Its standard input is a pipe if there is a
text to give. -/
def course (i : Invocation) : List ProcessEvent :=
  [.spawn i.command i.cwd i.input.isSome, .input i.input, .kill, .reap]

section Run

variable (h : Handler) (settings : LinterSettings) (config file : Path) (mode : RunMode)
  (text : Option Text) (child : Child)

theorem processes_start_refused {f : Failure} (hchild : child.refusal = some f) :
    Effect.processes (start h settings config file mode text child).effects = [] ∧
      ∀ t, (start h settings config file mode text child).result ≠ .ok (.waiting t) := by
  let i := Invocation.build settings config file mode text
  let t : Talk := ⟨i, config, settings.timeout⟩
  let spawned : Action (Option Outcome) := do
    spawn i child.refusal
    return none
  let guarded := Action.recover spawned fun f => do return some (← unreachable h t f)
  have hspawned : spawned = ⟨[.refused i.command i.cwd text.isSome], .error f⟩ := by
    show (spawn i child.refusal >>= fun _ => pure none) = _
    rw [hchild]
    rfl
  have hguarded : Effect.processes guarded.effects = [] := by
    refine (processes_recover fun e => ?_).trans (by rw [hspawned]; rfl)
    exact (still_unreachable h t e).bind fun _ => still_pure _
  have hsome (refused : Option Outcome) (hr : guarded.result = .ok refused) :
      ∃ outcome, refused = some outcome := by
    rcases Action.result_recover hr with hs | ⟨e, -, hs⟩
    · rw [hspawned] at hs
      cases hs
    · obtain ⟨outcome, -, hs⟩ := Action.result_bind hs
      exact ⟨outcome, (Except.ok.inj hs).symm⟩
  constructor
  · show Effect.processes (Action.bind guarded _).effects = _
    refine (processes_bind_of_result ?_).trans hguarded
    intro refused hr
    obtain ⟨outcome, rfl⟩ := hsome refused hr
    exact still_pure _
  · intro t' ht
    cases hchild.symm.trans (fed_of_start ht).1

theorem remains_refused {f : Failure} (hchild : child.refusal = some f) (exited : Bool)
    (w : WaitEnd) (interrupted : Bool) :
    (remains h settings config file mode text child exited w interrupted).events = [] := by
  obtain ⟨hstill, hends⟩ := processes_start_refused h settings config file mode text child hchild
  rw [remains_of_ended hends]
  exact hstill

/-- How much of its course a run does: nothing without a child, the spawn if the text cannot be
given to that, the input too if it can, and the rest if the wait is cut short then, but for the
reaping if that is interrupted. -/
theorem remains_cases (exited : Bool) (w : WaitEnd) (interrupted : Bool) :
    let i := Invocation.build settings config file mode text
    let events := (remains h settings config file mode text child exited w interrupted).events
    let fed := child.refusal = none ∧ ∃ bytes, Utf8.encode (text.getD []) = .ok bytes
    (child.refusal ≠ none ∧ events = []) ∨
      (child.refusal = none ∧ ¬fed) ∧ events = (course i).take 1 ∨
      (fed ∧ w.kills exited = false) ∧ events = (course i).take 2 ∨
      (fed ∧ w.kills exited = true) ∧
        events = if interrupted then (course i).take 3 else course i := by
  intro i events fed
  cases hrefusal : child.refusal with
  | some f =>
    exact .inl ⟨by simp,
      remains_refused h settings config file mode text child hrefusal exited w interrupted⟩
  | none =>
    right
    cases hencode : Utf8.encode (text.getD []) with
    | error f =>
      have hstart := start_unfed h settings config file mode text hrefusal hencode
      refine .inl ⟨⟨rfl, fun ⟨_, bytes, hbytes⟩ => (by cases hencode.symm.trans hbytes)⟩, ?_⟩
      show (remains h settings config file mode text child exited w interrupted).events = _
      rw [remains_of_ended (by rintro t ht; rw [hstart] at ht; cases ht), hstart]
      rfl
    | ok bytes =>
      have hstart : start h settings config file mode text child = _ := start_fed hrefusal hencode
      have hevents : events = (course i).take 2 ++ w.rites exited interrupted := by
        show (remains h settings config file mode text child exited w interrupted).events = _
        rw [remains_of_waiting (congrArg Action.result hstart), hstart]
        rfl
      have hfed : fed := ⟨hrefusal, bytes, hencode⟩
      right
      rw [hevents]
      unfold WaitEnd.rites
      cases hkills : w.kills exited with
      | false => exact .inl ⟨⟨hfed, rfl⟩, List.append_nil _⟩
      | true =>
        refine .inr ⟨⟨hfed, rfl⟩, ?_⟩
        cases interrupted <;> rfl

/-- What a run does to its child is a beginning of its course.  It kills the child exactly where
that is fed, its wait is cut short, and its status is not set, and it reaps exactly those that it
has killed, unless that is interrupted. -/
theorem remains_course (exited : Bool) (w : WaitEnd) (interrupted : Bool) :
    let i := Invocation.build settings config file mode text
    let events := (remains h settings config file mode text child exited w interrupted).events
    events <+: course i ∧
      (.kill ∈ events ↔ (child.refusal = none ∧
        ∃ bytes, Utf8.encode (text.getD []) = .ok bytes) ∧ w.kills exited = true) ∧
      (.kill ∈ events → interrupted = false → events = course i) := by
  intro i events
  have hone : .kill ∉ (course i).take 1 := by simp [course]
  have htwo : .kill ∉ (course i).take 2 := by simp [course]
  have hall : .kill ∈ (course i).take 3 ∧ .kill ∈ course i := by simp [course]
  rcases remains_cases h settings config file mode text child exited w interrupted with
    ⟨hnot, hevents⟩ | ⟨⟨-, hnot⟩, hevents⟩ | ⟨⟨hfed, hspares⟩, hevents⟩ | ⟨hboth, hevents⟩
  · rw [show events = _ from hevents]
    exact ⟨List.nil_prefix, iff_of_false (by simp) fun h => hnot h.1.1, by simp⟩
  · rw [show events = _ from hevents]
    exact ⟨List.take_prefix _ _, iff_of_false hone fun h => hnot h.1, fun hk => absurd hk hone⟩
  · rw [show events = _ from hevents]
    exact ⟨List.take_prefix _ _, iff_of_false htwo fun h => by simp [hspares] at h,
      fun hk => absurd hk htwo⟩
  · rw [show events = _ from hevents]
    cases interrupted with
    | false => exact ⟨List.prefix_refl _, iff_of_true hall.2 hboth, fun _ _ => rfl⟩
    | true =>
      exact ⟨List.take_prefix _ _, iff_of_true hall.1 hboth, fun _ h => by cases h⟩

/-- A child that can be started is given its text, if that can be encoded. -/
theorem remains_fed (hchild : child.refusal = none) {bytes : List UInt8}
    (hencode : Utf8.encode (text.getD []) = .ok bytes) (exited : Bool) (w : WaitEnd)
    (interrupted : Bool) :
    let i := Invocation.build settings config file mode text
    [.spawn i.command i.cwd text.isSome, .input text] <+:
      (remains h settings config file mode text child exited w interrupted).events := by
  intro i
  have hstart : start h settings config file mode text child = _ := start_fed hchild hencode
  rw [remains_of_waiting (congrArg Action.result hstart), hstart]
  exact ⟨_, rfl⟩

theorem processes_run : Effect.processes (run h settings config file mode text child).effects =
    (remains h settings config file mode text child child.exited
      (.talk (child.talk settings.timeout)) false).events := by
  let x := start h settings config file mode text child
  show Effect.processes (Action.bind x _).effects = _
  unfold Action.bind
  cases hx : x.result with
  | error f =>
    rw [remains_of_ended]
    rintro t ht
    cases hx.symm.trans ht
  | ok progress =>
    cases progress with
    | done o =>
      rw [remains_of_ended (by rintro t ht; cases hx.symm.trans ht)]
      exact (Effect.processes_append _ _).trans (List.append_nil _)
    | waiting t =>
      obtain ⟨hrefusal, bytes, hbytes⟩ := fed_of_start hx
      have ht : t.timeout = settings.timeout := by
        have hstart : start h settings config file mode text child = _ := start_fed hrefusal hbytes
        cases hx.symm.trans (congrArg Action.result hstart)
        rfl
      -- The child is put down if it has to be, and then the run goes on.
      let e := child.talk t.timeout
      have hlast : Effect.processes (putDown (.talk e) child.exited >>= fun _ =>
          resume h t e).effects = WaitEnd.rites child.exited false (.talk e) := by
        rw [processes_bind fun _ => WaitEnd.still_resume h t e]
        unfold putDown WaitEnd.rites
        cases WaitEnd.kills (.talk e) child.exited <;> rfl
      rw [remains_of_waiting hx, ← ht]
      exact (Effect.processes_append _ _).trans (congrArg _ hlast)

/-- A child that answers in time is not killed, unless it says that it has timed out itself. -/
theorem not_killed_of_inTime (htime : child.InTime settings.timeout)
    (hlasts : ∀ f, child.reply = .failure f → f.isTimeout = false) :
    .kill ∉ Effect.processes (run h settings config file mode text child).effects := by
  rw [processes_run]
  intro hkill
  obtain ⟨-, hkilled, -⟩ := remains_course h settings config file mode text child child.exited
    (.talk (child.talk settings.timeout)) false
  have hkills := (hkilled.mp hkill).2
  rw [Child.talk_of_inTime htime] at hkills
  cases hreply : child.reply with
  | output o => simp [hreply, WaitEnd.kills, WaitEnd.isCutShort] at hkills
  | failure f => simp [hreply, WaitEnd.kills, WaitEnd.isCutShort, hlasts f hreply] at hkills

end Run

end Runner

/-! ## Requests among others -/

def InCourse (events : List ProcessEvent) : Prop := ∃ i, events <+: Runner.course i

theorem inCourse_nil : InCourse [] :=
  ⟨.build .defaults ⟨.slash, []⟩ ⟨.slash, []⟩ .diagnose none, List.nil_prefix⟩

theorem inCourse_remains (h : Handler) (settings : LinterSettings) (config file : Path)
    (mode : RunMode) (text : Option Text) (child : Child) (exited : Bool) (w : WaitEnd)
    (interrupted : Bool) : InCourse
      (Runner.remains h settings config file mode text child exited w interrupted).events :=
  ⟨_, (Runner.remains_course h settings config file mode text child exited w interrupted).1⟩

/-- A request that waits has spawned its child and given it its input, and perhaps killed it. -/
theorem inCourse_waits {m : Turn} {p : Pending} {d : OpenDocument} {child : Child}
    (first : m.Starts p d child) : InCourse
      (Effect.processes (m.opening p.ticket d child).effects ++ Effect.processes p.killing) := by
  have hopening : Effect.processes (m.opening p.ticket d child).effects =
      Effect.processes (Request.begin m.before.handler m.before.machine m.before.loaded
        p.ticket.task d.path d.text child).effects :=
    Effect.processes_forRequest p.ticket.id _
  rw [hopening]
  rcases Request.processes_begin m.before.handler m.before.machine p.ticket.task d.path d.text child
    m.before.loaded with ⟨-, hnot⟩ | ⟨s, config, -, heffects, hwaits⟩
  · exact absurd first.waits (hnot _)
  · obtain ⟨-, hstart⟩ := (hwaits _).mp first.waits
    obtain ⟨hrefusal, bytes, hbytes⟩ := Runner.fed_of_start hstart
    let i := Invocation.build s config d.path p.ticket.task.mode
      (Request.input p.ticket.task d.text)
    have hevents : Effect.processes (Runner.start m.before.handler s config d.path
        p.ticket.task.mode (Request.input p.ticket.task d.text) child).effects =
          (Runner.course i).take 2 := by
      rw [Runner.start_fed hrefusal hbytes]
      rfl
    rw [heffects, hevents, processes_killing]
    refine ⟨i, ?_⟩
    split
    · exact List.take_prefix 3 (Runner.course i)
    · exact (List.append_nil _).symm ▸ List.take_prefix 2 _

/-- What a request has done to child processes so far is in the course of one run. -/
theorem Did.inCourse {h : Handler} {t : Ticket} {ms : List Turn} {r : Option Completion}
    {es : List Effect} (hdid : Did t ms r es) (hms : ∀ m ∈ ms, m.before.handler = h) :
    InCourse (Effect.processes es) := by
  cases r with
  | none =>
    cases hdid with
    | nothing => exact inCourse_nil
    | waits own first meanwhile =>
      subst own
      rw [Effect.processes_append]
      exact inCourse_waits first
  | some c =>
    have hdealings := hdid.dealings hms
    generalize Effect.processes es = events at hdealings ⊢
    cases hdealings with
    | none => exact inCourse_nil
    | atOnce => exact inCourse_remains _ _ _ _ _ _ _ _ _ _
    | waited => exact inCourse_remains _ _ _ _ _ _ _ _ _ _

namespace Session

/-- A request that is given up kills its child, and ends when that is gone; the host is told when
the child has been reaped. -/
theorem history_cancel {s : Session} {name : Text} {p : Pending}
    (hp : s.pending.find? (fun p => p.ticket.name == name) = some p) (alive : p.killed = none) :
    let killed := { p with killed := some .cancelled }
    if p.child.exited then
      (s.cancel name).history = s.history ++
        [.stage (.ended p.ticket .cancelled), .done p.ticket.name .cancelled]
    else
      (s.cancel name).history = s.history ++ [.effect p.ticket.name (.process .kill)] ∧
        killed ∈ (s.cancel name).pending ∧
        ∀ s' : Session, (s'.giveUp killed).history = s'.history ++
          [.effect p.ticket.name (.process .reap), .stage (.ended p.ticket .cancelled),
            .done p.ticket.name .cancelled] := by
  have hkills : WaitEnd.cancelled.kills p.child.exited = !p.child.exited := rfl
  intro killed
  unfold cancel
  rw [hp]
  dsimp only
  rw [alive, hkills]
  cases p.child.exited with
  | true => simp [close, complete, mark]
  | false =>
    refine ⟨rfl, by simp [kill, killed], fun s' => ?_⟩
    simp [giveUp, close, complete, mark, note, Pending.reap, killed, Action.emit]

/-- What a run does to its child is a beginning of its course: the child is spawned, given exactly
the text, killed and reaped.  If it cannot be started nothing is done; if it can, and the text can
be encoded, it is given the text.  It is killed exactly if its wait is cut short before its status
is set, and reaped before the run is over, unless the run is cancelled once more meanwhile.  So one
that answers in time is not killed, unless it says that it has timed out itself.

The same holds of every request of a session, which does what its one run does, and of one that
is given up before the host is told. -/
theorem children_course (h : Handler) :
    (∀ settings config file mode text child exited w interrupted,
      let i := Invocation.build settings config file mode text
      let events :=
        (Runner.remains h settings config file mode text child exited w interrupted).events
      let fed := child.refusal = none ∧ ∃ bytes, Utf8.encode (text.getD []) = .ok bytes
      events <+: [.spawn i.command i.cwd text.isSome, .input text, .kill, .reap] ∧
        (child.refusal ≠ none → events = []) ∧
        (fed → [.spawn i.command i.cwd text.isSome, .input text] <+: events) ∧
        (.kill ∈ events ↔ fed ∧ exited = false ∧ w.isCutShort = true) ∧
        (.kill ∈ events → interrupted = false → [.kill, .reap] <:+ events)) ∧
    (∀ settings config file mode text child,
      let events :=
        Effect.processes (Runner.run h settings config file mode text child).effects
      events = (Runner.remains h settings config file mode text child child.exited
          (.talk (child.talk settings.timeout)) false).events ∧
        (child.InTime settings.timeout →
          (∀ f, child.reply = .failure f → f.isTimeout = false) → .kill ∉ events)) ∧
    (∀ (s : Session) name p, s.pending.find? (fun p => p.ticket.name == name) = some p →
      p.killed = none →
      let killed := { p with killed := some .cancelled }
      if p.child.exited then
        (s.cancel name).history = s.history ++
          [.stage (.ended p.ticket .cancelled), .done p.ticket.name .cancelled]
      else
        (s.cancel name).history = s.history ++ [.effect p.ticket.name (.process .kill)] ∧
          killed ∈ (s.cancel name).pending ∧
          ∀ s' : Session, (s'.giveUp killed).history = s'.history ++
            [.effect p.ticket.name (.process .reap), .stage (.ended p.ticket .cancelled),
              .done p.ticket.name .cancelled]) ∧
    ∀ (m₀ : Machine) source documents ms s, (initial m₀ h source documents).Timeline ms s →
      ∀ t, InCourse (Effect.processes (effectsOf t ms)) ∧
        ∀ c, Stage.ended t c ∈ s.stages →
          Dealings h t (turnsOf t ms) (Effect.processes (effectsOf t ms)) := by
  refine ⟨?runs, fun settings config file mode text child => ?whole,
    fun s name p => history_cancel, ?requests⟩
  case runs =>
    intro settings config file mode text child exited w interrupted i events fed
    obtain ⟨hbegins, hkill, hall⟩ :=
      Runner.remains_course h settings config file mode text child exited w interrupted
    have hkills : w.kills exited = true ↔ exited = false ∧ w.isCutShort = true := by
      rw [WaitEnd.kills, Bool.and_eq_true, Bool.not_eq_true', and_comm]
    refine ⟨hbegins, fun hrefused => ?refused, fun hfed => ?fed,
      hkill.trans (and_congr_right fun _ => hkills), fun hk hcalm => ?killed⟩
    case refused =>
      obtain ⟨f, hf⟩ := Option.ne_none_iff_exists'.mp hrefused
      exact Runner.remains_refused h settings config file mode text child hf exited w interrupted
    case fed =>
      obtain ⟨hchild, bytes, hencode⟩ := hfed
      exact Runner.remains_fed h settings config file mode text child hchild hencode exited w
        interrupted
    case killed =>
      exact ⟨[.spawn i.command i.cwd text.isSome, .input text], (hall hk hcalm).symm⟩
  case whole =>
    exact ⟨Runner.processes_run h settings config file mode text child,
      Runner.not_killed_of_inTime h settings config file mode text child⟩
  case requests =>
    intro m₀ source documents ms s ht t
    obtain ⟨r, hdid, hends⟩ := did_timeline ht t
    have hhandlers : ∀ m ∈ turnsOf t ms, m.before.handler = h := by
      intro m hm
      obtain ⟨earlier, later, -, hbefore, -, -⟩ := ht.mem (List.mem_filter.mp hm).1
      exact (living_timeline hbefore).handler
    refine ⟨hdid.inCourse hhandlers, fun c hc => ?_⟩
    obtain rfl := hends c hc
    exact hdid.dealings hhandlers

end Session

end EditorLint
