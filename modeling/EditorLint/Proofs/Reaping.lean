import EditorLint.Proofs.FixCourse
import EditorLint.Proofs.Traces

/-!
# What becomes of children

A run that has started a child is over when the talk with it has ended, or when the run is
cancelled.  The child should not be left behind then: its status should be set, or it should
have been killed and reaped.

**Per run.**  `Runner.remains` follows a child from its start to the end of the run, and
`orphan_iff` says on which paths it is left behind: its text cannot be encoded, so that the run
is over before the talk; the talk fails with anything but a time limit; or the child has been
killed, and the run is cancelled while it waits for that to be gone.  (A child that answers
without a status would be left behind, too.)  On the other paths it is not: a child that runs
out of time, or whose run is cancelled, is killed and reaped unless its status is set.

**Across runs.**  A request starts at most one child, and all that is done to child processes
at its turns is what its run does, whatever other requests do meanwhile (`Did.dealings`).
-/

namespace EditorLint

/-! ## Actions that leave child processes alone -/

namespace Effect

/-- Whether an effect concerns a child: something is done to it, or it cannot be started. -/
def concernsChild : Effect → Bool
  | process _ | refused .. => true
  | log _ | report _ => false

def Still (es : List Effect) : Prop := ∀ e ∈ es, e.concernsChild = false

variable {es es' : List Effect}

theorem still_nil : Still [] := List.forall_mem_nil _

theorem Still.append (h : Still es) (h' : Still es') : Still (es ++ es') :=
  List.forall_mem_append.mpr ⟨h, h'⟩

theorem Still.processes (h : Still es) : processes es = [] := by
  refine List.filterMap_eq_nil_iff.mpr fun e he => ?_
  have hnone := h e he
  cases e with
  | log | report => rfl
  | process | refused => cases hnone

theorem Still.attempts (h : Still es) : attempts es = [] := by
  refine List.filterMap_eq_nil_iff.mpr fun e he => ?_
  have hnone := h e he
  cases e with
  | log | report => rfl
  | process | refused => cases hnone

end Effect

namespace Action

variable {α β : Type}

/-- An action that has nothing to do with a child. -/
def Still (x : Action α) : Prop := Effect.Still x.effects

/-- Only the first part of an action does something to a child process, whatever it gives. -/
theorem processes_bind_of_result {x : Action α} {f : α → Action β}
    (hf : ∀ a, x.result = .ok a → (f a).Still) :
    Effect.processes (x >>= f).effects = Effect.processes x.effects := by
  show Effect.processes (bind x f).effects = _
  unfold bind
  split
  · rename_i a ha
    rw [Effect.processes_append, (hf a ha).processes]
    exact List.append_nil _
  · rfl

theorem processes_bind {x : Action α} {f : α → Action β} (hf : ∀ a, (f a).Still) :
    Effect.processes (x >>= f).effects = Effect.processes x.effects :=
  processes_bind_of_result fun a _ => hf a

theorem processes_recover {x : Action α} {f : Failure → Action α} (hf : ∀ e, (f e).Still) :
    Effect.processes (x.recover f).effects = Effect.processes x.effects := by
  unfold recover
  split
  · rfl
  · rename_i e _
    rw [Effect.processes_append, (hf e).processes]
    exact List.append_nil _

theorem Still.bind_of_result {x : Action α} {f : α → Action β} (hx : x.Still)
    (hf : ∀ a, x.result = .ok a → (f a).Still) : (x >>= f).Still := by
  show Effect.Still (Action.bind x f).effects
  unfold Action.bind
  split
  · rename_i a ha
    exact hx.append (hf a ha)
  · exact hx

theorem Still.bind {x : Action α} {f : α → Action β} (hx : x.Still) (hf : ∀ a, (f a).Still) :
    (x >>= f).Still :=
  hx.bind_of_result fun a _ => hf a

theorem Still.recover {x : Action α} {f : Failure → Action α} (hx : x.Still)
    (hf : ∀ e, (f e).Still) : (x.recover f).Still := by
  unfold Action.recover
  split
  · exact hx
  · rename_i e _
    exact hx.append (hf e)

theorem Still.forRequest {x : Action α} (hx : x.Still) (id : Text) : (x.forRequest id).Still := by
  refine List.forall_mem_map.mpr fun e he => ?_
  have h := hx e he
  cases e <;> exact h

theorem still_pure (a : α) : (pure a : Action α).Still := Effect.still_nil

theorem still_fail (e : Failure) : (fail e : Action α).Still := Effect.still_nil

theorem still_log (r : Log.Record) : (log r).Still := List.forall_mem_singleton.mpr rfl

theorem still_ofLogged (x : Logged α) : (ofLogged x).Still :=
  List.forall_mem_map.mpr fun _ _ => rfl

end Action

open EditorLint.Action

theorem Handler.still_call (callback : Fault → Option Failure) (f : Fault) :
    (call callback f).Still := by
  refine Still.bind (List.forall_mem_singleton.mpr rfl) fun _ => ?_
  split
  · exact still_pure ()
  · exact still_fail _

theorem Handler.still_report (h : Handler) (f : Fault) : (h.report f).Still := by
  unfold report
  split
  · exact still_pure ()
  · exact still_call _ f

namespace Runner

theorem still_failed (h : Handler) (config : Path) (f : Fault) : (failed h config f).Still := by
  refine Still.bind ?_ fun _ => still_pure _
  unfold tell
  split
  · exact still_log _
  · exact Handler.still_call _ f

theorem still_unreachable (h : Handler) (t : Talk) (f : Failure) : (unreachable h t f).Still := by
  unfold unreachable
  repeat' split
  · exact still_failed h _ _
  · exact still_failed h _ _
  · exact still_fail f

theorem still_conclude (h : Handler) (t : Talk) (o : ProcessOutput) : (conclude h t o).Still := by
  refine Still.bind (still_log _) fun _ => ?_
  dsimp only
  split
  · exact still_failed h _ _
  · refine Still.bind (still_ofLogged _) fun report => ?_
    cases report with
    | unreadable reason => exact still_failed h _ _
    | readable diagnostics fix => exact still_pure _

/-! ## One run -/

section Start

variable (h : Handler) (settings : LinterSettings) (config file : Path) (mode : RunMode)
  (text : Option Text) {child : Child}

/-- A child that is started and cannot be given its text ends the run. -/
theorem start_unfed (hchild : child.refusal = none) {f : Utf8.EncodeFault}
    (hf : Utf8.encode (text.getD []) = .error f) :
    let t : Talk := ⟨.build settings config file mode text, config, settings.timeout⟩
    start h settings config file mode text child =
      ⟨[.log (startedRecord t.invocation),
        .process (.spawn t.invocation.command t.invocation.cwd text.isSome)],
        .error (.ofSurrogate f)⟩ := by
  intro t
  have hspawn : spawn t.invocation child.refusal =
      ⟨[.process (.spawn t.invocation.command t.invocation.cwd text.isSome)], .ok ()⟩ := by
    rw [hchild]
    rfl
  have hfeed : feed t.invocation = ⟨[], .error (.ofSurrogate f)⟩ := by
    unfold feed
    have hinput : t.invocation.input.getD [] = text.getD [] := rfl
    rw [hinput, hf]
    rfl
  unfold start
  dsimp only
  rw [hspawn, hfeed]
  rfl

end Start

end Runner

namespace WaitEnd

open Runner

/-- What a run does when its wait ends.  It may be interrupted while it waits for a child that it
has killed. -/
def effects (h : Handler) (t : Talk) (exited interrupted : Bool) (w : WaitEnd) : List Effect :=
  if w.kills exited && interrupted then [.process .kill]
  else (putDown w exited).effects ++
    match w with
    | talk e => (resume h t e).effects
    | cancelled => []

def rites (exited interrupted : Bool) (w : WaitEnd) : List ProcessEvent :=
  if w.kills exited then (if interrupted then [.kill] else [.kill, .reap]) else []

/-- Whether the status of a child is set after the wait, where it may have been set before. -/
def status (exited : Bool) : WaitEnd → Bool
  | talk (.replied (.output o)) => exited || o.status.isSome
  | _ => exited

theorem still_resume (h : Handler) (t : Talk) (e : TalkEnd) : (resume h t e).Still := by
  unfold resume
  split
  · exact still_conclude h t _
  · exact still_unreachable h t _

theorem processes_effects (h : Handler) (t : Talk) (exited interrupted : Bool) (w : WaitEnd) :
    Effect.processes (w.effects h t exited interrupted) = w.rites exited interrupted := by
  -- What is made of the end of the talk is told and logged.
  have hlast : Effect.processes (match w with
      | talk e => (resume h t e).effects
      | cancelled => []) = [] := by
    cases w with
    | talk e => exact (still_resume h t e).processes
    | cancelled => rfl
  have hput : Effect.processes (putDown w exited).effects = w.rites exited false := by
    unfold putDown rites
    cases w.kills exited <;> rfl
  unfold effects
  split
  · rename_i hboth
    obtain ⟨hkills, hinterrupted⟩ := Bool.and_eq_true_iff.mp hboth
    simp [rites, hkills, hinterrupted, Effect.processes]
  · rename_i hneither
    rw [Effect.processes_append, hput, hlast, List.append_nil]
    unfold rites
    cases hkills : w.kills exited with
    | false => rfl
    | true =>
      have hcalm : interrupted = false := by simpa [hkills] using hneither
      rw [hcalm]

/-- The ends of a wait after which nothing is done about the child: it answers but has no
status, or the talk fails with anything but a time limit. -/
inductive Abandons : WaitEnd → Prop where
  | answered (o : ProcessOutput) (alive : o.status = none) : Abandons (talk (.replied (.output o)))
  | failed (f : Failure) (other : f.isTimeout = false) : Abandons (talk (.replied (.failure f)))

end WaitEnd

namespace Runner

/-- A child when the run that it was started for is over: what was done to it, and whether its
status is set. -/
structure Remains where
  events : List ProcessEvent
  status : Bool

/-- Whether a child is left behind: its status is not set, and it was not killed and reaped. -/
def Remains.IsOrphan (r : Remains) : Prop :=
  r.status = false ∧ ¬[ProcessEvent.kill, .reap] <:+ r.events

instance (r : Remains) : Decidable r.IsOrphan := inferInstanceAs (Decidable (_ ∧ _))

/-- The child of a run when that is over.  `exited` says whether the status of the child was set
by the end of the wait, if it came to that, and `interrupted` whether the run is cancelled once it
has killed the child. -/
def remains (h : Handler) (settings : LinterSettings) (config file : Path) (mode : RunMode)
    (text : Option Text) (child : Child) (exited : Bool) (w : WaitEnd) (interrupted : Bool) :
    Remains :=
  let x := start h settings config file mode text child
  match x.result with
  | .ok (.waiting t) =>
    ⟨Effect.processes (x.effects ++ w.effects h t exited interrupted), w.status exited⟩
  | .ok (.done _) | .error _ => ⟨Effect.processes x.effects, child.exited⟩

section Remains

variable {h : Handler} {settings : LinterSettings} {config file : Path} {mode : RunMode}
  {text : Option Text} {child : Child}

theorem remains_of_waiting {t : Talk}
    (hw : (start h settings config file mode text child).result = .ok (.waiting t)) (exited : Bool)
    (w : WaitEnd) (interrupted : Bool) :
    remains h settings config file mode text child exited w interrupted =
      ⟨Effect.processes (start h settings config file mode text child).effects ++
        w.rites exited interrupted, w.status exited⟩ := by
  unfold remains
  simp only [hw, Effect.processes_append, WaitEnd.processes_effects]

theorem remains_of_ended
    (hends : ∀ t, (start h settings config file mode text child).result ≠ .ok (.waiting t))
    (exited : Bool) (w : WaitEnd) (interrupted : Bool) :
    remains h settings config file mode text child exited w interrupted =
      ⟨Effect.processes (start h settings config file mode text child).effects, child.exited⟩ := by
  unfold remains
  dsimp only
  split
  · rename_i t hw
    exact absurd hw (hends t)
  · rfl
  · rfl

end Remains

/-- A wait that is not cut short abandons the child, or has set its status. -/
theorem status_or_abandons {w : WaitEnd} (hcut : w.isCutShort = false) :
    w.status false = false ↔ w.Abandons := by
  cases w with
  | cancelled => cases hcut
  | talk e =>
    cases e with
    | outOfTime => cases hcut
    | replied r =>
      cases r with
      | output o =>
        constructor
        · intro hnone
          exact .answered o (by simpa [WaitEnd.status] using hnone)
        · rintro (⟨_, alive⟩ | _)
          simp [WaitEnd.status, alive]
      | failure f => exact iff_of_true rfl (.failed f hcut)

/-- A child that was talked to is left behind exactly where it has no status, and the wait ends in
a way that abandons it, or is cut short and the run interrupted while it reaps the child. -/
theorem orphan_waited_iff {es : List ProcessEvent} (hes : ¬[ProcessEvent.kill, .reap] <:+ es)
    (exited : Bool) (w : WaitEnd) (interrupted : Bool) :
    Remains.IsOrphan ⟨es ++ w.rites exited interrupted, w.status exited⟩ ↔
      exited = false ∧ (w.Abandons ∨ w.isCutShort = true ∧ interrupted = true) := by
  cases hcut : w.isCutShort with
  | false =>
    have hnone : w.rites exited interrupted = [] := by simp [WaitEnd.rites, WaitEnd.kills, hcut]
    have hstatus : w.status exited = false ↔ exited = false ∧ w.Abandons := by
      cases exited with
      | false => simpa using status_or_abandons hcut
      | true => cases w with
        | cancelled => cases hcut
        | talk e => cases e with
          | outOfTime => cases hcut
          | replied r => cases r <;> simp [WaitEnd.status]
    rw [hnone, List.append_nil]
    have horphan : Remains.IsOrphan ⟨es, w.status exited⟩ ↔ w.status exited = false :=
      and_iff_left hes
    simpa using horphan.trans hstatus
  | true =>
    have hnot : ¬w.Abandons := by
      rintro (⟨o, -⟩ | ⟨f, other⟩)
      · cases hcut
      · cases other.symm.trans hcut
    have hstatus : w.status exited = exited := by
      cases w with
      | cancelled => rfl
      | talk e => cases e with
        | outOfTime => rfl
        | replied r => cases r with
          | output o => cases hcut
          | failure f => rfl
    unfold Remains.IsOrphan
    rw [hstatus]
    cases exited with
    | true => simp
    | false =>
      have hkills : w.kills false = true := by simp [WaitEnd.kills, hcut]
      cases interrupted with
      | false => simp [WaitEnd.rites, hkills, hnot]
      | true =>
        refine iff_of_true ⟨rfl, fun hsuffix => ?_⟩ ⟨rfl, .inr ⟨rfl, rfl⟩⟩
        have hlast := hsuffix.getLast (by simp)
        simp [WaitEnd.rites, hkills] at hlast

/-- When a child that was started is left behind. -/
theorem orphan_iff (h : Handler) (settings : LinterSettings) (config file : Path) (mode : RunMode)
    (text : Option Text) {child : Child} (started : child.refusal = none) (exited : Bool)
    (w : WaitEnd) (interrupted : Bool) :
    (∀ bytes, Utf8.encode (text.getD []) = .ok bytes →
      ((remains h settings config file mode text child exited w interrupted).IsOrphan ↔
        exited = false ∧ (w.Abandons ∨ w.isCutShort = true ∧ interrupted = true))) ∧
    ∀ f, Utf8.encode (text.getD []) = .error f →
      ((remains h settings config file mode text child exited w interrupted).IsOrphan ↔
        child.exited = false) := by
  constructor
  · intro bytes hbytes
    have hstart : start h settings config file mode text child = _ := start_fed started hbytes
    rw [remains_of_waiting (congrArg Action.result hstart), hstart]
    refine orphan_waited_iff ?_ exited w interrupted
    intro hsuffix
    have hlast := hsuffix.getLast (by simp)
    cases hlast
  · intro f hf
    have hstart := start_unfed h settings config file mode text started hf
    rw [remains_of_ended (by rintro t ht; rw [hstart] at ht; cases ht), hstart]
    refine and_iff_left ?_
    intro hsuffix
    have hlength := hsuffix.length_le
    simp [Effect.processes] at hlength

end Runner

/-! ## Requests -/

namespace Request

theorem still_unforeseen (h : Handler) (path : Path) (f : Failure) :
    (unforeseen h path f).Still :=
  Still.bind (still_log _) fun _ => Still.bind (h.still_report _) fun _ => still_pure _

section Begin

variable (h : Handler) (m : Machine) (s : LinterSettings) (task : Task) (path : Path)
  (text : Text) (child : Child)

theorem launch_starts (mode : RunMode) (given : Option Text) :
    (∃ config, launch h m s path mode given child =
        Runner.start h s config path mode given child) ∨
      (launch h m s path mode given child).Still ∧
        ∀ t, (launch h m s path mode given child).result ≠ .ok (.waiting t) := by
  cases search : located m s path with
  | error f =>
    rw [launch_unsearched search]
    exact .inr ⟨still_fail f, by rintro t ⟨⟩⟩
  | ok found =>
    cases found with
    | none =>
      rw [launch_unlocated search]
      exact .inr ⟨still_log _, by rintro t ⟨⟩⟩
    | some config => exact .inl ⟨config, launch_located search⟩

/-- The first part of a request does nothing to a child if its settings are unavailable. -/
theorem still_begin (e : Failure) :
    (begin h m (.error e) task path text child).Still ∧
      ∀ w, (begin h m (.error e) task path text child).result ≠ .ok (.waiting w) := by
  have hstill : (settings h (.error e)).Still := by
    unfold settings
    split
    · exact still_pure _
    · exact Still.bind (still_log _) fun _ => Still.bind (h.still_report _) fun _ => still_pure _
    · exact still_fail _
  have hnone (s : LinterSettings) : (settings h (.error e)).result ≠ .ok (some s) := by
    unfold settings
    intro hs
    split at hs
    · rename_i hloaded
      cases hloaded
    · obtain ⟨_, -, hs⟩ := Action.result_bind hs
      obtain ⟨_, -, hs⟩ := Action.result_bind hs
      cases hs
    · cases hs
  constructor
  · refine hstill.bind_of_result fun known hr => ?_
    cases known with
    | some s => exact absurd hr (hnone s)
    | none => exact still_pure _
  · intro w hw
    obtain ⟨known, hr, hw⟩ := Action.result_bind hw
    cases known with
    | some s => exact absurd hr (hnone s)
    | none => cases hw

/-- A talk with a child that goes on with the settings it was begun with. -/
def waitingWith (s : LinterSettings) :
    Progress Runner.Talk Outcome → Progress (LinterSettings × Runner.Talk) Outcome
  | .waiting t => .waiting (s, t)
  | .done outcome => .done outcome

/-- The first part of a request does nothing to a child, or what the start of a run does, and
waits exactly where that waits. -/
theorem processes_begin (loaded : Except Failure LinterSettings) :
    let x := begin h m loaded task path text child
    (x.Still ∧ ∀ w, x.result ≠ .ok (.waiting w)) ∨
      ∃ s config, loaded = .ok s ∧
        let y := Runner.start h s config path task.mode (input task text) child
        Effect.processes x.effects = Effect.processes y.effects ∧
          ∀ w, x.result = .ok (.waiting w) ↔ w.1 = s ∧ y.result = .ok (.waiting w.2) := by
  intro x
  cases loaded with
  | error e => exact .inl (still_begin h m task path text child e)
  | ok s =>
    let launched := launch h m s path task.mode (input task text) child
    let guarded := Action.recover launched fun f => do return .done (← unforeseen h path f)
    -- What is still to be said of the request comes after the launch, and does nothing to a child.
    have hbegin : x = if task = .willSave ∧ !s.fixOnSave then pure (.done (.empty none))
      else guarded >>= fun progress => pure (waitingWith s progress) := by
      show (if task = .willSave ∧ !s.fixOnSave then _ else _) = _
      congr 1
      show (guarded >>= _) = _
      congr 1
      funext progress
      cases progress <;> rfl
    rw [hbegin]
    split
    · exact .inl ⟨still_pure _, by rintro w ⟨⟩⟩
    · have hguard (f : Failure) :
          (do return .done (← unforeseen h path f) : Action (Progress Runner.Talk Outcome)).Still :=
        (still_unforeseen h path f).bind fun _ => still_pure _
      have hwaits (w : LinterSettings × Runner.Talk) :
          (guarded >>= fun progress => pure (waitingWith s progress)).result = .ok (.waiting w) ↔
            w.1 = s ∧ launched.result = .ok (.waiting w.2) := by
        constructor
        · intro hw
          obtain ⟨progress, hguarded, hw⟩ := Action.result_bind hw
          cases progress with
          | done o => cases hw
          | waiting t =>
            cases hw
            rcases Action.result_recover hguarded with hl | ⟨f, -, hr⟩
            · exact ⟨rfl, hl⟩
            · obtain ⟨_, -, hr⟩ := Action.result_bind hr
              cases hr
        · rintro ⟨rfl, hl⟩
          have hguarded : guarded = launched := by
            show Action.recover launched _ = launched
            unfold Action.recover
            rw [hl]
          show (Action.bind guarded _).result = _
          unfold Action.bind
          rw [hguarded, hl]
          rfl
      rcases launch_starts h m s path child task.mode (input task text) with
        ⟨config, hstart⟩ | ⟨hstill, hnot⟩
      · right
        refine ⟨s, config, rfl, ?_⟩
        rw [← hstart]
        refine ⟨?_, hwaits⟩
        rw [processes_bind fun _ => still_pure _]
        exact processes_recover hguard
      · left
        refine ⟨(hstill.recover hguard).bind fun _ => still_pure _, fun w hw => ?_⟩
        exact hnot w.2 ((hwaits w).mp hw).2

end Begin

theorem still_proceed (h : Handler) (path : Path) (t : Runner.Talk) (e : TalkEnd) :
    (proceed h path t e).Still :=
  (WaitEnd.still_resume h t e).recover (still_unforeseen h path)

end Request

theorem Session.EndsBy.still {s : Session} {t : Ticket} {o : Outcome} {c : Completion}
    {es : List Effect} (h : s.EndsBy t o c es) : Effect.Still es := by
  cases h with
  | diagnosed | provided | refreshed | closed => exact Effect.still_nil
  | stale => exact List.forall_mem_singleton.mpr rfl
  | unpublished _ _ _ _ does =>
    rw [does]
    exact Still.bind (still_log _) fun _ =>
      Still.bind (Handler.still_report _ _) fun _ => still_pure _
  | @amended d _ _ x does =>
    rw [does]
    refine Still.forRequest ?_ t.id
    unfold Fix.amend
    split
    · exact Still.bind (Still.bind (still_log _) fun _ => Handler.still_report _ _) fun _ =>
        still_pure _
    · exact still_pure _
    · exact (still_log _).bind fun _ => still_pure _

/-! ## Requests among others -/

/-- How the wait of a request ends at its turns after the first, whether the status of its child
was set then, and whether it is interrupted while it waits for a child that it has killed. -/
inductive WaitsUntil (p : Pending) : List Turn → (exited : Bool) → WaitEnd →
    (interrupted : Bool) → Prop where
  | goesOn {m : Turn} (e : TalkEnd) (alive : p.killed = none) (what : m.what = .goOn p e) :
    WaitsUntil p [m] p.child.exited (.talk e) false
  | givenUp {m : Turn} (name : Text) (alive : p.killed = none)
    (what : m.what = .event (.cancel name)) : WaitsUntil p [m] p.child.exited .cancelled false
  | reaped {k m : Turn} {q : Pending} {w : WaitEnd} (same : Session.SameRequest q p)
    (kills : k.Kills q w) (what : (∃ e, w = .talk e ∧ m.what = .goOn p e) ∨
      w = .cancelled ∧ m.what = .giveUp p) : WaitsUntil p [k, m] q.child.exited w false
  | interrupted {k m : Turn} {q : Pending} {w : WaitEnd} (same : Session.SameRequest q p)
    (kills : k.Kills q w) (name : Text) (what : m.what = .event (.cancel name)) :
    WaitsUntil p [k, m] q.child.exited w true

/-- What is done to child processes at the turns of a request that has ended: nothing, or what
its one run does to its child. -/
inductive Dealings (h : Handler) (t : Ticket) : List Turn → List ProcessEvent → Prop where
  | none (ms : List Turn) : Dealings h t ms []
  | atOnce {m : Turn} {d : OpenDocument} {child : Child} {s : LinterSettings} {config : Path}
    (first : m.Begins t d child) (loaded : m.before.loaded = .ok s)
    (ends : ∀ talk, (Runner.start h s config d.path t.task.mode (Request.input t.task d.text)
      child).result ≠ .ok (.waiting talk)) (exited : Bool) (w : WaitEnd) (interrupted : Bool) :
    Dealings h t [m] (Runner.remains h s config d.path t.task.mode (Request.input t.task d.text)
      child exited w interrupted).events
  | waited {m : Turn} {ms : List Turn} {p : Pending} {d : OpenDocument} {child : Child}
    {config : Path} {exited : Bool} {w : WaitEnd} {interrupted : Bool} (own : p.ticket = t)
    (first : m.Starts p d child) (loaded : m.before.loaded = .ok p.settings)
    (rest : WaitsUntil p ms exited w interrupted) :
    Dealings h t (m :: ms) (Runner.remains h p.settings config d.path t.task.mode
      (Request.input t.task d.text) child exited w interrupted).events

section Turns

variable {h : Handler} {m m' : Turn} {p : Pending} {t : Ticket} {d : OpenDocument} {child : Child}

theorem dealings_atOnce (hm : m.before.handler = h) (first : m.Begins t d child)
    (ends : ∀ w, (m.opening t d child).result ≠ .ok (.waiting w)) :
    Dealings h t [m] (Effect.processes (m.opening t d child).effects) := by
  subst hm
  have hopening : Effect.processes (m.opening t d child).effects = Effect.processes (Request.begin
      m.before.handler m.before.machine m.before.loaded t.task d.path d.text child).effects :=
    Effect.processes_forRequest t.id _
  rw [hopening]
  rcases Request.processes_begin m.before.handler m.before.machine t.task d.path d.text child
    m.before.loaded with ⟨hstill, -⟩ | ⟨s, config, hloaded, heffects, hwaits⟩
  · rw [hstill.processes]
    exact .none [m]
  · have hends (talk : Runner.Talk) : (Runner.start m.before.handler s config d.path t.task.mode
        (Request.input t.task d.text) child).result ≠ .ok (.waiting talk) :=
      fun hw => ends (s, talk) ((hwaits (s, talk)).mpr ⟨rfl, hw⟩)
    have hdealings := Dealings.atOnce first hloaded hends false .cancelled false
    rw [Runner.remains_of_ended hends] at hdealings
    rw [heffects]
    exact hdealings

theorem dealings_waited (hm : m.before.handler = h) (first : m.Starts p d child) {ms : List Turn}
    {exited : Bool} {w : WaitEnd} {interrupted : Bool} (rest : WaitsUntil p ms exited w interrupted) :
    Dealings h p.ticket (m :: ms) (Effect.processes (m.opening p.ticket d child).effects ++
      w.rites exited interrupted) := by
  subst hm
  have hopening : Effect.processes (m.opening p.ticket d child).effects =
      Effect.processes (Request.begin m.before.handler m.before.machine m.before.loaded
        p.ticket.task d.path d.text child).effects :=
    Effect.processes_forRequest p.ticket.id _
  rw [hopening]
  rcases Request.processes_begin m.before.handler m.before.machine p.ticket.task d.path d.text child
    m.before.loaded with ⟨-, hnot⟩ | ⟨s, config, hloaded, heffects, hwaits⟩
  · exact absurd first.waits (hnot _)
  · obtain ⟨hs, hstart⟩ := (hwaits _).mp first.waits
    dsimp only at hs hstart
    subst hs
    have hdealings : Dealings m.before.handler p.ticket (m :: ms) (Runner.remains m.before.handler
        p.settings config d.path p.ticket.task.mode (Request.input p.ticket.task d.text) child
        exited w interrupted).events := .waited rfl first hloaded rest
    rw [Runner.remains_of_waiting hstart] at hdealings
    rw [heffects]
    exact hdealings

theorem processes_killing (p : Pending) :
    Effect.processes p.killing = if p.killed.isSome then [.kill] else [] := by
  unfold Pending.killing
  split <;> rfl

theorem processes_reap (p : Pending) :
    Effect.processes p.reap.effects = if p.killed.isSome then [.reap] else [] := by
  unfold Pending.reap
  split <;> rfl

/-- A request that goes on only reaps its child, if that has been killed. -/
theorem processes_closing (m : Turn) (p : Pending) (e : TalkEnd) :
    Effect.processes (m.closing p e).effects = if p.killed.isSome then [.reap] else [] := by
  rw [Turn.closing, Session.effects_proceed, Effect.processes_append, processes_reap]
  have hstill := (Request.still_proceed m.before.handler p.ticket.path p.talk e).forRequest p.ticket.id
  exact (congrArg _ hstill.processes).trans (List.append_nil _)

/-- A request whose child has been killed is over when that is gone, or is interrupted. -/
theorem dealings_goesOn (hm : m.before.handler = h) (first : m.Starts p d child) {ks : List Turn}
    (meanwhile : KilledAt p ks) {e : TalkEnd} (what : m'.what = .goOn p e)
    (leaves : p.Leaves (.talk e)) : Dealings h p.ticket (m :: ks ++ [m'])
      (Effect.processes (m.opening p.ticket d child).effects ++
        (Effect.processes p.killing ++ Effect.processes (m'.closing p e).effects)) := by
  rw [processes_killing, processes_closing]
  cases meanwhile with
  | alive alive =>
    have hspares : (WaitEnd.talk e).kills p.child.exited = false := by
      rcases leaves with hkilled | ⟨-, hspares⟩
      · cases alive.symm.trans hkilled
      · exact hspares
    have hdealings := dealings_waited hm first (.goesOn e alive what)
    simpa [WaitEnd.rites, hspares, alive] using hdealings
  | @killed k q w same kills killed =>
    have hw : w = .talk e := by
      rcases leaves with hkilled | ⟨halive, -⟩
      · exact Option.some.inj (killed.symm.trans hkilled)
      · cases killed.symm.trans halive
    have hdealings := dealings_waited hm first (.reaped same kills (.inl ⟨e, hw, what⟩))
    simpa [WaitEnd.rites, kills.kills, killed] using hdealings

theorem Did.dealings {ms : List Turn} {c : Completion} {es : List Effect}
    (hdid : Did t ms (some c) es) (hms : ∀ m ∈ ms, m.before.handler = h) :
    Dealings h t ms (Effect.processes es) := by
  cases hdid with
  | @failed m d child f first fails =>
    refine dealings_atOnce (hms m (by simp)) first fun w hw => ?_
    cases hw.symm.trans fails
  | @atOnce m d child o _ es first comes last =>
    rw [Effect.processes_append, last.still.processes, List.append_nil]
    refine dealings_atOnce (hms m (by simp)) first fun w hw => ?_
    cases hw.symm.trans comes
  | @failedLater m m' ks p d child e f own first meanwhile what leaves fails =>
    subst own
    rw [Effect.processes_append, Effect.processes_append]
    exact dealings_goesOn (hms m (by simp)) first meanwhile what leaves
  | @later m m' ks p d child e o _ es own first meanwhile what leaves comes last =>
    subst own
    rw [Effect.processes_append, Effect.processes_append, Effect.processes_append,
      last.still.processes, List.append_nil]
    exact dealings_goesOn (hms m (by simp)) first meanwhile what leaves
  | @reaped m m' ks p d child own first meanwhile what hkilled =>
    subst own
    rw [Effect.processes_append, Effect.processes_append, processes_killing, processes_reap]
    cases meanwhile with
    | alive alive => cases alive.symm.trans hkilled
    | @killed k q w same kills killed =>
      have hw : w = .cancelled := Option.some.inj (killed.symm.trans hkilled)
      have hdealings := dealings_waited (hms m (by simp)) first
        (.reaped same kills (.inr ⟨hw, what⟩))
      simpa [WaitEnd.rites, kills.kills, killed] using hdealings
  | @givenUp m m' ks p d child name own first meanwhile what found spent =>
    subst own
    rw [Effect.processes_append, processes_killing]
    cases meanwhile with
    | alive alive =>
      have hspares := spent.resolve_left (not_not_intro alive)
      have hdealings := dealings_waited (hms m (by simp)) first (.givenUp name alive what)
      simpa [WaitEnd.rites, hspares, alive] using hdealings
    | @killed k q w same kills killed =>
      have hdealings := dealings_waited (hms m (by simp)) first
        (.interrupted same kills name what)
      simpa [WaitEnd.rites, kills.kills, killed] using hdealings

end Turns

namespace Session

/-- A child that a run has started is left behind exactly where its status is not set by the end
of the run, and its text could not be encoded, it has answered without a status, the talk with it
has failed with anything but a time limit, or the run is cancelled while it waits for the child
that it has killed.  A child that runs out of time, and one whose run is cancelled, is not left
behind otherwise.

However the requests of a session interleave, one that has ended has done nothing to child
processes, or what one run does; and nothing else that happens concerns child processes. -/
theorem children_left_behind_iff (h : Handler) :
    (∀ settings config file mode text child exited w interrupted, child.refusal = none →
      let r := Runner.remains h settings config file mode text child exited w interrupted
      (∀ bytes, Utf8.encode (text.getD []) = .ok bytes →
        (r.IsOrphan ↔ exited = false ∧
          (w.Abandons ∨ w.isCutShort = true ∧ interrupted = true))) ∧
      ∀ f, Utf8.encode (text.getD []) = .error f → (r.IsOrphan ↔ child.exited = false)) ∧
    ∀ (m₀ : Machine) source documents ms s, (initial m₀ h source documents).Timeline ms s →
      (∀ t c, Stage.ended t c ∈ s.stages →
        Dealings h t (turnsOf t ms) (Effect.processes (effectsOf t ms))) ∧
      ∀ m ∈ ms, m.ticket? = none → Effect.processes m.effects = [] := by
  refine ⟨?runs, fun m₀ source documents ms s ht => ⟨?requests, ?others⟩⟩
  case runs =>
    intro settings config file mode text child exited w interrupted started
    exact Runner.orphan_iff h settings config file mode text started exited w interrupted
  case requests =>
    intro t c hc
    obtain ⟨r, hdid, hends⟩ := did_timeline ht t
    obtain rfl := hends c hc
    refine hdid.dealings fun m hm => ?_
    obtain ⟨earlier, later, -, hbefore, -, -⟩ := ht.mem (List.mem_filter.mp hm).1
    exact (living_timeline hbefore).handler
  case others =>
    intro m hm hnone
    obtain ⟨earlier, later, -, -, hnow, -⟩ := ht.mem hm
    refine List.filterMap_eq_nil_iff.mpr fun e he => ?_
    obtain ⟨r, rfl⟩ := logs_happens hnow hnone e he
    rfl

/-- Whether a stage is the end of a request. -/
def isEnd : Stage → Bool
  | .ended _ _ => true
  | _ => false

/-- A child that hangs, and a session in which one is run out of time. -/
theorem children_left_behind_never :
    let machine : Machine :=
      ⟨.ofNodes [([], .directory), (["eslint.config.js"], .file [] false)],
        ⟨.slash, []⟩, [], .alone "/root"⟩
    let documents : List (Text × OpenDocument) :=
      [([], .buffer ⟨⟨.slash, ["a"]⟩, [], none, none, 0, 0⟩)]
    let child : Child := ⟨none, .output ⟨none, [], []⟩, .never, false, false⟩
    let remains := Runner.remains .none .defaults ⟨.slash, ["c"]⟩ ⟨.slash, ["a"]⟩ .diagnose none
      child false (.talk .outOfTime) false
    let s₀ := initial machine .none (.given (.ok .defaults)) documents
    let s := s₀.run [.request [] .diagnose [] child, .advance 100]
    child.refusal = none ∧ ¬remains.IsOrphan ∧
      ∃ ms t c, s₀.Timeline ms s ∧ Stage.ended t c ∈ s.stages ∧
        Dealings .none t (turnsOf t ms) (Effect.processes (effectsOf t ms)) := by
  intro machine documents child remains s₀ s
  obtain ⟨hruns, hsessions⟩ := children_left_behind_iff .none
  have hiff := (hruns .defaults ⟨.slash, ["c"]⟩ ⟨.slash, ["a"]⟩ .diagnose none child false
    (.talk .outOfTime) false rfl).1 [] rfl
  have hany : s.stages.any isEnd = true := by decide +kernel
  obtain ⟨x, hx, hended⟩ := List.any_eq_true.mp hany
  obtain ⟨ms, ht, -⟩ := timeline_run s₀ [.request [] .diagnose [] child, .advance 100]
  have hreaped : ¬remains.IsOrphan := by
    intro horphan
    rcases (hiff.mp horphan).2 with habandons | ⟨-, hinterrupted⟩
    · cases habandons
    · cases hinterrupted
  refine ⟨rfl, hreaped, ?_⟩
  cases x with
  | ended t c =>
    exact ⟨ms, t, c, ht, hx, (hsessions machine _ documents ms s ht).1 t c hx⟩
  | _ => cases hended

/-- Three children that are left behind: the talk with the first one fails, the text for the
second one cannot be encoded, and the third one is killed when it has run out of time, and its
request cancelled while it lingers. -/
theorem children_left_behind_failing :
    let failing : Child := ⟨none, .failure (.raised .runtime "boom"), .after 0, false, false⟩
    let answering : Child := ⟨none, .output ⟨some 0, [], []⟩, .after 0, false, false⟩
    let hanging : Child := ⟨none, .output ⟨none, [], []⟩, .never, false, true⟩
    let config : Path := ⟨.slash, ["c"]⟩
    let file : Path := ⟨.slash, ["a"]⟩
    let machine : Machine :=
      ⟨.ofNodes [([], .directory), (["eslint.config.js"], .file [] false)], ⟨.slash, []⟩, [],
        .alone "/root"⟩
    let s := (initial machine .none (.given (.ok .defaults))
      [([], .buffer ⟨file, [], none, none, 0, 0⟩)]).run
        [.request [] .diagnose [] hanging, .advance 100, .cancel []]
    (Runner.remains .none .defaults config file .diagnose none failing false
        (.talk (.replied failing.reply)) false).IsOrphan ∧
      (Runner.remains .none .defaults config file .fixDryRun (some [.surrogate 0]) answering false
        (.talk (.replied answering.reply)) false).IsOrphan ∧
      (Runner.remains .none .defaults config file .diagnose none hanging false
        (.talk .outOfTime) true).IsOrphan ∧
      s.stages.any isEnd = true ∧ (Effect.processes s.effects).drop 2 = [.kill] := by
  decide +kernel

end Session

end EditorLint
