import EditorLint.Proofs.Reaping

/-!
# Children that are started

A request for a document starts one child, or tries to, if it finds a configuration
(`Request.attempts_of_found`), and otherwise none (`Request.run_unfound`).  The start is the only
part of a request that starts a child: whatever comes before and after it only logs, tells the
host, feeds the child or ends it.
-/

namespace EditorLint

namespace Action

variable {α β : Type}

/-- The attempts of an action to start a child. -/
def attempts (x : Action α) : List Attempt := Effect.attempts x.effects

theorem attempts_bind {x : Action α} {f : α → Action β}
    (hf : ∀ a, (f a).attempts = []) : (x >>= f).attempts = x.attempts := by
  show (Action.bind x f).attempts = _
  unfold Action.bind Action.attempts
  split
  · rename_i a _
    rw [Effect.attempts_append, show Effect.attempts (f a).effects = [] from hf a]
    exact List.append_nil _
  · rfl

/-- What comes after an action, or where it fails, has nothing to do with a child. -/
theorem effects_bind {x : Action α} {f : α → Action β} (hf : ∀ a, (f a).Still) :
    ∃ es, Effect.Still es ∧ (x >>= f).effects = x.effects ++ es := by
  show ∃ es, _ ∧ (Action.bind x f).effects = _
  unfold Action.bind
  split
  · rename_i a _
    exact ⟨_, hf a, rfl⟩
  · exact ⟨[], Effect.still_nil, (List.append_nil _).symm⟩

theorem effects_recover {x : Action α} {f : Failure → Action α} (hf : ∀ e, (f e).Still) :
    ∃ es, Effect.Still es ∧ (x.recover f).effects = x.effects ++ es := by
  unfold recover
  split
  · exact ⟨[], Effect.still_nil, (List.append_nil _).symm⟩
  · rename_i e _
    exact ⟨_, hf e, rfl⟩

/-- The first part of an action has nothing to do with a child, and does not fail. -/
theorem attempts_after {x : Action α} {f : α → Action β} {a : α} (hx : x.result = .ok a)
    (hstill : x.Still) : (x >>= f).attempts = (f a).attempts := by
  show (Action.bind x f).attempts = _
  unfold Action.bind
  rw [hx]
  unfold Action.attempts
  rw [Effect.attempts_append, hstill.attempts]
  rfl

end Action

open EditorLint.Action

namespace Runner

section Start

variable (h : Handler) (settings : LinterSettings) (config file : Path) (mode : RunMode)
  (text : Option Text) {child : Child}

theorem attempts_start :
    let i := Invocation.build settings config file mode text
    (start h settings config file mode text child).attempts =
      [⟨i.command, i.cwd, i.input.isSome⟩] := by
  intro i
  let t : Talk := ⟨i, config, settings.timeout⟩
  let tried : Action (Option Outcome) := Action.recover
    (do
      spawn i child.refusal
      return none)
    (fun f => do return some (← unreachable h t f))
  have hspawn : (spawn i child.refusal >>= fun _ => pure (none : Option Outcome)).attempts =
      [⟨i.command, i.cwd, i.input.isSome⟩] := by
    cases child.refusal <;> rfl
  have htried : tried.attempts = [⟨i.command, i.cwd, i.input.isSome⟩] := by
    obtain ⟨es, hes, heffects⟩ := effects_recover
      (x := spawn i child.refusal >>= fun _ => pure (none : Option Outcome))
      fun f => (still_unreachable h t f).bind fun _ => still_pure _
    unfold Action.attempts
    rw [show tried.effects = _ from heffects, Effect.attempts_append, hes.attempts]
    exact (List.append_nil _).trans hspawn
  have hfeed : (feed i).attempts = [] := by
    unfold feed
    split <;> rfl
  unfold start
  rw [attempts_after rfl (still_log _)]
  refine (attempts_bind fun refused => ?_).trans htried
  cases refused with
  | some outcome => rfl
  | none => exact (attempts_bind fun _ => rfl).trans hfeed

theorem spawned_start (starts : child.refusal = none) :
    let i := Invocation.build settings config file mode text
    .spawn i.command i.cwd i.input.isSome ∈
      Effect.processes (start h settings config file mode text child).effects := by
  intro i
  cases hencode : Utf8.encode (text.getD []) with
  | error f =>
    rw [start_unfed h settings config file mode text starts hencode]
    exact List.mem_cons_self
  | ok bytes =>
    rw [start_fed starts hencode]
    exact List.mem_cons_self

end Start

theorem attempts_putDown (w : WaitEnd) (exited : Bool) : (putDown w exited).attempts = [] := by
  unfold putDown
  cases w.kills exited <;> rfl

end Runner

namespace Request

variable (h : Handler) {m : Machine} {s : LinterSettings} {path : Path} (text : Text)
  (child : Child)

/-- The first part of a request for a document for which there is a configuration is the start of
a run, and something that has nothing to do with a child. -/
theorem begin_of_found {config : Path} {task : Task} (runs : task = .willSave → s.fixOnSave = true)
    (hfound : located m s path = .ok (some config)) :
    ∃ es, Effect.Still es ∧ (begin h m (.ok s) task path text child).effects =
      (Runner.start h s config path task.mode (input task text) child).effects ++ es := by
  have hruns : ¬(task = .willSave ∧ (!s.fixOnSave) = true) := by
    rintro ⟨htask, hoff⟩
    simp [runs htask] at hoff
  have hlaunch : launch h m s path task.mode (input task text) child =
      Runner.start h s config path task.mode (input task text) child := launch_located hfound
  have hguard (f : Failure) :
      (do return .done (← unforeseen h path f) : Action (Progress Runner.Talk Outcome)).Still :=
    (still_unforeseen h path f).bind fun _ => still_pure _
  obtain ⟨es, hes, hrecover⟩ := effects_recover (x := launch h m s path task.mode (input task text)
    child) hguard
  have hpassed (progress : Progress Runner.Talk Outcome) :
      (pure (waitingWith s progress) : Action _).Still := still_pure _
  obtain ⟨es', hes', hbind⟩ := effects_bind (x := Action.recover (launch h m s path task.mode
    (input task text) child) fun f => do return .done (← unforeseen h path f)) hpassed
  refine ⟨es ++ es', hes.append hes', ?_⟩
  rw [← hlaunch, ← List.append_assoc, ← hrecover]
  refine Eq.trans ?_ hbind
  show (if task = .willSave ∧ !s.fixOnSave then _ else
    Action.recover (launch h m s path task.mode (input task text) child)
      (fun f => do return .done (← unforeseen h path f)) >>= _).effects = _
  rw [if_neg hruns]
  congr 2
  funext progress
  cases progress <;> rfl

/-- A request for a document for which there is a configuration starts one child, or tries to: in
its first part, which nothing comes before. -/
theorem attempts_of_found {config : Path} {task : Task}
    (runs : task = .willSave → s.fixOnSave = true)
    (hfound : located m s path = .ok (some config)) :
    let i := Invocation.build s config path task.mode (input task text)
    (run h m (.ok s) task path text child).attempts = [⟨i.command, i.cwd, i.input.isSome⟩] ∧
      (child.refusal = none → .spawn i.command i.cwd i.input.isSome ∈
        Effect.processes (run h m (.ok s) task path text child).effects) := by
  intro i
  obtain ⟨es, hes, heffects⟩ := begin_of_found h text child runs hfound
  constructor
  · have hbegin : (begin h m (.ok s) task path text child).attempts =
        [⟨i.command, i.cwd, i.input.isSome⟩] := by
      unfold Action.attempts
      rw [heffects, Effect.attempts_append, hes.attempts]
      exact (List.append_nil _).trans
        (Runner.attempts_start h s config path task.mode (input task text))
    refine (attempts_bind fun progress => ?_).trans hbegin
    cases progress with
    | done o => rfl
    | waiting w =>
      exact (attempts_bind fun _ => (still_proceed h path w.2 _).attempts).trans
        (Runner.attempts_putDown _ _)
  · intro starts
    have hbegin : .spawn i.command i.cwd i.input.isSome ∈
        Effect.processes (begin h m (.ok s) task path text child).effects := by
      rw [heffects, Effect.processes_append]
      exact List.mem_append_left _
        (Runner.spawned_start h s config path task.mode (input task text) starts)
    show _ ∈ Effect.processes (Action.bind _ _).effects
    unfold Action.bind
    split
    · rw [Effect.processes_append]
      exact List.mem_append_left _ hbegin
    · exact hbegin

/-- A request to diagnose a document for which there is a configuration starts one child, or tries
to. -/
theorem attempts_run {config : Path}
    (hfound : located m s path = .ok (some config)) :
    let i := Invocation.build s config path .diagnose none
    (run h m (.ok s) .diagnose path text child).attempts = [⟨i.command, i.cwd, false⟩] :=
  (attempts_of_found h text child (by rintro ⟨⟩) hfound).1

/-- A request that is no fix ends at once where there is no configuration, and only logs that. -/
theorem begin_unfound {task : Task} (diagnoses : task.isFix = false)
    (hnone : located m s path = .ok none) :
    begin h m (.ok s) task path text child =
      ⟨[.log (.plain .debug logger "lint_config_not_found" [pathField path])],
        .ok (.done (.empty none))⟩ := by
  have hruns : ¬(task = .willSave ∧ (!s.fixOnSave) = true) := by
    rintro ⟨rfl, -⟩
    cases diagnoses
  show (if task = .willSave ∧ !s.fixOnSave then _ else
    Action.recover (launch h m s path task.mode (input task text) child)
      (fun f => do return .done (← unforeseen h path f)) >>= _) = _
  rw [if_neg hruns, launch_unlocated hnone]
  rfl

/-- A request to diagnose is over then. -/
theorem run_unfound
    (hnone : located m s path = .ok none) :
    run h m (.ok s) .diagnose path text child =
      ⟨[.log (.plain .debug logger "lint_config_not_found" [pathField path])],
        .ok (.empty none)⟩ := by
  unfold run
  rw [begin_unfound h text child rfl hnone]
  rfl

end Request

end EditorLint
