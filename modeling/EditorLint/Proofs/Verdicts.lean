import EditorLint.Proofs.Outcomes

/-!
# What decides a run

A run of the linter is decided by the first of these that applies (`Decided`):

* the child has not answered in time, or failed with a timeout of its own;
* it could not be started or talked to;
* it wrote to the error stream, whatever else it wrote and whatever status it ended with;
* its output is not a report;
* its output is a report.

Exactly one of them applies, and the run hands over its fault, once, and ends with it
(`run_decided`).  A host that does not want to be told has its faults in the log instead; one
that takes a fault badly ends the run with its own failure.
-/

namespace EditorLint

/-! ## What a child does -/

namespace Child

variable (c : Child) (timeout : Float)

/-- The child answers within the limit, or at once. -/
def InTime : Prop := ∃ seconds, c.answer = .after seconds ∧ (seconds ≤ 0 ∨ seconds ≤ timeout)

/-- The child can be started, and writes something in time. -/
structure Writes (o : ProcessOutput) : Prop where
  starts : c.refusal = none
  answers : c.InTime timeout
  output : c.reply = .output o

/-- The child cannot be started, or cannot be talked to. -/
inductive Fails (f : Failure) : Prop where
  | refused (refuses : c.refusal = some f)
  | broken (starts : c.refusal = none) (answers : c.InTime timeout) (failure : c.reply = .failure f)

/-- The child is started and gives no answer in time. -/
structure Lags : Prop where
  starts : c.refusal = none
  late : ¬c.InTime timeout

def Raises (f : Failure) : Prop := c.refusal = some f ∨ c.reply = .failure f

variable {c timeout}

theorem talk_of_inTime (h : c.InTime timeout) : c.talk timeout = .replied c.reply := by
  obtain ⟨seconds, hanswer, hseconds⟩ := h
  unfold talk
  rw [hanswer]
  exact if_pos (by simpa using hseconds)

theorem talk_of_not_inTime (h : ¬c.InTime timeout) : c.talk timeout = .outOfTime := by
  unfold talk
  cases hanswer : c.answer with
  | after seconds =>
    refine if_neg fun hseconds => h ⟨seconds, hanswer, ?_⟩
    simpa using hseconds
  | never | onRequest => rfl

theorem lags_or_fails_or_writes (c : Child) (timeout : Float) :
    c.Lags timeout ∨ (∃ f, c.Fails timeout f) ∨ ∃ o, c.Writes timeout o := by
  cases hrefusal : c.refusal with
  | some f => exact .inr (.inl ⟨f, .refused hrefusal⟩)
  | none =>
    by_cases htime : c.InTime timeout
    · cases hreply : c.reply with
      | failure f => exact .inr (.inl ⟨f, .broken hrefusal htime hreply⟩)
      | output o => exact .inr (.inr ⟨o, hrefusal, htime, hreply⟩)
    · exact .inl ⟨hrefusal, htime⟩

theorem Fails.raises {f : Failure} (h : c.Fails timeout f) : c.Raises f := by
  cases h with
  | refused refuses => exact .inl refuses
  | broken _ _ failure => exact .inr failure

theorem Fails.unique {f g : Failure} (hf : c.Fails timeout f) (hg : c.Fails timeout g) : f = g := by
  cases hf with
  | refused refuses =>
    cases hg with
    | refused refuses' => exact Option.some.inj (refuses.symm.trans refuses')
    | broken starts => cases refuses.symm.trans starts
  | broken starts _ failure =>
    cases hg with
    | refused refuses => cases refuses.symm.trans starts
    | broken _ _ failure' => exact Reply.failure.inj (failure.symm.trans failure')

theorem Writes.unique {o o' : ProcessOutput} (h : c.Writes timeout o) (h' : c.Writes timeout o') :
    o = o' :=
  Reply.output.inj (h.output.symm.trans h'.output)

theorem Lags.not_fails {f : Failure} (h : c.Lags timeout) : ¬c.Fails timeout f
  | .refused refuses => by cases refuses.symm.trans h.starts
  | .broken _ answers _ => h.late answers

theorem Writes.not_lags {o : ProcessOutput} (h : c.Writes timeout o) : ¬c.Lags timeout :=
  fun hlags => hlags.late h.answers

theorem Writes.not_fails {o : ProcessOutput} {f : Failure} (h : c.Writes timeout o) :
    ¬c.Fails timeout f
  | .refused refuses => by cases refuses.symm.trans h.starts
  | .broken _ _ failure => by cases failure.symm.trans h.output

end Child

/-! ## What the reading of a report logs -/

theorem Logged.mem_bind {α β : Type} {x : Logged α} {f : α → Logged β} {r : Log.Record}
    (hr : r ∈ (x >>= f).records) : r ∈ x.records ∨ ∃ a, r ∈ (f a).records := by
  change r ∈ (Logged.bind x f).records at hr
  unfold Logged.bind at hr
  split at hr
  · rename_i a _
    exact (List.mem_append.mp hr).imp_right fun h => ⟨a, h⟩
  · exact .inl hr

namespace Report

theorem event_of_mapMessages {ms : List Message} {r : Log.Record}
    (hr : r ∈ (mapMessages ms).records) : r.event = "eslint_message_dropped" := by
  induction ms with
  | nil => cases hr
  | cons m rest ih =>
    rcases Logged.mem_bind hr with hr | ⟨mapped, hr⟩
    · cases hr
    · cases mapped with
      | kept d =>
        rcases Logged.mem_bind hr with hr | ⟨_, hr⟩
        · exact ih hr
        · cases hr
      | suppressed => exact ih hr
      | dropped why raw =>
        rcases Logged.mem_bind hr with hr | ⟨_, hr⟩
        · obtain rfl : r = droppedRecord why raw := by simpa [Logged.tell] using hr
          rfl
        · exact ih hr

theorem event_of_read {s : List Char} {r : Log.Record} (hr : r ∈ (read s).records) :
    r.event = "eslint_message_dropped" := by
  unfold read at hr
  split at hr
  · rename_i d _
    unfold ofDatum at hr
    split at hr
    · cases hr
    · rename_i first _
      unfold ofResult at hr
      split at hr
      · dsimp only at hr
        split at hr
        · rcases Logged.mem_bind hr with hr | ⟨_, hr⟩
          · exact event_of_mapMessages hr
          · cases hr
        · split at hr
          · cases hr
          · cases hr
      · cases hr
    · cases hr
  · cases hr
  · cases hr
  · cases hr

end Report

namespace Runner

/-! ## Verdicts -/

/-- What a run is decided by: a fault, or what the report says. -/
inductive Verdict where
  | fault (f : Fault)
  | report (diagnostics : List Diagnostic) (fix : Option Text)

namespace Verdict

def faults : Verdict → List Fault
  | fault f => [f]
  | report _ _ => []

def codeName : Verdict → Option String
  | fault f => some f.code.name
  | report _ _ => none

def outcome (config : Path) : Verdict → Outcome
  | fault f => .failed f.message (some config)
  | report diagnostics fix => .ofReport diagnostics fix (some config)

theorem config_outcome (config : Path) (v : Verdict) : (v.outcome config).config = some config := by
  cases v with
  | fault f => rfl
  | report diagnostics fix => exact Outcome.config_ofReport diagnostics fix (some config)

end Verdict

/-- What decides the run of a command whose child has some seconds to answer. -/
inductive Decided (i : Invocation) (timeout : Float) (c : Child) : Verdict → Prop where
  | late (lags : c.Lags timeout) :
    Decided i timeout c (.fault (.timeout i.display (.float timeout)))
  | timedOut {f : Failure} (fails : c.Fails timeout f) (expires : f.isTimeout = true) :
    Decided i timeout c (.fault (.timeout i.display (.float timeout)))
  | unreachable {f : Failure} (fails : c.Fails timeout f) (lasts : f.isTimeout = false) :
    Decided i timeout c (.fault (.spawnFailed i.display f.display))
  | noisy {o : ProcessOutput} (writes : c.Writes timeout o)
    (loud : ProcessOutput.decoded o.stderr ≠ []) :
    Decided i timeout c
      (.fault (.processFailed i.display (statusDatum o) (ProcessOutput.decoded o.stderr)))
  | unreadable {o : ProcessOutput} {reason : Text} (writes : c.Writes timeout o)
    (silent : ProcessOutput.decoded o.stderr = [])
    (read : (Report.read (Utf8.decodeReplacing o.stdout)).result = .ok (.unreadable reason)) :
    Decided i timeout c (.fault (.reportUnreadable i.display reason))
  | readable {o : ProcessOutput} {diagnostics : List Diagnostic} {fix : Option Text}
    (writes : c.Writes timeout o) (silent : ProcessOutput.decoded o.stderr = [])
    (read : (Report.read (Utf8.decodeReplacing o.stdout)).result =
      .ok (.readable diagnostics fix)) :
    Decided i timeout c (.report diagnostics fix)

section Decided

variable {i : Invocation} {timeout : Float} {c : Child} {v w : Verdict}

theorem Decided.unique (hv : Decided i timeout c v) (hw : Decided i timeout c w) : v = w := by
  -- The conditions of two verdicts exclude each other; two of the same kind agree on what the child
  -- has done.
  cases hv with
  | late lags =>
    cases hw with
    | late | timedOut => rfl
    | unreachable fails => exact absurd fails lags.not_fails
    | noisy writes | unreadable writes | readable writes => exact absurd lags writes.not_lags
  | timedOut fails expires =>
    cases hw with
    | late | timedOut => rfl
    | unreachable fails' lasts =>
      rw [fails.unique fails', lasts] at expires
      cases expires
    | noisy writes | unreadable writes | readable writes => exact absurd fails writes.not_fails
  | unreachable fails lasts =>
    cases hw with
    | late lags => exact absurd fails lags.not_fails
    | timedOut fails' expires =>
      rw [fails'.unique fails, lasts] at expires
      cases expires
    | unreachable fails' => rw [fails.unique fails']
    | noisy writes | unreadable writes | readable writes => exact absurd fails writes.not_fails
  | noisy writes loud =>
    cases hw with
    | late lags => exact absurd lags writes.not_lags
    | timedOut fails | unreachable fails => exact absurd fails writes.not_fails
    | noisy writes' => rw [writes.unique writes']
    | unreadable writes' silent | readable writes' silent =>
      rw [← writes.unique writes'] at silent
      exact absurd silent loud
  | unreadable writes silent read | readable writes silent read =>
    cases hw with
    | late lags => exact absurd lags writes.not_lags
    | timedOut fails | unreachable fails => exact absurd fails writes.not_fails
    | noisy writes' loud =>
      rw [← writes.unique writes'] at loud
      exact absurd silent loud
    | unreadable writes' _ read' | readable writes' _ read' =>
      rw [← writes.unique writes', read] at read'
      cases read' <;> rfl

theorem exists_decided (i : Invocation) (timeout : Float)
    (returns : ∀ o, c.reply = .output o →
      ∃ report, (Report.read (Utf8.decodeReplacing o.stdout)).result = .ok report) :
    ∃ v, Decided i timeout c v := by
  rcases c.lags_or_fails_or_writes timeout with lags | ⟨f, fails⟩ | ⟨o, writes⟩
  · exact ⟨_, .late lags⟩
  · cases hexpires : f.isTimeout with
    | true => exact ⟨_, .timedOut fails hexpires⟩
    | false => exact ⟨_, .unreachable fails hexpires⟩
  · by_cases hsilent : ProcessOutput.decoded o.stderr = []
    · obtain ⟨report, hread⟩ := returns o writes.output
      cases report with
      | unreadable reason => exact ⟨_, .unreadable writes hsilent hread⟩
      | readable diagnostics fix => exact ⟨_, .readable writes hsilent hread⟩
    · exact ⟨_, .noisy writes hsilent⟩

/-- The same command, with a child that is silent on the error stream and ends with another
status, is decided by the same verdict. -/
theorem Decided.of_status {o : ProcessOutput} (hreply : c.reply = .output o)
    (hsilent : ProcessOutput.decoded o.stderr = []) (status : Option Int) (exited : Bool)
    (hv : Decided i timeout c v) :
    Decided i timeout
      { c with reply := .output { o with status := status }, exited := exited } v := by
  -- What is written by the one child is written by the other, with the other status.
  have hwrites {o' : ProcessOutput} (writes : c.Writes timeout o') :
      o' = o ∧ Child.Writes
        { c with reply := .output { o with status := status }, exited := exited } timeout
        { o with status := status } :=
    ⟨Reply.output.inj (writes.output.symm.trans hreply), writes.starts, writes.answers, rfl⟩
  cases hv with
  | late lags => exact .late ⟨lags.starts, lags.late⟩
  | timedOut fails expires =>
    cases fails with
    | refused refuses => exact .timedOut (.refused refuses) expires
    | broken _ _ failure => cases failure.symm.trans hreply
  | unreachable fails lasts =>
    cases fails with
    | refused refuses => exact .unreachable (.refused refuses) lasts
    | broken _ _ failure => cases failure.symm.trans hreply
  | noisy writes loud =>
    obtain ⟨rfl, -⟩ := hwrites writes
    exact absurd hsilent loud
  | unreadable writes silent read =>
    obtain ⟨rfl, writes'⟩ := hwrites writes
    exact .unreadable writes' silent read
  | readable writes silent read =>
    obtain ⟨rfl, writes'⟩ := hwrites writes
    exact .readable writes' silent read

end Decided

/-! ## Handing a verdict over -/

/-- The effect of handing a fault over: the host is told, or the log if the host does not want to
know. -/
def handing (h : Handler) (f : Fault) : Effect :=
  match h.callback with
  | none => .log (failedRecord f)
  | some _ => .report f

def hands (h : Handler) : Effect → Bool
  | .report _ => true
  | .log r => h.callback.isNone && r.event == "lint_command_failed"
  | .process _ | .refused .. => false

/-- How a run ends with a verdict: with its outcome, unless the host takes the fault badly. -/
def ending (h : Handler) (config : Path) (v : Verdict) : Except Failure Outcome :=
  match v.faults.findSome? fun f => h.callback.bind fun callback => callback f with
  | some failure => .error failure
  | none => .ok (v.outcome config)

/-- Effects that hand nothing over: what is done to a child or comes instead of one, and other
records. -/
inductive Quiet : Effect → Prop where
  | log {r : Log.Record} (other : r.event ≠ "lint_command_failed") : Quiet (.log r)
  | process (e : ProcessEvent) : Quiet (.process e)
  | refused (command : List Text) (cwd : Path) (piped : Bool) : Quiet (.refused command cwd piped)

theorem filter_hands (h : Handler) {es : List Effect} (hes : ∀ e ∈ es, Quiet e) :
    es.filter (hands h) = [] := by
  refine List.filter_eq_nil_iff.mpr fun e he => ?_
  cases hes e he with
  | @log r other =>
    show ¬(h.callback.isNone && r.event == "lint_command_failed") = true
    rw [beq_eq_false_iff_ne.mpr other, Bool.and_false]
    exact Bool.false_ne_true
  | process | refused => exact Bool.false_ne_true

theorem quiet_cons {e : Effect} {es : List Effect} (he : Quiet e) (hes : ∀ e ∈ es, Quiet e) :
    ∀ e' ∈ e :: es, Quiet e' :=
  List.forall_mem_cons.mpr ⟨he, hes⟩

theorem quiet_nil : ∀ e ∈ ([] : List Effect), Quiet e := List.forall_mem_nil _

theorem quiet_started (i : Invocation) : Quiet (.log (startedRecord i)) :=
  .log (show ("lint_command_started" : Text) ≠ "lint_command_failed" by decide)

theorem quiet_finished (i : Invocation) (o : ProcessOutput) : Quiet (.log (finishedRecord i o)) :=
  .log (show ("lint_command_finished" : Text) ≠ "lint_command_failed" by decide)

theorem quiet_read (s : List Char) : ∀ e ∈ (Action.ofLogged (Report.read s)).effects, Quiet e := by
  intro e he
  obtain ⟨r, hr, rfl⟩ := List.mem_map.mp he
  refine .log ?_
  rw [Report.event_of_read hr]
  decide

theorem quiet_putDown (w : WaitEnd) (exited : Bool) :
    ∀ e ∈ (putDown w exited).effects, Quiet e := by
  unfold putDown
  cases w.kills exited with
  | false => exact quiet_nil
  | true => exact quiet_cons (.process .kill) (quiet_cons (.process .reap) quiet_nil)

/-- An action hands over the fault of a verdict, if it has one, once, and nothing else, and ends as
it does.  What stands for an outcome in the middle of a run is `k` of it. -/
structure Settles {α : Type} (h : Handler) (config : Path) (k : Outcome → α) (x : Action α)
    (v : Verdict) : Prop where
  handed : x.effects.filter (hands h) = v.faults.map (handing h)
  ending : x.result = (ending h config v).map k

section Settles

variable {h : Handler} {config : Path} {v : Verdict} {α β : Type} {k : Outcome → α}

theorem Settles.after {x : Action β} {f : β → Action α} {b : β} (hx : x.result = .ok b)
    (hnone : x.effects.filter (hands h) = []) (hf : Settles h config k (f b) v) :
    Settles h config k (x >>= f) v := by
  have hbind : x >>= f = ⟨x.effects ++ (f b).effects, (f b).result⟩ := by
    show Action.bind x f = _
    unfold Action.bind
    rw [hx]
  rw [hbind]
  refine ⟨?_, hf.ending⟩
  show (x.effects ++ (f b).effects).filter (hands h) = _
  rw [List.filter_append, hnone, List.nil_append]
  exact hf.handed

/-- What has failed has handed nothing over, and its failure is settled instead. -/
theorem Settles.recover {x : Action α} {f : Failure} {r : Failure → Action α}
    (hx : x.result = .error f) (hnone : x.effects.filter (hands h) = [])
    (hr : Settles h config k (r f) v) : Settles h config k (x.recover r) v := by
  have hrecover : x.recover r = ⟨x.effects ++ (r f).effects, (r f).result⟩ := by
    unfold Action.recover
    rw [hx]
  rw [hrecover]
  refine ⟨?_, hr.ending⟩
  show (x.effects ++ (r f).effects).filter (hands h) = _
  rw [List.filter_append, hnone, List.nil_append]
  exact hr.handed

theorem Settles.then {l : Outcome → β} {x : Action α} {f : α → Action β}
    (hx : Settles h config k x v) (hf : ∀ o, f (k o) = pure (l o)) :
    Settles h config l (x >>= f) v := by
  obtain ⟨effects, result⟩ := x
  obtain ⟨hhanded, hending⟩ := hx
  obtain rfl : result = (Runner.ending h config v).map k := hending
  show Settles h config l (Action.bind _ f) v
  unfold Action.bind
  cases hv : Runner.ending h config v with
  | error e => exact ⟨hhanded, by rw [hv]; rfl⟩
  | ok o =>
    have hpure : f (k o) = pure (l o) := hf o
    refine ⟨?_, ?_⟩
    · show (effects ++ (f (k o)).effects).filter (hands h) = _
      rw [hpure]
      show (effects ++ []).filter (hands h) = _
      rw [List.append_nil]
      exact hhanded
    · show (f (k o)).result = _
      rw [hpure, hv]
      rfl

variable (h)

theorem settles_failed (config : Path) (f : Fault) :
    Settles h config id (failed h config f) (.fault f) := by
  obtain ⟨_ | callback⟩ := h
  · exact ⟨rfl, rfl⟩
  · show Settles _ _ _ (Handler.call callback f >>= fun _ => _) _
    unfold Handler.call
    cases hf : callback f with
    | none | some failure =>
      refine ⟨rfl, ?_⟩
      unfold Runner.ending Verdict.faults
      simp only [List.findSome?, Option.bind, hf]
      rfl

theorem settles_unreachable (t : Talk) {f : Failure} (hsystem : f.isSystem = true) :
    Settles h t.config id (unreachable h t f)
      (.fault (if f.isTimeout then .timeout t.invocation.display (.float t.timeout)
        else .spawnFailed t.invocation.display f.display)) := by
  unfold unreachable
  rw [if_pos hsystem]
  split
  · exact settles_failed h _ _
  · exact settles_failed h _ _

/-! ## The parts of a run -/

theorem settles_fails (t : Talk) {c : Child} {f : Failure} (fails : c.Fails t.timeout f)
    (hsystem : f.isSystem = true) (hv : Decided t.invocation t.timeout c v) :
    Settles h t.config id (unreachable h t f) v := by
  have hf := settles_unreachable h t hsystem
  split at hf
  · rename_i hexpires
    rwa [hv.unique (.timedOut fails hexpires)]
  · rename_i hlasts
    rwa [hv.unique (.unreachable fails (Bool.eq_false_iff.mpr hlasts))]

/-- What a child has written is settled by the error stream first, and then by the report. -/
theorem settles_conclude (t : Talk) {c : Child} {o : ProcessOutput}
    (writes : c.Writes t.timeout o) (hv : Decided t.invocation t.timeout c v) :
    Settles h t.config id (conclude h t o) v := by
  unfold conclude
  refine .after rfl (filter_hands h (quiet_cons (quiet_finished _ _) quiet_nil)) ?_
  dsimp only
  cases hv with
  | late lags => exact absurd lags writes.not_lags
  | timedOut fails | unreachable fails => exact absurd fails writes.not_fails
  | noisy writes' loud =>
    obtain rfl := writes.unique writes'
    rw [if_pos (by simpa using loud)]
    exact settles_failed h _ _
  | unreadable writes' silent read =>
    obtain rfl := writes.unique writes'
    rw [if_neg (by simp [silent])]
    exact .after read (filter_hands h (quiet_read _)) (settles_failed h _ _)
  | readable writes' silent read =>
    obtain rfl := writes.unique writes'
    rw [if_neg (by simp [silent])]
    exact .after read (filter_hands h (quiet_read _)) ⟨rfl, rfl⟩

theorem settles_resume (t : Talk) {c : Child}
    (system : ∀ f, c.Fails t.timeout f → f.isSystem = true)
    (starts : c.refusal = none) (hv : Decided t.invocation t.timeout c v) :
    Settles h t.config id (resume h t (c.talk t.timeout)) v := by
  by_cases htime : c.InTime t.timeout
  · rw [Child.talk_of_inTime htime]
    cases hreply : c.reply with
    | output o => exact settles_conclude h t ⟨starts, htime, hreply⟩ hv
    | failure f =>
      have fails : c.Fails t.timeout f := .broken starts htime hreply
      exact settles_fails h t fails (system f fails) hv
  · rw [Child.talk_of_not_inTime htime, hv.unique (.late ⟨starts, htime⟩)]
    exact settles_unreachable h t rfl

/-- The text matters where the child can be started, and of the failures that the child may cause
only the one that it does cause. -/
theorem settles_course (settings : LinterSettings) (config file : Path) (mode : RunMode)
    (text : Option Text) (c : Child)
    (encodable : c.refusal = none → ∃ bytes, Utf8.encode (text.getD []) = .ok bytes)
    (system : ∀ f, c.Fails settings.timeout f → f.isSystem = true)
    (hv : Decided (.build settings config file mode text) settings.timeout c v) :
    Settles h config id (run h settings config file mode text c) v := by
  let t : Talk := ⟨.build settings config file mode text, config, settings.timeout⟩
  unfold run
  cases hrefusal : c.refusal with
  | none =>
    obtain ⟨bytes, hbytes⟩ := encodable hrefusal
    rw [start_fed hrefusal hbytes]
    have hquiet : ∀ e ∈ [.log (startedRecord t.invocation),
        .process (.spawn t.invocation.command t.invocation.cwd text.isSome),
        .process (.input text)], Quiet e :=
      quiet_cons (quiet_started _) (quiet_cons (.process _) (quiet_cons (.process _) quiet_nil))
    refine .after rfl (filter_hands h hquiet) ?_
    exact .after (putDown_ok _ _) (filter_hands h (quiet_putDown _ _))
      (settles_resume h t system hrefusal hv)
  | some f =>
    have hf := settles_fails h t (.refused hrefusal) (system f (.refused hrefusal)) hv
    have hstart : Settles h config Progress.done (start h settings config file mode text c) v := by
      unfold start
      rw [hrefusal]
      refine .after rfl (filter_hands h (quiet_cons (quiet_started _) quiet_nil)) ?_
      refine Settles.then (k := some) ?_ fun o => rfl
      refine .recover (f := f) rfl (filter_hands h (quiet_cons (.refused _ _ _) quiet_nil)) ?_
      exact hf.then fun o => rfl
    exact hstart.then fun o => rfl

theorem settles_run (settings : LinterSettings) (config file : Path) (mode : RunMode)
    (text : Option Text) (c : Child) {bytes : List UInt8}
    (encodable : Utf8.encode (text.getD []) = .ok bytes)
    (system : ∀ f, c.Raises f → f.isSystem = true)
    (hv : Decided (.build settings config file mode text) settings.timeout c v) :
    Settles h config id (run h settings config file mode text c) v :=
  settles_course h settings config file mode text c (fun _ => ⟨bytes, encodable⟩)
    (fun f hf => system f hf.raises) hv

end Settles

/-- Where the text can be encoded, the failures are those of the operating system and what is
written can be read or not, exactly one verdict decides the run.  Its fault is handed over once
and nothing else is, its outcome is that of the run unless the host takes the fault badly, and
the outcome names the configuration.  The first case that applies gives the fault its code, and
as long as the error stream is silent the status does not matter. -/
theorem run_decided (h : Handler) (settings : LinterSettings) (config file : Path)
    (mode : RunMode) (text : Option Text) (c : Child) {bytes : List UInt8}
    (encodable : Utf8.encode (text.getD []) = .ok bytes)
    (system : ∀ f, c.Raises f → f.isSystem = true)
    (returns : ∀ o, c.reply = .output o →
      ∃ report, (Report.read (Utf8.decodeReplacing o.stdout)).result = .ok report) :
    let i := Invocation.build settings config file mode text
    let timeout := settings.timeout
    let x := run h settings config file mode text c
    ∃ v, (∀ w, Decided i timeout c w ↔ w = v) ∧
      x.effects.filter (hands h) = v.faults.map (handing h) ∧
      x.result = ending h config v ∧ (v.outcome config).config = some config ∧
      (c.Lags timeout ∨ (∃ f, c.Fails timeout f ∧ f.isTimeout = true) →
        v.codeName = some "LINT_TIMEOUT") ∧
      (∀ f, c.Fails timeout f → f.isTimeout = false → v.codeName = some "LINT_SPAWN_FAILED") ∧
      (∀ o, c.Writes timeout o → ProcessOutput.decoded o.stderr ≠ [] →
        v.codeName = some "LINT_PROCESS_FAILED") ∧
      (∀ o reason, c.Writes timeout o → ProcessOutput.decoded o.stderr = [] →
        (Report.read (Utf8.decodeReplacing o.stdout)).result = .ok (.unreadable reason) →
        v.codeName = some "LINT_PARSE_ERROR") ∧
      (∀ o diagnostics fix, c.Writes timeout o → ProcessOutput.decoded o.stderr = [] →
        (Report.read (Utf8.decodeReplacing o.stdout)).result = .ok (.readable diagnostics fix) →
        v = .report diagnostics fix) ∧
      ∀ o status exited, c.reply = .output o → ProcessOutput.decoded o.stderr = [] →
        (run h settings config file mode text
          { c with reply := .output { o with status := status }, exited := exited }).result =
          x.result := by
  intro i timeout x
  obtain ⟨v, hv⟩ := exists_decided i timeout returns
  have hunique (w : Verdict) : Decided i timeout c w ↔ w = v := by
    constructor
    · exact fun hw => hw.unique hv
    · rintro rfl
      exact hv
  have hcode {w : Verdict} (hw : Decided i timeout c w) : v.codeName = w.codeName := by
    rw [(hunique w).mp hw]
  have hsettles : Settles h config id x v :=
    settles_run h settings config file mode text c encodable system hv
  -- The outcome of every run that the verdict decides is the same.
  have hend {y : Action Outcome} (hy : Settles h config id y v) : y.result = ending h config v := by
    rw [hy.ending]
    cases ending h config v <;> rfl
  refine ⟨v, hunique, hsettles.handed, hend hsettles, v.config_outcome config,
    ?_, ?_, ?_, ?_, ?_, ?_⟩
  · rintro (lags | ⟨f, fails, expires⟩)
    · exact hcode (.late lags)
    · exact hcode (.timedOut fails expires)
  · exact fun f fails lasts => hcode (.unreachable fails lasts)
  · exact fun o writes loud => hcode (.noisy writes loud)
  · exact fun o reason writes silent read => hcode (.unreadable writes silent read)
  · exact fun o diagnostics fix writes silent read =>
      ((hunique _).mp (.readable writes silent read)).symm
  · intro o status exited hreply hsilent
    -- Another status is no failure, so the other child fails in no way that this one does not.
    have hother : ∀ f, Child.Raises
        { c with reply := .output { o with status := status }, exited := exited } f →
        f.isSystem = true := by
      rintro f (hrefusal | hfailure)
      · exact system f (.inl hrefusal)
      · cases hfailure
    rw [hend hsettles]
    exact hend (settles_run h settings config file mode text _ encodable hother
      (hv.of_status hreply hsilent status exited))

/-- A child that ends well, with a report of nothing and a warning on the error stream. -/
theorem run_decided_noisy :
    let c : Child :=
      ⟨none, .output ⟨some 0, "[]".toUTF8.toList, "old".toUTF8.toList⟩, .after 1, true, false⟩
    let settings := LinterSettings.defaults
    let config := Path.ofString "/p/eslint.config.js"
    let x := run .recording settings config (Path.ofString "/p/a.js") .diagnose none c
    c.InTime settings.timeout ∧ ∃ v : Verdict, v.codeName = some "LINT_PROCESS_FAILED" ∧
      x.effects.filter (hands .recording) = v.faults.map .report ∧
      x.result = ending .recording config v := by
  intro c settings config x
  have htime : c.InTime settings.timeout := ⟨1, rfl, .inr (by decide +kernel)⟩
  have hencodable : Utf8.encode ((none : Option Text).getD []) = .ok [] := rfl
  have hsystem : ∀ f, c.Raises f → f.isSystem = true := by
    rintro f (hrefusal | hfailure)
    · cases hrefusal
    · cases hfailure
  have hreturns : ∀ o, c.reply = .output o →
      ∃ report, (Report.read (Utf8.decodeReplacing o.stdout)).result = .ok report := by
    intro o ho
    obtain rfl := Reply.output.inj ho
    have hread : (Report.read (Utf8.decodeReplacing "[]".toUTF8.toList)).result.toOption.isSome =
        true := by decide +kernel
    cases h : (Report.read (Utf8.decodeReplacing "[]".toUTF8.toList)).result with
    | ok report => exact ⟨report, rfl⟩
    | error f =>
      rw [h] at hread
      cases hread
  obtain ⟨v, -, hhanded, hending, -, -, -, hnoisy, -⟩ := run_decided .recording settings config
    (Path.ofString "/p/a.js") .diagnose none c hencodable hsystem hreturns
  exact ⟨htime, v, hnoisy _ ⟨rfl, htime, rfl⟩ (by decide +kernel), hhanded, hending⟩

end Runner

end EditorLint
