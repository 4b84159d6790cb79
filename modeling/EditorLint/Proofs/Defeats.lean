import EditorLint.Proofs.Normalizing
import EditorLint.Proofs.Reaping
import EditorLint.Proofs.Verdicts

/-!
# What defeats a run

A run is to turn every failure into a failed outcome and to hand one fault over for it.  Four things
defeat it (`Defeats`):

* the child cannot be started, for a reason that is not one of the operating system;
* the child is started, and its text cannot be encoded;
* talking to the child fails, for a reason that is not one of the operating system;
* the report that the child wrote is lost.

Then, and only then, the run ends with a failure, of which nobody is told; and in every other case
the run returns, with a failed outcome and one fault unless the report was understood
(`run_returns_iff`).
-/

namespace EditorLint.Runner

/-- What gets out of the run of a command whose child has some seconds to answer. -/
inductive Defeats (i : Invocation) (timeout : Float) (c : Child) : Failure → Prop where
  | unstarted {f : Failure} (refuses : c.refusal = some f) (foreign : f.isSystem = false) :
    Defeats i timeout c f
  | unfed {fault : Utf8.EncodeFault} (starts : c.refusal = none)
    (unencodable : Utf8.encode (i.input.getD []) = .error fault) :
    Defeats i timeout c (.ofSurrogate fault)
  | broken {f : Failure} {bytes : List UInt8}
    (encodable : Utf8.encode (i.input.getD []) = .ok bytes) (starts : c.refusal = none)
    (answers : c.InTime timeout) (failure : c.reply = .failure f) (foreign : f.isSystem = false) :
    Defeats i timeout c f
  | lost {f : Failure} {bytes : List UInt8} {o : ProcessOutput}
    (encodable : Utf8.encode (i.input.getD []) = .ok bytes) (writes : c.Writes timeout o)
    (silent : ProcessOutput.decoded o.stderr = [])
    (lost : Report.Lost (Utf8.decodeReplacing o.stdout) f) : Defeats i timeout c f

/-- The child has written a report in time, and nothing else. -/
structure Understood (timeout : Float) (c : Child) (diagnostics : List Diagnostic)
    (fix : Option Text) (o : ProcessOutput) : Prop where
  writes : c.Writes timeout o
  silent : ProcessOutput.decoded o.stderr = []
  read : (Report.read (Utf8.decodeReplacing o.stdout)).result = .ok (.readable diagnostics fix)

/-! ## Failing in silence -/

/-- An action fails, and no fault is handed over. -/
structure FailsSilently {α : Type} (h : Handler) (x : Action α) (f : Failure) : Prop where
  fails : x.result = .error f
  silent : x.effects.filter (hands h) = []

section FailsSilently

variable {h : Handler} {α β : Type} {f e : Failure} {x : Action α}

theorem FailsSilently.bind (hx : FailsSilently h x f) (g : α → Action β) :
    FailsSilently h (x >>= g) f := by
  have hbind : x >>= g = ⟨x.effects, .error f⟩ := by
    show Action.bind x g = _
    simp only [Action.bind, hx.fails]
  rw [hbind]
  exact ⟨rfl, hx.silent⟩

theorem FailsSilently.after {g : α → Action β} {a : α} (hx : x.result = .ok a)
    (hnone : x.effects.filter (hands h) = []) (hg : FailsSilently h (g a) f) :
    FailsSilently h (x >>= g) f := by
  have hbind : x >>= g = ⟨x.effects ++ (g a).effects, (g a).result⟩ := by
    show Action.bind x g = _
    simp only [Action.bind, hx]
  rw [hbind]
  exact ⟨hg.fails, by rw [List.filter_append, hnone, hg.silent, List.append_nil]⟩

theorem FailsSilently.recover {r : Failure → Action α} (hx : x.result = .error e)
    (hnone : x.effects.filter (hands h) = []) (hr : FailsSilently h (r e) f) :
    FailsSilently h (x.recover r) f := by
  have hrecover : x.recover r = ⟨x.effects ++ (r e).effects, (r e).result⟩ := by
    simp only [Action.recover, hx]
  rw [hrecover]
  exact ⟨hr.fails, by rw [List.filter_append, hnone, hr.silent, List.append_nil]⟩

end FailsSilently

section Parts

variable (h : Handler) (t : Talk) {c : Child} {f : Failure}

theorem unreachable_foreign (foreign : f.isSystem = false) :
    FailsSilently h (unreachable h t f) f := by
  have hlimit : f.isTimeout = false := by
    cases f with
    | system e => cases foreign
    | _ => rfl
  unfold unreachable
  simp only [hlimit, foreign, Bool.false_eq_true, if_false]
  exact ⟨rfl, rfl⟩

theorem start_refused {settings : LinterSettings} {config file : Path} {mode : RunMode}
    {text : Option Text} (refuses : c.refusal = some f) (foreign : f.isSystem = false) :
    FailsSilently h (start h settings config file mode text c) f := by
  unfold start
  rw [refuses]
  refine .after rfl (filter_hands h (quiet_cons (quiet_started _) quiet_nil)) ?_
  apply FailsSilently.bind
  refine .recover (e := f) rfl (filter_hands h (quiet_cons (.refused _ _ _) quiet_nil)) ?_
  exact (unreachable_foreign h _ foreign).bind _

theorem conclude_lost {o : ProcessOutput} (silent : ProcessOutput.decoded o.stderr = [])
    (lost : Report.Lost (Utf8.decodeReplacing o.stdout) f) :
    FailsSilently h (conclude h t o) f := by
  have hread := Report.read_error_iff.mpr lost
  unfold conclude
  refine .after rfl (filter_hands h (quiet_cons (quiet_finished _ _) quiet_nil)) ?_
  simp only [silent, List.isEmpty_nil, Bool.not_true, Bool.false_eq_true, if_false]
  apply FailsSilently.bind
  exact ⟨hread, filter_hands h (quiet_read _)⟩

end Parts

/-! ## Whole runs -/

section Runs

variable {h : Handler} {settings : LinterSettings} {config file : Path} {mode : RunMode}
  {text : Option Text} {c : Child}

theorem Defeats.failsSilently {f : Failure}
    (defeats : Defeats (.build settings config file mode text) settings.timeout c f) :
    FailsSilently h (run h settings config file mode text c) f := by
  let t : Talk := ⟨.build settings config file mode text, config, settings.timeout⟩
  have hfed {bytes : List UInt8} (starts : c.refusal = none)
      (encodable : Utf8.encode (text.getD []) = .ok bytes)
      (hf : FailsSilently h (resume h t (c.talk t.timeout)) f) :
      FailsSilently h (run h settings config file mode text c) f := by
    unfold run
    rw [start_fed starts encodable]
    refine .after rfl (filter_hands h ?_)
      (.after (putDown_ok _ _) (filter_hands h (quiet_putDown _ _)) hf)
    exact quiet_cons (quiet_started _) (quiet_cons (.process _) (quiet_cons (.process _) quiet_nil))
  -- What stands before the failure only logs or has to do with the child; nothing stands after it.
  cases defeats with
  | unstarted refuses foreign => exact (start_refused h refuses foreign).bind _
  | unfed starts unencodable =>
    unfold run
    rw [start_unfed h settings config file mode text starts unencodable]
    apply FailsSilently.bind
    exact ⟨rfl, filter_hands h (quiet_cons (quiet_started _) (quiet_cons (.process _) quiet_nil))⟩
  | broken encodable starts answers failure foreign =>
    apply hfed starts encodable
    rw [Child.talk_of_inTime answers, failure]
    exact unreachable_foreign h t foreign
  | @lost _ _ o encodable writes silent lost =>
    apply hfed writes.starts encodable
    rw [Child.talk_of_inTime writes.answers, writes.output]
    exact conclude_lost h t silent lost

theorem exists_settled (h : Handler)
    (hnone : ¬∃ f, Defeats (.build settings config file mode text) settings.timeout c f) :
    ∃ v, Decided (.build settings config file mode text) settings.timeout c v ∧
      Settles h config id (run h settings config file mode text c) v := by
  have encodable : c.refusal = none → ∃ bytes, Utf8.encode (text.getD []) = .ok bytes := by
    intro starts
    cases hbytes : Utf8.encode (text.getD []) with
    | ok bytes => exact ⟨bytes, rfl⟩
    | error fault => exact absurd ⟨_, .unfed starts hbytes⟩ hnone
  have system : ∀ f, c.Fails settings.timeout f → f.isSystem = true := by
    intro f fails
    by_contra hforeign
    have foreign := Bool.eq_false_iff.mpr hforeign
    cases fails with
    | refused refuses => exact hnone ⟨f, .unstarted refuses foreign⟩
    | broken starts answers failure =>
      obtain ⟨bytes, hbytes⟩ := encodable starts
      exact hnone ⟨f, .broken hbytes starts answers failure foreign⟩
  -- Late, failed or answered: a verdict is missing for a lost report only.
  have hdecided : ∃ v, Decided (.build settings config file mode text) settings.timeout c v := by
    rcases c.lags_or_fails_or_writes settings.timeout with lags | ⟨f, fails⟩ | ⟨o, writes⟩
    · exact ⟨_, .late lags⟩
    · cases hexpires : f.isTimeout with
      | true => exact ⟨_, .timedOut fails hexpires⟩
      | false => exact ⟨_, .unreachable fails hexpires⟩
    · by_cases silent : ProcessOutput.decoded o.stderr = []
      · obtain ⟨bytes, hbytes⟩ := encodable writes.starts
        cases hread : (Report.read (Utf8.decodeReplacing o.stdout)).result with
        | error f =>
          have lost := Report.read_error_iff.mp hread
          exact absurd ⟨f, .lost hbytes writes silent lost⟩ hnone
        | ok report =>
          cases report with
          | unreadable reason => exact ⟨_, .unreadable writes silent hread⟩
          | readable diagnostics fix => exact ⟨_, .readable writes silent hread⟩
      · exact ⟨_, .noisy writes silent⟩
  obtain ⟨v, hv⟩ := hdecided
  exact ⟨v, hv, settles_course h settings config file mode text c encodable system hv⟩

/-- A calm host lets a run end with the outcome of its verdict. -/
theorem ending_of_calm (calm : h.Calm) (v : Verdict) :
    ending h config v = .ok (v.outcome config) := by
  have hcalm : v.faults.findSome? (fun f => h.callback.bind fun callback => callback f) = none := by
    apply List.findSome?_eq_none_iff.mpr
    intro f _
    cases hcallback : h.callback with
    | none => rfl
    | some callback =>
      cases hf : callback f with
      | none => exact hf
      | some failure => exact absurd ⟨callback, f, hcallback, hf⟩ (calm failure)
  unfold ending
  rw [hcalm]

theorem Decided.understood {i : Invocation} {timeout : Float} {diagnostics : List Diagnostic}
    {fix : Option Text} (hv : Decided i timeout c (.report diagnostics fix)) :
    ∃ o, Understood timeout c diagnostics fix o := by
  cases hv with
  | readable writes silent read => exact ⟨_, writes, silent, read⟩

end Runs

/-- A run fails exactly if something defeats it, and then tells nobody.  Otherwise it returns: with
what the report says, and no fault, where the child has written a report in time and nothing on the
error stream; and in every other case with a failed outcome, and one fault with the reason. -/
theorem run_returns_iff (h : Handler) (calm : h.Calm) (settings : LinterSettings)
    (config file : Path) (mode : RunMode) (text : Option Text) (c : Child) :
    let i := Invocation.build settings config file mode text
    let timeout := settings.timeout
    let x := run h settings config file mode text c
    (∀ f, x.result = .error f ↔ Defeats i timeout c f) ∧
    (∀ f, Defeats i timeout c f → x.effects.filter (hands h) = []) ∧
    ((¬∃ f, Defeats i timeout c f) →
      (∀ diagnostics fix o, Understood timeout c diagnostics fix o →
        x.result = .ok (.ofReport diagnostics fix (some config)) ∧
        x.effects.filter (hands h) = []) ∧
      ((¬∃ diagnostics fix o, Understood timeout c diagnostics fix o) →
        ∃ f, x.result = .ok (.failed f.message (some config)) ∧
          x.effects.filter (hands h) = [handing h f])) := by
  intro i timeout x
  -- An undefeated run comes to a verdict, and a calm handler leaves it as it is.
  have hreturns (hnone : ¬∃ f, Defeats i timeout c f) : ∃ v, Decided i timeout c v ∧
      x.result = .ok (v.outcome config) ∧
      x.effects.filter (hands h) = v.faults.map (handing h) := by
    obtain ⟨v, hv, settles⟩ := exists_settled h hnone
    have hending := settles.ending
    rw [ending_of_calm calm] at hending
    exact ⟨v, hv, hending, settles.handed⟩
  refine ⟨?_, fun f defeats => defeats.failsSilently.silent, ?_⟩
  · intro f
    constructor
    · intro hf
      by_contra hundefeated
      have hnone : ¬∃ g, Defeats i timeout c g := by
        rintro ⟨g, defeats⟩
        have silently := defeats.failsSilently (h := h)
        obtain rfl : f = g := Except.error.inj (hf.symm.trans silently.fails)
        exact hundefeated defeats
      obtain ⟨v, -, hresult, -⟩ := hreturns hnone
      cases hf.symm.trans hresult
    · intro defeats
      exact defeats.failsSilently.fails
  · intro hnone
    obtain ⟨v, hv, hresult, hhanded⟩ := hreturns hnone
    constructor
    · intro diagnostics fix o understood
      obtain rfl := hv.unique (.readable understood.writes understood.silent understood.read)
      exact ⟨hresult, hhanded⟩
    · intro hnot
      cases v with
      | fault f => exact ⟨f, hresult, hhanded⟩
      | report diagnostics fix => exact absurd ⟨_, _, hv.understood⟩ hnot

/-- Where the linter is not there, the run returns and hands one fault over. -/
theorem run_returns_absent :
    let absent : Failure := .system (.notFound "/bin/eslint")
    let c : Child := ⟨some absent, .output ⟨none, [], []⟩, .never, false, false⟩
    let x := run .recording .defaults (Path.ofString "/p/eslint.config.js")
      (Path.ofString "/p/a.js") .diagnose none c
    Handler.recording.Calm ∧ ∃ f, x.result =
        .ok (.failed f.message (some (Path.ofString "/p/eslint.config.js"))) ∧
      x.effects.filter (hands .recording) = [.report f] := by
  intro absent c x
  obtain ⟨-, -, hreturns⟩ := run_returns_iff .recording Handler.calm_recording .defaults
    (Path.ofString "/p/eslint.config.js") (Path.ofString "/p/a.js") .diagnose none c
  refine ⟨Handler.calm_recording, (hreturns ?_).2 ?_⟩
  · rintro ⟨f, defeats⟩
    cases defeats with
    | unstarted refuses foreign =>
      cases refuses
      cases foreign
    | unfed starts | broken _ starts => cases starts
    | lost _ writes => cases writes.starts
  · rintro ⟨diagnostics, fix, o, understood⟩
    cases understood.writes.starts

/-- A talk that fails for a reason that is not one of the operating system gets out of the run. -/
theorem run_raises_foreign :
    let c : Child := ⟨none, .failure (.raised .runtime "boom"), .after 0, false, false⟩
    let x := run .recording .defaults (Path.ofString "/p/eslint.config.js")
      (Path.ofString "/p/a.js") .diagnose none c
    Handler.recording.Calm ∧ x.result = .error (.raised .runtime "boom") ∧
      x.effects.filter (hands .recording) = [] := by
  intro c x
  have encodable : Utf8.encode [] = .ok [] := rfl
  have answers : c.InTime LinterSettings.defaults.timeout := ⟨0, rfl, .inl (by decide +kernel)⟩
  have silently : FailsSilently .recording x (.raised .runtime "boom") :=
    Defeats.failsSilently (.broken encodable rfl answers rfl rfl)
  exact ⟨Handler.calm_recording, silently.fails, silently.silent⟩

end EditorLint.Runner
