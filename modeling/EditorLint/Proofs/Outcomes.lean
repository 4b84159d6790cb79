import EditorLint.Proofs.FixCourse

/-!
# What comes of a request

Where the settings are loaded, a request comes to an outcome that the search, the child and its
report decide (`Request.Comes`): there is nothing to show without a configuration, what the
report finds is shown if the child delivers one, and every other course of things is a failure
with a reason.  A request whose host takes every fault well always comes to one
(`Request.exists_comes`).
-/

namespace EditorLint

/-! ## What a child delivers -/

/-- A talk ends with a report that can be used: the child has answered, it was silent on the error
stream, and the report is accepted. -/
inductive Delivers : TalkEnd → List Diagnostic → Option Text → Prop where
  | of_report {o : ProcessOutput} {diagnostics : List Diagnostic} {fix : Option Text}
    (silent : ProcessOutput.decoded o.stderr = [])
    (accepted : (Report.read (Utf8.decodeReplacing o.stdout)).result =
      .ok (.readable diagnostics fix)) :
    Delivers (.replied (.output o)) diagnostics fix

/-- A child can be started, and delivers a report in time. -/
structure Child.Serves (c : Child) (timeout : Float) (diagnostics : List Diagnostic)
    (fix : Option Text) : Prop where
  starts : c.refusal = none
  delivers : Delivers (c.talk timeout) diagnostics fix

def Report.delivered : Report → Option (List Diagnostic × Option Text)
  | .unreadable _ => none
  | .readable diagnostics fix => some (diagnostics, fix)

/-- A child that answers at once and ends with a status, having written a report. -/
def Child.answering (status : Int) (report : String) : Child :=
  ⟨none, .output ⟨some status, report.toUTF8.toList, []⟩, .after 0, true, false⟩

theorem Child.serves_answering {status : Int} {report : String} {diagnostics : List Diagnostic}
    {fix : Option Text} (timeout : Float)
    (h : (Report.read (Utf8.decodeReplacing report.toUTF8.toList)).result.toOption.bind
      Report.delivered = some (diagnostics, fix)) :
    (answering status report).Serves timeout diagnostics fix := by
  refine ⟨rfl, ?_⟩
  have hzero : ((0 : Float) ≤ 0 || (0 : Float) ≤ timeout) = true := by
    rw [Bool.or_eq_true]
    exact .inl (by decide +kernel)
  have htalk : (answering status report).talk timeout =
      .replied (.output ⟨some status, report.toUTF8.toList, []⟩) := by
    show (if (0 : Float) ≤ 0 || (0 : Float) ≤ timeout then _ else TalkEnd.outOfTime) = _
    rw [if_pos hzero]
    rfl
  rw [htalk]
  refine .of_report (ProcessOutput.decoded_eq_nil.mpr rfl) ?_
  cases hread : (Report.read (Utf8.decodeReplacing report.toUTF8.toList)).result with
  | error f =>
    rw [hread] at h
    cases h
  | ok r =>
    rw [hread] at h
    cases r with
    | unreadable reason => cases h
    | readable ds fix' =>
      cases h
      rfl

theorem Delivers.unique {e : TalkEnd} {ds ds' : List Diagnostic} {fix fix' : Option Text}
    (h : Delivers e ds fix) (h' : Delivers e ds' fix') : ds = ds' ∧ fix = fix' := by
  cases h with
  | of_report _ haccepted =>
    cases h' with
    | of_report _ haccepted' =>
      rw [haccepted] at haccepted'
      cases haccepted'
      exact ⟨rfl, rfl⟩

namespace Outcome

theorem diagnostics_ofReport (diagnostics : List Diagnostic) (fix : Option Text)
    (config : Option Path) : (ofReport diagnostics fix config).diagnostics = diagnostics := by
  unfold ofReport
  split
  · rename_i h
    rw [Bool.and_eq_true] at h
    exact (List.isEmpty_iff.mp h.1).symm
  · rfl

theorem config_ofReport (diagnostics : List Diagnostic) (fix : Option Text)
    (config : Option Path) : (ofReport diagnostics fix config).config = config := by
  unfold ofReport
  split <;> rfl

/-- An outcome shows what a report says, and is empty if that is nothing. -/
structure Shows (o : Outcome) (found : List Diagnostic) (proposed : Option Text)
    (used : Option Path) : Prop where
  diagnostics : o.diagnostics = found
  fix : o.fix = proposed
  error : o.error = none
  config : o.config = used
  status : o.status = if found = [] ∧ proposed = none then "empty" else "ok"

theorem shows_ofReport (diagnostics : List Diagnostic) (fix : Option Text)
    (config : Option Path) :
    (ofReport diagnostics fix config).Shows diagnostics fix config where
  diagnostics := diagnostics_ofReport diagnostics fix config
  fix := fix_ofReport diagnostics fix config
  error := by
    unfold ofReport
    split <;> rfl
  config := config_ofReport diagnostics fix config
  status := by
    have hnothing : (diagnostics.isEmpty && fix.isNone) = true ↔ diagnostics = [] ∧ fix = none := by
      simp
    by_cases h : diagnostics = [] ∧ fix = none
    · rw [if_pos h, ofReport, if_pos (hnothing.mpr h)]
      rfl
    · rw [if_neg h, ofReport, if_neg (mt hnothing.mp h)]
      rfl

end Outcome

namespace Runner

variable {h : Handler} {o : Outcome} {e : TalkEnd} {diagnostics : List Diagnostic}
  {fix : Option Text}

theorem putDown_ok (w : WaitEnd) (exited : Bool) : (putDown w exited).result = .ok () := by
  unfold putDown
  cases w.kills exited <;> rfl

theorem failed_of_failed {config : Path} {f : Fault} (hf : (failed h config f).result = .ok o) :
    ∃ reason, o = .failed reason (some config) := by
  obtain ⟨_, -, hf⟩ := Action.result_bind hf
  cases hf
  exact ⟨_, rfl⟩

theorem failed_of_unreachable {t : Talk} {f : Failure} (hu : (unreachable h t f).result = .ok o) :
    ∃ reason, o = .failed reason (some t.config) := by
  unfold unreachable at hu
  split at hu
  · exact failed_of_failed hu
  · split at hu
    · exact failed_of_failed hu
    · cases hu

theorem failed_of_start {settings : LinterSettings} {config file : Path} {mode : RunMode}
    {text : Option Text} {child : Child} {f : Failure} (hchild : child.refusal = some f)
    {progress : Progress Talk Outcome}
    (hs : (start h settings config file mode text child).result = .ok progress) :
    ∃ reason, progress = .done (.failed reason (some config)) := by
  unfold start at hs
  obtain ⟨_, -, hs⟩ := Action.result_bind hs
  obtain ⟨refused, hrefused, hs⟩ := Action.result_bind hs
  rcases Action.result_recover hrefused with hr | ⟨e, -, hr⟩
  · obtain ⟨_, hspawn, -⟩ := Action.result_bind hr
    rw [hchild] at hspawn
    cases hspawn
  · obtain ⟨outcome, hu, hr⟩ := Action.result_bind hr
    cases hr
    obtain ⟨reason, rfl⟩ := failed_of_unreachable hu
    cases hs
    exact ⟨reason, rfl⟩

theorem resume_of_delivers (h : Handler) (t : Talk) (hd : Delivers e diagnostics fix) :
    (resume h t e).result = .ok (.ofReport diagnostics fix (some t.config)) := by
  obtain ⟨hsilent, haccepted⟩ := hd
  rename_i output
  show (conclude h t output).result = _
  unfold conclude
  simp only [hsilent, List.isEmpty_nil, Bool.not_true, Bool.false_eq_true, if_false]
  show ((Action.ofLogged (Report.read (Utf8.decodeReplacing output.stdout))).bind _).result = _
  unfold Action.bind Action.ofLogged
  rw [haccepted]
  rfl

/-- Without one the run fails: the child was not silent, or its report is not accepted. -/
theorem failed_of_conclude {t : Talk} {output : ProcessOutput}
    (hc : (conclude h t output).result = .ok o)
    (hnone : ∀ diagnostics fix, ¬Delivers (.replied (.output output)) diagnostics fix) :
    ∃ reason, o = .failed reason (some t.config) := by
  unfold conclude at hc
  obtain ⟨_, -, hc⟩ := Action.result_bind hc
  cases hsilent : ProcessOutput.decoded output.stderr with
  | cons c cs =>
    simp only [hsilent, List.isEmpty_cons, Bool.not_false, if_true] at hc
    exact failed_of_failed hc
  | nil =>
    simp only [hsilent, List.isEmpty_nil, Bool.not_true, Bool.false_eq_true, if_false] at hc
    obtain ⟨report, hreport, hc⟩ := Action.result_bind hc
    cases report with
    | unreadable reason => exact failed_of_failed hc
    | readable diagnostics fix => exact absurd (.of_report hsilent hreport) (hnone _ _)

theorem failed_of_resume {t : Talk} (hr : (resume h t e).result = .ok o)
    (hnone : ∀ diagnostics fix, ¬Delivers e diagnostics fix) :
    ∃ reason, o = .failed reason (some t.config) := by
  unfold resume at hr
  split at hr
  · rename_i output hcollect
    obtain rfl := replied_of_collect hcollect
    exact failed_of_conclude hr hnone
  · exact failed_of_unreachable hr

end Runner

namespace Request

/-! ## The outcome of a request -/

/-- What a request for a document comes to that has loaded the settings. -/
inductive Comes (m : Machine) (s : LinterSettings) (path : Path) (child : Child) :
    Outcome → Prop where
  | unlocated (search : located m s path = .ok none) : Comes m s path child (.empty none)
  | delivered {config : Path} {diagnostics : List Diagnostic} {fix : Option Text}
    (search : located m s path = .ok (some config))
    (serves : child.Serves s.timeout diagnostics fix) :
    Comes m s path child (.ofReport diagnostics fix (some config))
  | undelivered {config : Path} (search : located m s path = .ok (some config))
    (fails : ∀ diagnostics fix, ¬child.Serves s.timeout diagnostics fix) (reason : Text)
    {known : Option Path} (hknown : known = none ∨ known = some config) :
    Comes m s path child (.failed reason known)
  | unsearched {f : Failure} (search : located m s path = .error f) (reason : Text) :
    Comes m s path child (.failed reason none)

variable {h : Handler} {m : Machine} {s : LinterSettings} {task : Task} {path : Path}
  {text : Text} {child : Child} {o : Outcome}

theorem failed_of_unforeseen {f : Failure} (hu : (unforeseen h path f).result = .ok o) :
    ∃ reason, o = .failed reason none := by
  obtain ⟨_, -, hu⟩ := Action.result_bind hu
  obtain ⟨_, -, hu⟩ := Action.result_bind hu
  cases hu
  exact ⟨_, rfl⟩

/-- What the first part of a request comes to: it is over if there is no configuration or something
has gone wrong, and waits for the child otherwise. -/
inductive Opens (m : Machine) (s : LinterSettings) (path : Path) (child : Child) :
    Progress Runner.Talk Outcome → Prop where
  | done {o : Outcome} (comes : Comes m s path child o) : Opens m s path child (.done o)
  | waits {t : Runner.Talk} (search : located m s path = .ok (some t.config))
    (starts : child.refusal = none) (limit : t.timeout = s.timeout) :
    Opens m s path child (.waiting t)

section Launch

variable {mode : RunMode} {input : Option Text} {bytes : List UInt8}
  (hinput : Utf8.encode (input.getD []) = .ok bytes)
include hinput

/-- A child that can be started is waited for; one that cannot fails the request, at once or in
the end. -/
theorem opens_of_launch {progress : Progress Runner.Talk Outcome}
    (hl : (launch h m s path mode input child).result = .ok progress) :
    Opens m s path child progress := by
  cases search : located m s path with
  | error f =>
    rw [launch_unsearched search] at hl
    cases hl
  | ok found =>
    cases found with
    | none =>
      rw [launch_unlocated search] at hl
      cases hl
      exact .done (.unlocated search)
    | some config =>
      rw [launch_located search] at hl
      cases hchild : child.refusal with
      | none =>
        rw [Runner.start_fed hchild hinput] at hl
        cases hl
        exact .waits search hchild rfl
      | some f =>
        obtain ⟨reason, rfl⟩ := Runner.failed_of_start hchild hl
        have hfails (diagnostics : List Diagnostic) (fix : Option Text) :
            ¬child.Serves s.timeout diagnostics fix := by
          intro hserves
          rw [hserves.starts] at hchild
          cases hchild
        exact .done (.undelivered search hfails reason (.inr rfl))

/-- A launch fails where the search does, or where the child cannot be started. -/
theorem comes_of_launch_error {f : Failure}
    (hl : (launch h m s path mode input child).result = .error f) (reason : Text) :
    Comes m s path child (.failed reason none) := by
  cases search : located m s path with
  | error f => exact .unsearched search reason
  | ok found =>
    cases found with
    | none =>
      rw [launch_unlocated search] at hl
      cases hl
    | some config =>
      refine .undelivered search (fun diagnostics fix hserves => ?_) reason (.inl rfl)
      rw [launch_located search, Runner.start_fed hserves.starts hinput] at hl
      cases hl

end Launch

theorem opens_of_begin (hasked : task = .willSave → s.fixOnSave = true)
    (hencodable : task.isFix = true → ∃ bytes, Utf8.encode text = .ok bytes)
    {progress : Progress (LinterSettings × Runner.Talk) Outcome}
    (hb : (begin h m (.ok s) task path text child).result = .ok progress) :
    (∃ o, progress = .done o ∧ Comes m s path child o) ∨
      ∃ t, progress = .waiting (s, t) ∧ Opens m s path child (.waiting t) := by
  have hinput : ∃ bytes, Utf8.encode ((input task text).getD []) = .ok bytes := by
    unfold input
    cases hfix : task.isFix with
    | true => exact hencodable hfix
    | false => exact ⟨[], rfl⟩
  obtain ⟨bytes, hinput⟩ := hinput
  have hdo : ¬(task = .willSave ∧ (!s.fixOnSave) = true) := by
    rintro ⟨ht, hs⟩
    simp [hasked ht] at hs
  unfold begin at hb
  obtain ⟨known, hknown, hb⟩ := Action.result_bind hb
  obtain rfl : some s = known := Except.ok.inj hknown
  simp only [hdo, if_false] at hb
  obtain ⟨opened, hopened, hb⟩ := Action.result_bind hb
  have hopens : Opens m s path child opened := by
    rcases Action.result_recover hopened with hl | ⟨f, hl, hr⟩
    · exact opens_of_launch hinput hl
    · obtain ⟨o, hu, hr⟩ := Action.result_bind hr
      cases hr
      obtain ⟨reason, rfl⟩ := failed_of_unforeseen hu
      exact .done (comes_of_launch_error hinput hl reason)
  cases opened with
  | done o =>
    cases hb
    cases hopens with
    | done comes => exact .inl ⟨o, rfl, comes⟩
  | waiting t =>
    cases hb
    exact .inr ⟨t, rfl, hopens⟩

theorem comes_of_proceed {t : Runner.Talk} (hopens : Opens m s path child (.waiting t))
    (hp : (proceed h path t (child.talk t.timeout)).result = .ok o) :
    Comes m s path child o := by
  cases hopens with
  | waits search starts limit =>
    by_cases hserves : ∃ diagnostics fix, child.Serves s.timeout diagnostics fix
    · obtain ⟨diagnostics, fix, hserves⟩ := hserves
      have hdelivers := hserves.delivers
      rw [← limit] at hdelivers
      have hresume := Runner.resume_of_delivers h t hdelivers
      unfold proceed Action.recover at hp
      rw [hresume] at hp
      dsimp only at hp
      rw [hresume] at hp
      cases hp
      exact .delivered search hserves
    · have hnone (diagnostics : List Diagnostic) (fix : Option Text) :
          ¬child.Serves s.timeout diagnostics fix := fun hs => hserves ⟨diagnostics, fix, hs⟩
      have hdelivers (diagnostics : List Diagnostic) (fix : Option Text) :
          ¬Delivers (child.talk t.timeout) diagnostics fix := by
        intro hd
        rw [limit] at hd
        exact hnone diagnostics fix ⟨starts, hd⟩
      rcases Action.result_recover hp with hr | ⟨f, -, hu⟩
      · obtain ⟨reason, rfl⟩ := Runner.failed_of_resume hr hdelivers
        exact .undelivered search hnone reason (.inr rfl)
      · obtain ⟨reason, rfl⟩ := failed_of_unforeseen hu
        exact .undelivered search hnone reason (.inl rfl)

/-- A request whose host takes every fault well comes to an outcome, whatever the search and the
child do. -/
theorem exists_comes (hcalm : h.Calm) (hasked : task = .willSave → s.fixOnSave = true)
    (hencodable : task.isFix = true → ∃ bytes, Utf8.encode text = .ok bytes) :
    ∃ o, (run h m (.ok s) task path text child).result = .ok o ∧ Comes m s path child o := by
  have hcomes {o : Outcome} (hr : (run h m (.ok s) task path text child).result = .ok o) :
      Comes m s path child o := by
    obtain ⟨progress, hbegun, hr⟩ := Action.result_bind hr
    rcases opens_of_begin hasked hencodable hbegun with ⟨o', rfl, hover⟩ | ⟨t, rfl, hopens⟩
    · cases hr
      exact hover
    · obtain ⟨_, -, hr⟩ := Action.result_bind hr
      exact comes_of_proceed hopens hr
  cases hr : (run h m (.ok s) task path text child).result with
  | ok o => exact ⟨o, rfl, hcomes hr⟩
  | error f =>
    rcases Action.error_bind hr with hb | ⟨progress, -, hp⟩
    · rcases begin_error hb with hraises | ⟨hloaded, -⟩
      · exact absurd hraises (hcalm f)
      · cases hloaded
    · cases progress with
      | done o => cases hp
      | waiting w =>
        rcases Action.error_bind hp with hput | ⟨_, -, hp⟩
        · cases (Runner.putDown_ok _ _).symm.trans hput
        · exact absurd (raises_of_proceed hp) (hcalm f)

/-! ## What an outcome tells about its request -/

theorem Comes.located_of_config (hc : Comes m s path child o) {config : Path}
    (hconfig : o.config = some config) : located m s path = .ok (some config) := by
  cases hc with
  | unlocated | unsearched => cases hconfig
  | delivered search =>
    rw [Outcome.config_ofReport] at hconfig
    exact hconfig ▸ search
  | undelivered search _ _ hknown =>
    rcases hknown with rfl | rfl
    · cases hconfig
    · cases hconfig
      exact search

theorem Comes.of_serves (hc : Comes m s path child o) {config : Path}
    {diagnostics : List Diagnostic} {fix : Option Text}
    (search : located m s path = .ok (some config))
    (serves : child.Serves s.timeout diagnostics fix) :
    o = .ofReport diagnostics fix (some config) := by
  cases hc with
  | unlocated search' | unsearched search' =>
    rw [search] at search'
    cases search'
  | delivered search' serves' =>
    rw [search] at search'
    cases search'
    obtain ⟨rfl, rfl⟩ := serves.delivers.unique serves'.delivers
    rfl
  | undelivered _ fails => exact absurd serves (fails _ _)

theorem Comes.located_of_diagnostics (hc : Comes m s path child o) (hsome : o.diagnostics ≠ []) :
    ∃ config diagnostics fix, located m s path = .ok (some config) ∧
      child.Serves s.timeout diagnostics fix ∧ o = .ofReport diagnostics fix (some config) := by
  cases hc with
  | delivered search serves => exact ⟨_, _, _, search, serves, rfl⟩
  | unlocated | undelivered | unsearched => exact absurd rfl hsome

end Request

end EditorLint
