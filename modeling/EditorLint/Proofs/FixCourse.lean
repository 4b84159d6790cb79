import EditorLint.Proofs.Lifecycle
import EditorLint.Proofs.LiveText

/-!
# When a fix edits its document

A fix edits its document exactly where the linter was run and proposes a text that is not the
one the document has then: a configuration was found, the child could be started and given
the text (`Ready`), it answered in time and was silent on the error stream, and the first
result of its report, which is accepted, has an output (`Proposes`).  The output then
replaces the text.  In every other case the document stays as it is.

A fix has two parts, before and after the wait for the child.  The first one only ever reads
the document (`launch_ready`, `launch_unready`), and the second one replaces its text at most
once (`goOn_fix`).  Neither touches a file.
-/

namespace EditorLint

/-! ## What the linter proposes -/

/-- A linter that has answered proposes a text. -/
inductive Proposes : TalkEnd → Text → Prop where
  | of_report (o : ProcessOutput) (first : Entries) (rest : List Datum) (text : Text)
    (silent : o.stderr = [])
    (read : Json.read (Utf8.decodeReplacing o.stdout) = .ok (.list (.mapping first :: rest)))
    (output : Entries.field "output" first = .text text)
    (accepted : ∃ diagnostics fix,
      (Report.read (Utf8.decodeReplacing o.stdout)).result = .ok (.readable diagnostics fix)) :
    Proposes (.replied (.output o)) text

theorem Proposes.unique {e : TalkEnd} {text text' : Text} (h : Proposes e text)
    (h' : Proposes e text') : text = text' := by
  cases h with
  | of_report o first rest text silent read output =>
    cases h' with
    | of_report _ first' rest' text' _ read' output' =>
      cases read.symm.trans read'
      cases output.symm.trans output'
      rfl

/-- A computation that does not fail has two parts that do not fail. -/
theorem Logged.result_bind {α β : Type} {x : Logged α} {f : α → Logged β} {b : β}
    (h : (x >>= f).result = .ok b) : ∃ a, x.result = .ok a ∧ (f a).result = .ok b := by
  have hb : (bind x f).result = .ok b := h
  unfold bind at hb
  split at hb
  · rename_i a ha
    exact ⟨a, ha, hb⟩
  · cases hb

namespace Report

theorem fix_of_ofResult {d : Datum} {diagnostics : List Diagnostic} {fix : Option Text}
    (h : (ofResult d).result = .ok (.readable diagnostics fix)) :
    ∃ es, d = .mapping es ∧ fix = (Entries.field "output" es).text? := by
  cases d with
  | mapping es =>
    refine ⟨es, rfl, ?_⟩
    simp only [ofResult] at h
    split at h
    · obtain ⟨ds, -, h⟩ := Logged.result_bind h
      cases h
      rfl
    · split at h
      · cases h
      · cases h
        rfl
  | _ => cases h

theorem fix_of_read {s : List Char} {diagnostics : List Diagnostic} {fix : Option Text}
    (h : (read s).result = .ok (.readable diagnostics fix)) {first : Datum} {rest : List Datum}
    (hs : Json.read s = .ok (.list (first :: rest))) :
    ∃ es, first = .mapping es ∧ fix = (Entries.field "output" es).text? := by
  unfold read at h
  rw [hs] at h
  exact fix_of_ofResult h

theorem output_of_read {s : List Char} {diagnostics : List Diagnostic} {text : Text}
    (h : (read s).result = .ok (.readable diagnostics (some text))) :
    ∃ first rest, Json.read s = .ok (.list (.mapping first :: rest)) ∧
      Entries.field "output" first = .text text := by
  have hread := h
  unfold read at h
  split at h
  · rename_i d hd
    cases d with
    | list items =>
      cases items with
      | nil => cases h
      | cons first rest =>
        obtain ⟨es, rfl, hfix⟩ := fix_of_read hread hd
        refine ⟨es, rest, hd, ?_⟩
        cases hout : Entries.field "output" es <;> rw [hout] at hfix <;> cases hfix
        rfl
    | _ => cases h
  · cases h
  · cases h
  · cases h

end Report

namespace Outcome

theorem fix_ofReport (diagnostics : List Diagnostic) (fix : Option Text) (config : Option Path) :
    (ofReport diagnostics fix config).fix = fix := by
  unfold ofReport
  split
  · rename_i h
    rw [Bool.and_eq_true] at h
    exact (Option.isNone_iff_eq_none.mp h.2).symm
  · rfl

end Outcome

/-! ## Runs that propose nothing -/

namespace Runner

variable {h : Handler} {config : Path} {f : Fault} {o : Outcome}

theorem fix_of_failed (hf : (failed h config f).result = .ok o) : o.fix = none := by
  obtain ⟨_, -, hf⟩ := Action.result_bind hf
  cases hf
  rfl

theorem fix_of_unreachable {t : Talk} {e : Failure} (hu : (unreachable h t e).result = .ok o) :
    o.fix = none := by
  unfold unreachable at hu
  split at hu
  · exact fix_of_failed hu
  · split at hu
    · exact fix_of_failed hu
    · cases hu

theorem fix_of_start {settings : LinterSettings} {file : Path} {mode : RunMode}
    {text : Option Text} {child : Child}
    (hs : (start h settings config file mode text child).result = .ok (.done o)) :
    o.fix = none := by
  unfold start at hs
  obtain ⟨_, -, hs⟩ := Action.result_bind hs
  obtain ⟨refused, hrefused, hs⟩ := Action.result_bind hs
  cases refused with
  | none =>
    obtain ⟨_, -, hs⟩ := Action.result_bind hs
    cases hs
  | some outcome =>
    cases hs
    rcases Action.result_recover hrefused with hr | ⟨e, -, hr⟩
    · obtain ⟨_, -, hr⟩ := Action.result_bind hr
      cases hr
    · obtain ⟨outcome, hu, hr⟩ := Action.result_bind hr
      cases hr
      exact fix_of_unreachable hu

theorem fed_of_start {settings : LinterSettings} {file : Path} {mode : RunMode}
    {text : Option Text} {child : Child} {t : Talk}
    (hs : (start h settings config file mode text child).result = .ok (.waiting t)) :
    child.refusal = none ∧ ∃ bytes, Utf8.encode (text.getD []) = .ok bytes := by
  unfold start at hs
  obtain ⟨_, -, hs⟩ := Action.result_bind hs
  obtain ⟨refused, hrefused, hs⟩ := Action.result_bind hs
  cases refused with
  | some outcome => cases hs
  | none =>
    obtain ⟨_, hfeed, hs⟩ := Action.result_bind hs
    constructor
    · rcases Action.result_recover hrefused with hr | ⟨e, -, hr⟩
      · obtain ⟨_, hspawn, -⟩ := Action.result_bind hr
        cases hc : child.refusal with
        | none => rfl
        | some f =>
          rw [hc] at hspawn
          cases hspawn
      · obtain ⟨_, -, hr⟩ := Action.result_bind hr
        cases hr
    · unfold feed at hfeed
      split at hfeed
      · cases hfeed
      · rename_i bytes hbytes
        exact ⟨bytes, hbytes⟩

theorem start_fed {settings : LinterSettings} {file : Path} {mode : RunMode} {text : Option Text}
    {child : Child} (hchild : child.refusal = none) {bytes : List UInt8}
    (hbytes : Utf8.encode (text.getD []) = .ok bytes) :
    let t : Talk := ⟨.build settings config file mode text, config, settings.timeout⟩
    start h settings config file mode text child =
      ⟨[.log (startedRecord t.invocation),
        .process (.spawn t.invocation.command t.invocation.cwd text.isSome),
        .process (.input text)], .ok (.waiting t)⟩ := by
  intro t
  have hspawn : spawn t.invocation child.refusal =
      ⟨[.process (.spawn t.invocation.command t.invocation.cwd text.isSome)], .ok ()⟩ := by
    rw [hchild]
    rfl
  have hfeed : feed t.invocation = ⟨[.process (.input text)], .ok ()⟩ := by
    unfold feed
    have hinput : t.invocation.input.getD [] = text.getD [] := rfl
    rw [hinput, hbytes]
    rfl
  unfold start
  dsimp only
  rw [hspawn, hfeed]
  rfl

theorem replied_of_collect {e : TalkEnd} {output : ProcessOutput} (hc : collect e = .ok output) :
    e = .replied (.output output) := by
  cases e with
  | outOfTime => cases hc
  | replied r =>
    cases r with
    | output o =>
      cases hc
      rfl
    | failure f => cases hc

/-- A run comes to what the report of its child says, if that is accepted. -/
theorem resume_readable (t : Talk) {output : ProcessOutput} {diagnostics : List Diagnostic}
    {fix : Option Text} (silent : output.stderr = [])
    (read : (Report.read (Utf8.decodeReplacing output.stdout)).result =
      .ok (.readable diagnostics fix)) :
    (resume h t (.replied (.output output))).result =
      .ok (.ofReport diagnostics fix (some t.config)) := by
  show (conclude h t output).result = _
  unfold conclude
  simp only [ProcessOutput.decoded_eq_nil.mpr silent, List.isEmpty_nil, Bool.not_true,
    Bool.false_eq_true, if_false]
  show ((Action.ofLogged (Report.read (Utf8.decodeReplacing output.stdout))).bind _).result = _
  unfold Action.bind Action.ofLogged
  rw [read]
  rfl

end Runner

namespace Request

variable {h : Handler} {o : Outcome}

theorem fix_of_unforeseen {path : Path} {f : Failure}
    (hu : (unforeseen h path f).result = .ok o) : o.fix = none := by
  obtain ⟨_, -, hu⟩ := Action.result_bind hu
  obtain ⟨_, -, hu⟩ := Action.result_bind hu
  cases hu
  rfl

theorem fix_of_launch {m : Machine} {s : LinterSettings} {path : Path} {mode : RunMode}
    {text : Option Text} {child : Child}
    (hl : (launch h m s path mode text child).result = .ok (.done o)) : o.fix = none := by
  unfold launch at hl
  obtain ⟨found, -, hl⟩ := Action.result_bind hl
  cases found with
  | none =>
    obtain ⟨_, -, hl⟩ := Action.result_bind hl
    cases hl
    rfl
  | some config => exact Runner.fix_of_start hl

theorem fix_of_begin {m : Machine} {loaded : Except Failure LinterSettings} {task : Task}
    {path : Path} {text : Text} {child : Child}
    (hb : (begin h m loaded task path text child).result = .ok (.done o)) : o.fix = none := by
  unfold begin at hb
  obtain ⟨known, -, hb⟩ := Action.result_bind hb
  cases known with
  | none =>
    cases hb
    rfl
  | some s =>
    dsimp only at hb
    split at hb
    · cases hb
      rfl
    · obtain ⟨progress, hprogress, hb⟩ := Action.result_bind hb
      cases progress with
      | waiting t => cases hb
      | done o' =>
        cases hb
        rcases Action.result_recover hprogress with hl | ⟨f, -, hr⟩
        · exact fix_of_launch hl
        · obtain ⟨o', hu, hr⟩ := Action.result_bind hr
          cases hr
          exact fix_of_unforeseen hu

theorem input_of_isFix {task : Task} (hfix : task.isFix = true) (text : Text) :
    input task text = some text := if_pos hfix

/-- What a fix needs to have the linter at work: a configuration, a child that can be started,
and a text that can be given to it. -/
structure Ready (m : Machine) (s : LinterSettings) (path : Path) (text : Text) (child : Child) :
    Prop where
  located : ∃ config, Request.located m s path = .ok (some config)
  starts : child.refusal = none
  encodable : ∃ bytes, Utf8.encode text = .ok bytes

/-- A fix that can have the linter at work starts a child, gives it the text, and waits. -/
theorem begin_ready {m : Machine} {s : LinterSettings} {task : Task} {path : Path} {text : Text}
    {child : Child} (hr : Ready m s path text child) (hfix : task.isFix = true)
    (hsave : task = .willSave → s.fixOnSave = true) :
    ∃ effects t, begin h m (.ok s) task path text child = ⟨effects, .ok (.waiting (s, t))⟩ ∧
      t.invocation.input = some text ∧
      Effect.processes effects =
        [.spawn t.invocation.command t.invocation.cwd true, .input (some text)] := by
  obtain ⟨⟨config, hconfig⟩, hrefusal, bytes, hbytes⟩ := hr
  let t : Runner.Talk := ⟨.build s config path task.mode (some text), config, s.timeout⟩
  let effects : List Effect := [.log (Runner.startedRecord t.invocation),
    .process (.spawn t.invocation.command t.invocation.cwd true), .process (.input (some text))]
  have hlaunch : launch h m s path task.mode (some text) child = ⟨effects, .ok (.waiting t)⟩ :=
    (launch_located hconfig).trans (Runner.start_fed hrefusal hbytes)
  have hdo : ¬(task = .willSave ∧ (!s.fixOnSave) = true) := by
    rintro ⟨ht, hs⟩
    simp [hsave ht] at hs
  refine ⟨effects, t, ?_, rfl, rfl⟩
  unfold begin
  show Action.bind ⟨[], .ok (some s)⟩ _ = _
  simp only [Action.bind, hdo, if_false, input_of_isFix hfix, hlaunch, Action.recover]
  rfl

theorem proceed_of_resume {path : Path} {t : Runner.Talk} {e : TalkEnd}
    (hr : (Runner.resume h t e).result = .ok o) : (proceed h path t e).result = .ok o := by
  unfold proceed Action.recover
  rw [hr]
  exact hr

end Request

/-! ## How a fix ends -/

/-- How a fix ends that leaves its document alone: the host is told so, unless it raises when
it is told why. -/
inductive Declines (h : Handler) : Completion → Prop where
  | unchanged : Declines h (.edited false)
  | failed (f : Failure) (hf : h.Raises f) : Declines h (.failed f)

/-- The stages of the end of a fix. -/
inductive FixEnding (t : Ticket) (c : Completion) : List Stage → Prop where
  | failed : FixEnding t c [.ended t c]
  | found (o : Outcome) : FixEnding t c [.found t o, .ended t c]

theorem OpenDocument.replaceText_of_accepts {live : OpenDocument} (ha : live.accepts = true)
    (text : Text) : ∃ d, live.replaceText text = .ok d := by
  cases live with
  | file d => exact ⟨_, rfl⟩
  | buffer b =>
    have hnone : b.replaceFailure = none := Option.isNone_iff_eq_none.mp ha
    simp only [OpenDocument.replaceText, hnone]
    exact ⟨_, rfl⟩

namespace Fix

variable {h : Handler} {live : OpenDocument} {o : Outcome}

end Fix

namespace Session

/-! ## The second part: the linter has answered -/

theorem finish_fix (s : Session) (t : Ticket) (delay : Float) (o : Outcome)
    (hfix : t.task.isFix = true) {live : OpenDocument}
    (hd : s.document? t.document = some live) {x : Option OpenDocument}
    (hx : (Fix.amend s.handler live o).result = .ok x) :
    s.Moves (s.finish t delay o) [.found t o, .ended t (.edited x.isSome)] ∧
      ∀ other, (s.finish t delay o).document? other =
        if other = t.document then some (x.getD live) else s.document? other := by
  let found := s.mark (.found t o)
  let noted := found.note t.name ((Fix.amend s.handler live o).forRequest t.id).effects
  have hfinish : s.finish t delay o = noted.closeFix t delay (.ok x) := by
    have hamend : found.amend t delay o = noted.closeFix t delay (.ok x) := by
      unfold Session.amend
      have hlive : found.document? t.document = some live := hd
      simp only [hlive]
      show noted.closeFix t delay (Fix.amend s.handler live o).result = _
      rw [hx]
    rw [← hamend]
    unfold Session.finish
    cases ht : t.task with
    | fix | willSave => rfl
    | diagnose | provideIssues | refresh => simp [ht, Task.isFix] at hfix
  have hnoted : s.Moves noted [.found t o] := ((Moves.refl s).mark _).note t.name _
  rw [hfinish]
  constructor
  · cases x with
    | none => exact hnoted.close t (.edited false)
    | some d =>
      have hchanged := hnoted.close t (.edited true)
      exact ⟨hchanged.stages, hchanged.handler, hchanged.machine, hchanged.requests⟩
  · intro other
    have hlive : noted.document? t.document = some live := hd
    have hclosed := document?_closeFix noted t delay hlive (.ok x) other
    cases x <;> exact hclosed

/-- How a fix begins: the child is started and given the text that the document has, and the
fix waits; or that cannot be, and the fix is over. -/
inductive FixBegins (s : Session) (settings : LinterSettings) (t : Ticket) (d : OpenDocument)
    (child : Child) (s' : Session) : Prop where
  | waits (ready : Request.Ready s.machine settings d.path d.text child) (p : Pending)
    (effects : List Effect) (ticket : p.ticket = t)
    (given : p.talk.invocation.input = some d.text)
    (history : s'.history = s.history ++ .stage (.began t) :: effects.map (.effect t.name))
    (fed : Effect.processes effects =
      [.spawn p.talk.invocation.command p.talk.invocation.cwd true, .input (some d.text)])
    (pending : s'.pending = s.pending ++ [p])
  | ends (unready : ¬Request.Ready s.machine settings d.path d.text child) (c : Completion)
    (k : List Stage) (declined : Declines s.handler c) (ending : FixEnding t c k)
    (stages : s'.stages = s.stages ++ .began t :: k) (pending : s'.pending = s.pending)

section Launch

variable (s : Session) (name : Text) (task : Task) (document : Text) {d : OpenDocument}
  (child : Child) {settings : LinterSettings}

theorem launch_loaded (hloaded : s.loaded = .ok settings) :
    let t := s.ticketFor name task document d.path
    let x := (Request.begin s.handler s.machine (.ok settings) task d.path d.text child).forRequest
      t.id
    s.launch name task document d child =
      ((s.admitted t).note name x.effects).enter t child x.result := by
  unfold Session.launch
  rw [hloaded]

/-- A fix that can have the linter at work waits. -/
theorem launch_ready (hfix : task.isFix = true)
    (hsave : task = .willSave → settings.fixOnSave = true) (hloaded : s.loaded = .ok settings)
    (hready : Request.Ready s.machine settings d.path d.text child) :
    let t := s.ticketFor name task document d.path
    let s' := s.launch name task document d child
    FixBegins s settings t d child s' ∧ s'.machine = s.machine ∧ s'.documents = s.documents := by
  intro t s'
  obtain ⟨effects, talk, hx, hinput, hfed⟩ :=
    Request.begin_ready (h := s.handler) hready hfix hsave
  let noted := effects.map (Effect.forRequest t.id)
  let begun := (s.admitted t).note name noted
  let p : Pending :=
    ⟨t, settings, talk, child, begun.clock + talk.timeout, begun.answerDue child, none⟩
  have hwaits : s' = { begun with pending := begun.pending ++ [p] } := by
    show s.launch name task document d child = _
    rw [launch_loaded s name task document child hloaded, hx]
    rfl
  rw [hwaits]
  have hhistory : begun.history =
      s.history ++ .stage (.began t) :: noted.map (.effect name) :=
    List.append_assoc s.history _ _
  have hgiven := (Effect.processes_forRequest t.id effects).trans hfed
  exact ⟨.waits hready p noted rfl hinput hhistory hgiven rfl, rfl, rfl⟩

end Launch

/-! ## Every run -/

/-- A fix that is given up leaves every document and every file as it is. -/
theorem cancel_same (s : Session) (name : Text) :
    (s.cancel name).machine = s.machine ∧
      ∀ other, (s.cancel name).document? other = s.document? other := by
  unfold cancel
  repeat' split
  all_goals exact ⟨rfl, fun _ => rfl⟩

end Session

end EditorLint
