import EditorLint.Session.Basic

/-!
# The course of a session

Requests run side by side: while one waits for its child, others begin and end, documents
are edited, and time passes.  `step` is what an event does to a session, up to the point
where nothing can go on without another event.

A child that is killed is waited for before its request goes on, or is given up.  Meanwhile
the request may be given up as well, and then the child is left behind.

Of the refresh requests for one path only the one that began last may publish.  A fix is
compared with the text that the document has when the linter has answered.  A document
that is fixed while it is being saved is saved again a little later.

Embedded: `refresh`, `fix` and `on_will_save` with `_fix`, and `schedule_save` with
`_deferred_save`; `run_process` where it waits.  Assumed of the loop: a task runs on until it waits
for its child, timers fire in the order of their times, and a child answers when it is said to.
-/

namespace EditorLint

/-- What can happen to a session. -/
inductive Event where
  | request (name : Text) (task : Task) (document : Text) (child : Child)
  | answer (name : Text) (child : Child)
  | died (name : Text)
  | cancel (name : Text)
  | advance (seconds : Float)
  | edit (document text : Text)
  | replace (document text : Text)
  | save (document : Text)
  | applyFix (document : Text) (fix : Option Text)
  | saveLater (name document : Text) (delay : Float)
  | settings (source : SettingsSource)
  | sink (failure : Option Failure)
  | issues (document : Text) (diagnostics : List Diagnostic)
  | files (files : FileSystem)

namespace Session

/-! ## The end of a request -/

/-- The end of a refresh that a newer one has overtaken. -/
def staleCompletion (t : Ticket) (o : Outcome) : Action Completion := do
  Action.log (.plain .debug Request.logger "lint_result_stale"
    [Request.pathField t.path, Log.field "token" (.int t.token)])
  return .outcome (.stale o.config)

/-- The end of a refresh whose issues could not be published. -/
def unpublishedCompletion (h : Handler) (t : Ticket) (o : Outcome) (f : Failure) :
    Action Completion := do
  Action.log (.ofFailure Request.logger "issue_publish_failed" [Request.pathField t.path] f)
  let fault := Fault.unexpected ("publishing issues failed: " ++ f.display) (Request.pathDetail t.path)
  h.report fault
  return .outcome (.failed fault.message o.config)

def isPublished : Outcome → Bool
  | .ok _ _ _ | .empty _ => true
  | _ => false

/-- The session in which a refresh has put its diagnostics on show. -/
def exhibit (s : Session) (t : Ticket) (diagnostics : List Diagnostic) : Session :=
  { s with issues := s.issues.set t.path diagnostics }.mark (.published t diagnostics)

/-- The end of a refresh that no newer one has overtaken: its diagnostics are published.
A failed one leaves what is on show. -/
def publishCurrent (s : Session) (t : Ticket) (o : Outcome) : Session :=
  match isPublished o, s.sinkFailure with
  | true, none => (s.exhibit t o.diagnostics).close t (.outcome o)
  | true, some f => s.conclude t (unpublishedCompletion s.handler t o f)
  | false, _ => s.close t (.outcome o)

/-- The end of a refresh: it is stale if a newer refresh for the path has begun. -/
def publish (s : Session) (t : Ticket) (o : Outcome) : Session :=
  if s.sequencer.isCurrent t.path t.token then
    { s with sequencer := s.sequencer.finish t.path t.token }.publishCurrent t o
  else s.conclude t (staleCompletion t o)

/-- The end of a fix that has changed its document, is not needed, or has failed.  A document
that is being saved is saved again after a delay. -/
def closeFix (s : Session) (t : Ticket) (delay : Float) :
    Except Failure (Option OpenDocument) → Session
  | .error f => s.close t (.failed f)
  | .ok none => s.close t (.edited false)
  | .ok (some d) =>
    let later : List DeferredSave :=
      if t.task.savesLater then [⟨none, t.document, some t.id, s.clock + delay⟩] else []
    { s.withDocument t.document d with saves := s.saves ++ later }.close t (.edited true)

/-- The end of a fix: the document gets the proposed text, if it differs from the one it
has now. -/
def amend (s : Session) (t : Ticket) (delay : Float) (o : Outcome) : Session :=
  match s.document? t.document with
  | none => s.close t (.edited false)
  | some d =>
    let x := (Fix.amend s.handler d o).forRequest t.id
    (s.note t.name x.effects).closeFix t delay x.result

/-- The end of a request whose outcome is known. -/
def finish (s : Session) (t : Ticket) (delay : Float) (o : Outcome) : Session :=
  let s := s.mark (.found t o)
  match t.task with
  | .diagnose => s.close t (.outcome o)
  | .provideIssues => s.close t (.issues o.diagnostics)
  | .refresh => s.publish t o
  | .fix _ | .willSave => s.amend t delay o

/-! ## The course of a request -/

/-- The token of a request that begins, and the sequencer after it.  Only refresh requests
are sequenced. -/
def tokenFor (s : Session) (task : Task) (path : Path) : Nat × Sequencer Path :=
  if task = .refresh then s.sequencer.begin path else (0, s.sequencer)

def ticketFor (s : Session) (name : Text) (task : Task) (document : Text) (path : Path) : Ticket :=
  ⟨name, task, document, path, RequestId.ofNumber (s.requests + 1), (s.tokenFor task path).1⟩

def admitted (s : Session) (t : Ticket) : Session :=
  { s with sequencer := (s.tokenFor t.task t.path).2, requests := s.requests + 1 }.mark (.began t)

/-- When a child that is started now will answer, if that is known. -/
def answerDue (s : Session) (child : Child) : Option Float :=
  match child.answer with
  | .after seconds => some (s.clock + seconds)
  | .never | .onRequest => none

/-- A request that has begun ends, or waits for its child.  Where it ends nothing is
proposed, so the delay of a save does not matter. -/
def enter (s : Session) (t : Ticket) (child : Child) :
    Except Failure (Progress (LinterSettings × Runner.Talk) Outcome) → Session
  | .error f => s.close t (.failed f)
  | .ok (.done o) => s.finish t 0 o
  | .ok (.waiting (settings, talk)) =>
    { s with pending := s.pending ++
        [⟨t, settings, talk, child, s.clock + talk.timeout, s.answerDue child, none⟩] }

def launch (s : Session) (name : Text) (task : Task) (document : Text) (d : OpenDocument)
    (child : Child) : Session :=
  let t := s.ticketFor name task document d.path
  let x := (Request.begin s.handler s.machine s.loaded task d.path d.text child).forRequest t.id
  ((s.admitted t).note name x.effects).enter t child x.result

/-- What a request does after the end of the talk with its child. -/
def proceed (s : Session) (p : Pending) (e : TalkEnd) : Action Outcome :=
  Action.forRequest p.ticket.id do
    p.reap
    Request.proceed s.handler p.ticket.path p.talk e

/-- A request goes on after the end of the talk with its child, which has been reaped if it was
killed. -/
def goOn (s : Session) (p : Pending) (e : TalkEnd) : Session :=
  let x := s.proceed p e
  let s := s.note p.ticket.name x.effects
  match x.result with
  | .error f => s.close p.ticket (.failed f)
  | .ok o => s.finish p.ticket p.settings.saveDelay o

/-- A request has been given up, and its child reaped if it was killed. -/
def giveUp (s : Session) (p : Pending) : Session :=
  (s.note p.ticket.name p.reap.effects).close p.ticket .cancelled

/-- A request whose wait is over leaves its child. -/
def leave (s : Session) (p : Pending) : WaitEnd → Session
  | .talk e => s.goOn p e
  | .cancelled => s.giveUp p

/-- The child of a request is killed, and waited for. -/
def kill (s : Session) (p : Pending) (w : WaitEnd) : Session :=
  let s := s.note p.ticket.name [.process .kill]
  { s with pending := s.pending ++ [{ p with killed := some w }] }

/-- A request does what it can when its wait for the answer is over, or its killed child is
gone.  A child that does not linger is gone when it has been killed. -/
def pass (s : Session) (p : Pending) (w : WaitEnd) : Session :=
  if p.killed.isNone && w.kills p.child.exited then
    if p.child.lingers then s.kill p w
    else (s.note p.ticket.name [.process .kill]).leave { p with killed := some w } w
  else s.leave p w

/-- A waiting request whose child was to answer on request, when it does. -/
def heard (name : Text) (child : Child) (answerDue : Option Float) (p : Pending) : Pending :=
  match p.child.answer with
  | .onRequest =>
    if p.ticket.name == name then
      { p with
        child := { child with
          exited := p.child.exited || child.exited
          lingers := p.child.lingers }
        answerDue }
    else p
  | _ => p

/-- The answer of the child of a waiting request becomes known. -/
def hear (s : Session) (name : Text) (child : Child) : Session :=
  { s with pending := s.pending.map (heard name child (s.answerDue child)) }

/-- The killed child of a waiting request lingers no longer. -/
def buried (name : Text) (p : Pending) : Pending :=
  if p.ticket.name == name && p.killed.isSome then
    { p with child := { p.child with lingers := false } }
  else p

def bury (s : Session) (name : Text) : Session :=
  { s with pending := s.pending.map (buried name) }

/-- A waiting request is given up, or a save that is to come.  A request whose child has been
killed already does not wait for that any more. -/
def cancel (s : Session) (name : Text) : Session :=
  match s.pending.find? fun p => p.ticket.name == name with
  | some p =>
    let s := { s with pending := s.pending.eraseP fun p => p.ticket.name == name }
    if p.killed.isNone && WaitEnd.cancelled.kills p.child.exited then s.kill p .cancelled
    else s.close p.ticket .cancelled
  | none => { s with saves := s.saves.filter fun d => !(d.name == some name) }

/-! ## Saves that are to come -/

def savedRecord (path : Path) : Option SystemError → Log.Record
  | none => .plain .debug Fix.logger "deferred_save_done" [Request.pathField path]
  | some e =>
    .plain .error Fix.logger "deferred_save_failed"
      [Request.pathField path, Log.field "error" (.text e.display)]

/-- A deferred save takes place.  Errors of the operating system are logged; any other
failure is the host's. -/
def saveNow (s : Session) (d : DeferredSave) : Session :=
  match s.document? d.document with
  | none => s
  | some doc =>
    let (files, result) := doc.save s.machine.files s.machine.cwd
    let s := { s with machine := { s.machine with files } }
    let told (e : Option SystemError) : List Effect := [.log ((savedRecord doc.path e).forRequest d.id)]
    match result with
    | .ok doc => (s.withDocument d.document doc).note d.who (told none)
    | .error (.system e) => s.note d.who (told (some e))
    | .error _ => s

/-! ## Time -/

def hasCome (s : Session) (due : Float) : Bool := !(s.clock < due)

/-- The saves that are due take place, the earliest first. -/
def saveDue (s : Session) : Session :=
  let due := (s.saves.filter fun d => s.hasCome d.due).mergeSort fun d e => !(e.due < d.due)
  due.foldl saveNow { s with saves := s.saves.filter fun d => !s.hasCome d.due }

/-- The requests that can go on do, the one whose talk ended first first. -/
def goOnDue (s : Session) : Session :=
  let ready := (s.pending.filter fun p => (p.over? s.clock).isSome).mergeSort
    fun p q => !(q.due < p.due)
  let rest := s.pending.filter fun p => (p.over? s.clock).isNone
  ready.foldl (fun s p =>
    match p.over? s.clock with
    | some w => s.pass p w
    | none => s) { s with pending := rest }

def isDue (s : Session) : Bool :=
  (s.saves.any fun d => s.hasCome d.due) || s.pending.any fun p => (p.over? s.clock).isSome

/-- Everything that is due takes place, and what becomes due by that.  Every round takes a
save away or a request that can go on, and only a request that goes on adds a save. -/
def settle : (fuel : Nat) → Session → Session
  | 0, s => s
  | fuel + 1, s => if s.isDue then settle fuel s.saveDue.goOnDue else s

def settled (s : Session) : Session := settle (s.saves.length + 2 * s.pending.length + 1) s

/-! ## Events -/

def handle (s : Session) : Event → Session
  | .request name task document child =>
    match s.document? document with
    | some d => s.launch name task document d child
    | none => s
  | .answer name child => s.hear name child
  | .died name => s.bury name
  | .cancel name => s.cancel name
  | .advance seconds => { s with clock := s.clock + seconds }
  | .edit document text =>
    match s.document? document with
    | some d => s.withDocument document (d.typed text)
    | none => s
  | .replace document text =>
    match s.document? document with
    | some d =>
      match d.replaceText text with
      | .ok d => s.withDocument document d
      | .error f => s.complete document (.failed f)
    | none => s
  | .save document =>
    match s.document? document with
    | some d =>
      let (files, result) := d.save s.machine.files s.machine.cwd
      let s := { s with machine := { s.machine with files } }
      match result with
      | .ok d => s.withDocument document d
      | .error f => s.complete document (.failed f)
    | none => s
  | .applyFix document fix =>
    match s.document? document with
    | some d =>
      match d.applyFix fix with
      | .ok (some d) =>
        ((s.withDocument document d).note document [.log (Fix.appliedRecord d.path)]).complete
          document (.edited true)
      | .ok none => s.complete document (.edited false)
      | .error f => s.complete document (.failed f)
    | none => s
  | .saveLater name document delay =>
    { s with saves := s.saves ++ [⟨some name, document, none, s.clock + delay⟩] }
  | .settings source => { s with source }
  | .sink failure => { s with sinkFailure := failure }
  | .issues document diagnostics =>
    match s.document? document with
    | some d => { s with issues := s.issues.set d.path diagnostics }
    | none => s
  | .files files => { s with machine := { s.machine with files } }

/-- What an event does, up to the point where nothing is due. -/
def step (s : Session) (e : Event) : Session := (s.handle e).settled

def run (s : Session) (events : List Event) : Session := events.foldl step s

end Session

end EditorLint
