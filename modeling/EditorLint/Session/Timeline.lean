import EditorLint.Session.Step

/-!
# A session, one thing at a time

An event may bring about a lot: saves that were due take place, children are killed, and
requests go on one after another.  A `Timeline` takes all that apart into turns, of which each
is one event, one save, one child that is killed, or one request that leaves its child, with the
session before and after it.

A request does all its turns in a context of its own, and what is logged there carries the
identifier in force there.  `Turn.within` is a turn in such a context.
-/

namespace EditorLint

/-- A request leaves its child when its wait has ended so: the child has been killed for it, or
need not be. -/
def Pending.Leaves (p : Pending) (w : WaitEnd) : Prop :=
  p.killed = some w ∨ p.killed = none ∧ w.kills p.child.exited = false

/-- One thing that happens to a session: an event; a save that was to come; a child that is
killed when the talk with it has ended; or a request that goes on then, or when its killed child
is gone, which may have been killed because the request was given up. -/
inductive Happening where
  | event (e : Event)
  | save (d : DeferredSave)
  | kill (p : Pending) (e : TalkEnd)
  | goOn (p : Pending) (e : TalkEnd)
  | giveUp (p : Pending)

/-- One thing that happens, with the session before and after it. -/
structure Turn where
  before : Session
  what : Happening
  after : Session

namespace Turn

/-- The event that a turn is, if it is one. -/
def event? (m : Turn) : Option Event :=
  match m.what with
  | .event e => some e
  | _ => none

/-- The request that a turn is one of: it begins then, its child is killed, it goes on, or it is
given up. -/
def ticket? (m : Turn) : Option Ticket :=
  match m.what with
  | .event (.request name task document _) =>
    (m.before.document? document).map fun d => m.before.ticketFor name task document d.path
  | .event (.cancel name) => (m.before.pending.find? fun p => p.ticket.name == name).map (·.ticket)
  | .kill p _ | .goOn p _ | .giveUp p => some p.ticket
  | _ => none

end Turn

namespace Session

/-- One thing happens.  Events come at any time, a save takes place when it is due, a child is
killed when the talk with it is cut short, and a request goes on when that has ended otherwise, or
when its killed child is gone. -/
inductive Happens (s : Session) : Happening → Session → Prop where
  | event (e : Event) : s.Happens (.event e) (s.handle e)
  | save {d : DeferredSave} {front rest : List DeferredSave} (waits : s.saves = front ++ d :: rest)
    (due : s.hasCome d.due = true) :
    s.Happens (.save d) ({ s with saves := front ++ rest }.saveNow d)
  | kill {p : Pending} {front rest : List Pending} {e : TalkEnd}
    (waits : s.pending = front ++ p :: rest) (ended : p.over? s.clock = some (.talk e))
    (alive : p.killed = none) (kills : (WaitEnd.talk e).kills p.child.exited = true) :
    s.Happens (.kill p e) ({ s with pending := front ++ rest }.kill p (.talk e))
  | goOn {p : Pending} {front rest : List Pending} {e : TalkEnd}
    (waits : s.pending = front ++ p :: rest) (ended : p.over? s.clock = some (.talk e))
    (leaves : p.Leaves (.talk e)) :
    s.Happens (.goOn p e) ({ s with pending := front ++ rest }.goOn p e)
  | giveUp {p : Pending} {front rest : List Pending} (waits : s.pending = front ++ p :: rest)
    (gone : p.over? s.clock = some .cancelled) (killed : p.killed = some .cancelled) :
    s.Happens (.giveUp p) ({ s with pending := front ++ rest }.giveUp p)

/-- What happens to a session from its state `s` on, one thing after another. -/
inductive Timeline (s : Session) : List Turn → Session → Prop where
  | start : s.Timeline [] s
  | next {past : List Turn} {s' s'' : Session} {a : Happening} (before : s.Timeline past s')
    (now : s'.Happens a s'') : s.Timeline (past ++ [⟨s', a, s''⟩]) s''

/-! ## Contexts -/

end Session

/-- An action in a context: what it logs carries the identifier in force there. -/
def Correlation.carried {α : Type} (c : Correlation) (x : Action α) : Action α :=
  match c.bound with
  | some id => x.forRequest id
  | none => x

namespace Session

/-- A request begins in a context: a new identifier is put in force, and put out of force
again unless the request waits. -/
def launchIn (s : Session) (c : Correlation) (name : Text) (task : Task) (document : Text)
    (d : OpenDocument) (child : Child) : Session × Correlation :=
  let (id, c) := c.bind none
  let t : Ticket := ⟨name, task, document, d.path, id, (s.tokenFor task d.path).1⟩
  let x := c.carried (Request.begin s.handler s.machine s.loaded task d.path d.text child)
  let s := ((s.admitted t).note name x.effects).enter t child x.result
  match x.result with
  | .ok (.waiting _) => (s, c)
  | .ok (.done _) | .error _ => (s, c.clear)

/-- A request goes on in its context.  The identifier stays in force while a fix is applied,
and is put out of force before anything is published. -/
def goOnIn (s : Session) (c : Correlation) (p : Pending) (e : TalkEnd) : Session × Correlation :=
  let x := c.carried do
    p.reap
    Request.proceed s.handler p.ticket.path p.talk e
  let s := s.note p.ticket.name x.effects
  match x.result with
  | .error f => (s.close p.ticket (.failed f), c.clear)
  | .ok o =>
    if p.ticket.task.isFix then
      let s := s.mark (.found p.ticket o)
      match s.document? p.ticket.document with
      | none => (s.close p.ticket (.edited false), c.clear)
      | some d =>
        let y := c.carried (Fix.amend s.handler d o)
        ((s.note p.ticket.name y.effects).closeFix p.ticket p.settings.saveDelay y.result, c.clear)
    else (s.finish p.ticket p.settings.saveDelay o, c.clear)

/-- A request is given up in its context.  The identifier stays in force while its child is
killed and waited for. -/
def cancelIn (s : Session) (c : Correlation) (name : Text) : Session × Correlation :=
  match s.pending.find? fun p => p.ticket.name == name with
  | some p =>
    let s := { s with pending := s.pending.eraseP fun p => p.ticket.name == name }
    if p.killed.isNone && WaitEnd.cancelled.kills p.child.exited then (s.kill p .cancelled, c)
    else (s.close p.ticket .cancelled, c.clear)
  | none => (s.cancel name, c)

end Session

namespace Turn

/-- A turn of a request in its context: the session after it, and what is in force in the
context then. -/
def within (m : Turn) (c : Correlation) : Session × Correlation :=
  match m.what with
  | .event (.request name task document child) =>
    match m.before.document? document with
    | some d => m.before.launchIn ⟨m.before.requests, c.bound⟩ name task document d child
    | none => (m.after, c)
  | .event (.cancel name) => m.before.cancelIn c name
  | .goOn p e => { m.before with pending := m.after.pending }.goOnIn c p e
  | .giveUp _ => (m.after, c.clear)
  | _ => (m.after, c)

/-- What is in force in a context after some turns. -/
def context (turns : List Turn) : Correlation :=
  turns.foldl (fun c m => (m.within c).2) .initial

end Turn

end EditorLint
