import EditorLint.Proofs.DeferredSaves
import EditorLint.Proofs.Returning
import EditorLint.Proofs.Traces

/-!
# Whose records are whose

Everything that the log is told on behalf of a request, until its run has come to an outcome,
carries the identifier of the request, and so does everything about a fix and about the save
that a fix plans.  A refresh goes on after its run, when its identifier is out of force.  So
what it tells then carries none: that its result is stale, or that it could not be published
(`Log.Record.IsLate`).  A request has such a record exactly where it withholds its outcome
(`Turn.Withholds`); all its other records carry its own identifier, which no other request has
(`records_carry_iff`).

The identifier is in force in the context of the request only (`Turn.within`), and is out of
force there when the request has ended.
-/

namespace EditorLint

def Effect.Carry (id : Text) (es : List Effect) : Prop :=
  ∀ r, .log r ∈ es → r.requestId = some id

/-- A record that a refresh leaves when its identifier is out of force. -/
def Log.Record.IsLate (r : Log.Record) : Prop :=
  r.requestId = none ∧ (r.event = "lint_result_stale" ∨ r.event = "issue_publish_failed")

namespace Effect

variable {id : Text} {es es' : List Effect}

theorem carry_nil (id : Text) : Carry id [] := fun _ h => nomatch h

theorem Carry.append (h : Carry id es) (h' : Carry id es') : Carry id (es ++ es') :=
  fun r hr => (List.mem_append.mp hr).elim (h r) (h' r)

theorem carry_forRequest {α : Type} (id : Text) (x : Action α) :
    Carry id (x.forRequest id).effects := by
  intro r hr
  obtain ⟨e, -, he⟩ := List.mem_map.mp hr
  cases e with
  | log r' =>
    cases he
    rfl
  | process | refused | report => cases he

theorem carry_killing (id : Text) (p : Pending) : Carry id p.killing := by
  intro r hr
  unfold Pending.killing at hr
  split at hr <;> simp at hr

theorem carry_reap (id : Text) (p : Pending) : Carry id p.reap.effects := by
  intro r hr
  unfold Pending.reap at hr
  split at hr
  · simp [Action.emit] at hr
  · cases hr

end Effect

/-! ## Outcomes that are withheld -/

/-- A refresh does not pass on the outcome that its run has come to: a newer one has overtaken it,
or there is something to publish and the sink fails. -/
def Session.Withholds (s : Session) (t : Ticket) (o : Outcome) : Prop :=
  t.task = .refresh ∧ (s.sequencer.isCurrent t.path t.token = false ∨
    isPublished o = true ∧ s.sinkFailure ≠ none)

namespace Turn

/-- The outcome that the run of a request comes to at a turn, and the session at that. -/
inductive Brings (m : Turn) (t : Ticket) : Session → Outcome → Prop where
  | atOnce {d : OpenDocument} {child : Child} {o : Outcome} (first : m.Begins t d child)
    (comes : (m.opening t d child).result = .ok (.done o)) : m.Brings t (m.before.admitted t) o
  | later {p : Pending} {e : TalkEnd} {o : Outcome} (own : p.ticket = t)
    (what : m.what = .goOn p e) (comes : (m.closing p e).result = .ok o) : m.Brings t m.before o

/-- At a turn a request comes to an outcome and withholds it. -/
def Withholds (m : Turn) (t : Ticket) : Prop := ∃ s o, m.Brings t s o ∧ s.Withholds t o

variable {m : Turn} {t : Ticket} {s : Session} {o : Outcome} {d : OpenDocument} {child : Child}
  {p : Pending} {e : TalkEnd}

theorem Brings.begins (h : m.Brings t s o) (first : m.Begins t d child) :
    s = m.before.admitted t ∧ (m.opening t d child).result = .ok (.done o) := by
  cases h with
  | @atOnce d' child' _ first' comes =>
    obtain rfl : d' = d := Option.some.inj (first'.opened.symm.trans first.opened)
    obtain rfl : child' = child := by
      have hwhat := first'.what.symm.trans first.what
      cases hwhat
      rfl
    exact ⟨rfl, comes⟩
  | later _ what _ =>
    rw [first.what] at what
    cases what

theorem Brings.goesOn (h : m.Brings p.ticket s o) (what : m.what = .goOn p e) :
    s = m.before ∧ (m.closing p e).result = .ok o := by
  cases h with
  | atOnce first _ =>
    rw [first.what] at what
    cases what
  | later _ what' comes =>
    rw [what] at what'
    cases what'
    exact ⟨rfl, comes⟩

theorem not_withholds_of_starts (first : m.Starts p d child) : ¬m.Withholds p.ticket := by
  rintro ⟨s, o, hbrings, -⟩
  have hdone := (hbrings.begins first.toBegins).2
  have hwaits : (m.opening p.ticket d child).result = .ok (.waiting (p.settings, p.talk)) :=
    first.waits
  rw [hwaits] at hdone
  cases hdone

theorem not_withholds_of_what {t : Ticket}
    (begins : ∀ name task document child, m.what ≠ .event (.request name task document child))
    (goesOn : ∀ p e, m.what ≠ .goOn p e) : ¬m.Withholds t := by
  rintro ⟨s, o, hbrings, -⟩
  cases hbrings with
  | atOnce first _ => exact begins _ _ _ _ first.what
  | later _ what _ => exact goesOn _ _ what

theorem not_withholds_of_killedAt {ks : List Turn} {t : Ticket} (meanwhile : KilledAt p ks)
    (hm : m ∈ ks) : ¬m.Withholds t := by
  cases meanwhile with
  | alive => cases hm
  | killed same kills killed =>
    obtain rfl := List.mem_singleton.mp hm
    rcases kills.what with ⟨e, -, what⟩ | ⟨name, -, what, -⟩
    · exact not_withholds_of_what (by simp [what]) (by simp [what])
    · exact not_withholds_of_what (by simp [what]) (by simp [what])

end Turn

/-- The records of a request that withholds nothing carry its identifier, and one that does has
records that do not. -/
inductive Recorded (t : Ticket) (withheld : Prop) (es : List Effect) : Prop where
  | carried (passes : ¬withheld) (all : Effect.Carry t.id es)
  | late {r : Log.Record} (withholds : withheld) (task : t.task = .refresh) (one : .log r ∈ es)
    (is : r.IsLate) (all : ∀ r, .log r ∈ es → r.requestId = some t.id ∨ r.IsLate)

namespace Recorded

variable {t : Ticket} {withheld withheld' : Prop} {es es' : List Effect}

theorem after (h : Recorded t withheld es') (hes : Effect.Carry t.id es) :
    Recorded t withheld (es ++ es') := by
  cases h with
  | carried passes all => exact .carried passes (hes.append all)
  | late withholds task one is all =>
    refine .late withholds task (List.mem_append_right es one) is fun r hr => ?_
    exact (List.mem_append.mp hr).elim (fun h => .inl (hes r h)) (all r)

theorem congr (h : Recorded t withheld es) (hiff : withheld ↔ withheld') :
    Recorded t withheld' es := by
  cases h with
  | carried passes all => exact .carried (mt hiff.mpr passes) all
  | late withholds task one is all => exact .late (hiff.mp withholds) task one is all

theorem carry_iff (h : Recorded t withheld es) : Effect.Carry t.id es ↔ ¬withheld := by
  cases h with
  | carried passes all => exact iff_of_true all passes
  | late withholds task one is all =>
    refine iff_of_false (fun hall => ?_) (not_not_intro withholds)
    have hid := hall _ one
    rw [is.1] at hid
    cases hid

theorem own_or_late (h : Recorded t withheld es) {r : Log.Record} (hr : .log r ∈ es) :
    r.requestId = some t.id ∨ t.task = .refresh ∧ r.IsLate := by
  cases h with
  | carried passes all => exact .inl (all r hr)
  | late withholds task one is all => exact (all r hr).imp_right fun h => ⟨task, h⟩

end Recorded

namespace Session

/-- The end of a request whose run has come to an outcome: a refresh that withholds its outcome
has one record besides, which is a late one. -/
theorem EndsBy.recorded {s : Session} {t : Ticket} {o : Outcome} {c : Completion}
    {es : List Effect} (h : s.EndsBy t o c es) : Recorded t (s.Withholds t o) es := by
  have passes (htask : t.task ≠ .refresh) : ¬s.Withholds t o := fun hw => htask hw.1
  have not_refresh (htask : t.task.isFix = true) : t.task ≠ .refresh := by
    intro h
    rw [h] at htask
    cases htask
  have only {r : Log.Record} (hw : s.Withholds t o) (hlate : r.IsLate) (one : .log r ∈ es)
      (all : ∀ r', .log r' ∈ es → r' = r) : Recorded t (s.Withholds t o) es :=
    .late hw hw.1 one hlate fun r' hr' => .inr (all r' hr' ▸ hlate)
  cases h with
  | diagnosed task => exact .carried (passes (by rw [task]; simp)) (Effect.carry_nil _)
  | provided task => exact .carried (passes (by rw [task]; simp)) (Effect.carry_nil _)
  | stale task overtaken =>
    have hone : (staleCompletion t o).effects = [.log _] := rfl
    refine only ⟨task, .inl overtaken⟩ ⟨rfl, .inl rfl⟩ (hone ▸ List.mem_singleton_self _) ?_
    intro r' hr'
    cases List.mem_singleton.mp hr'
    rfl
  | refreshed task current sink =>
    refine .carried ?_ (Effect.carry_nil _)
    rintro ⟨-, hcurrent | ⟨hpublished, hsink⟩⟩
    · rw [current] at hcurrent
      cases hcurrent
    · exact hsink (sink hpublished)
  | @unpublished f task current published sink x does =>
    subst does
    -- Telling the host about it is no record.
    have heffects : ∃ rest, (unpublishedCompletion s.handler t o f).effects = .log
        (.ofFailure Request.logger "issue_publish_failed" [Request.pathField t.path] f) :: rest ∧
        ∀ r, .log r ∉ rest := by
      unfold unpublishedCompletion Handler.report
      cases s.handler.callback with
      | none => exact ⟨[], rfl, by simp⟩
      | some callback =>
        simp only [Action.log, Action.emit, Handler.call, bind, Action.bind]
        cases callback _ <;> exact ⟨[.report _], rfl, by simp⟩
    obtain ⟨rest, hes, hrest⟩ := heffects
    refine only ⟨task, .inr ⟨published, by rw [sink]; simp⟩⟩ ⟨rfl, .inr rfl⟩
      (hes ▸ List.mem_cons_self) ?_
    intro r' hr'
    rw [hes] at hr'
    rcases List.mem_cons.mp hr' with h | h
    · cases h
      rfl
    · exact absurd h (hrest r')
  | closed task gone => exact .carried (passes (not_refresh task)) (Effect.carry_nil _)
  | amended task opened does =>
    subst does
    exact .carried (passes (not_refresh task)) (Effect.carry_forRequest _ _)

end Session

/-- The records of a request: all carry its identifier, unless it withholds its outcome. -/
theorem Did.recorded {t : Ticket} {turns : List Turn} {r : Option Completion} {es : List Effect}
    (h : Did t turns r es) : Recorded t (∃ m ∈ turns, m.Withholds t) es := by
  have opening (m : Turn) (d : OpenDocument) (child : Child) :
      Effect.Carry t.id (m.opening t d child).effects := Effect.carry_forRequest _ _
  -- A request that has waited withholds nothing before its last turn.
  have waiting {m : Turn} {ks : List Turn} {p : Pending} {d : OpenDocument} {child : Child}
      (own : p.ticket = t) (first : m.Starts p d child) (meanwhile : KilledAt p ks) :
      ∀ n ∈ m :: ks, ¬n.Withholds t := by
    subst own
    intro n hn
    rcases List.mem_cons.mp hn with rfl | hn
    · exact Turn.not_withholds_of_starts first
    · exact Turn.not_withholds_of_killedAt meanwhile hn
  have last {m m' : Turn} {ks : List Turn} {p : Pending} {d : OpenDocument} {child : Child}
      (own : p.ticket = t) (first : m.Starts p d child) (meanwhile : KilledAt p ks) :
      m'.Withholds t ↔ ∃ n ∈ m :: ks ++ [m'], n.Withholds t := by
    constructor
    · exact fun hw => ⟨m', by simp, hw⟩
    · rintro ⟨n, hn, hw⟩
      rcases List.mem_append.mp hn with hn | hn
      · exact absurd hw (waiting own first meanwhile n hn)
      · rwa [← List.mem_singleton.mp hn]
  have killing (p : Pending) : Effect.Carry t.id p.killing := Effect.carry_killing _ p
  cases h with
  | nothing => exact .carried (by simp) (Effect.carry_nil _)
  | @waits m ks p d child own first meanwhile =>
    refine .carried ?_ ((opening m d child).append (killing p))
    rintro ⟨n, hn, hw⟩
    exact waiting own first meanwhile n hn hw
  | @failed m d child f first fails =>
    refine .carried ?_ (opening m d child)
    rintro ⟨n, hn, s, o, hbrings, -⟩
    obtain rfl := List.mem_singleton.mp hn
    have hdone := (hbrings.begins first).2
    rw [fails] at hdone
    cases hdone
  | @atOnce m d child o c es first comes last =>
    refine (last.recorded.after (opening m d child)).congr ⟨fun hw => ?_, ?_⟩
    · exact ⟨m, List.mem_singleton_self m, _, o, .atOnce first comes, hw⟩
    · rintro ⟨n, hn, s, o', hbrings, hw⟩
      obtain rfl := List.mem_singleton.mp hn
      obtain ⟨rfl, hdone⟩ := hbrings.begins first
      rw [comes] at hdone
      cases hdone
      exact hw
  | @failedLater m m' ks p d child e f own first meanwhile what leaves fails =>
    subst own
    refine .carried ?_ ((opening m d child).append ((killing p).append
      (Effect.carry_forRequest _ _)))
    rw [← last rfl first meanwhile]
    rintro ⟨s, o, hbrings, -⟩
    have hok := (hbrings.goesOn what).2
    rw [fails] at hok
    cases hok
  | @later m m' ks p d child e o c es own first meanwhile what leaves comes ends =>
    subst own
    refine .after (.after (.after (ends.recorded.congr ?_) (Effect.carry_forRequest _ _))
      (killing p)) (opening m d child)
    refine Iff.trans ⟨fun hw => ⟨_, o, .later rfl what comes, hw⟩, ?_⟩ (last rfl first meanwhile)
    rintro ⟨s, o', hbrings, hw⟩
    obtain ⟨rfl, hok⟩ := hbrings.goesOn what
    rw [comes] at hok
    cases hok
    exact hw
  | @reaped m m' ks p d child own first meanwhile what killed =>
    subst own
    refine .carried ?_ ((opening m d child).append ((killing p).append (Effect.carry_reap _ p)))
    rw [← last rfl first meanwhile]
    exact Turn.not_withholds_of_what (by simp [what]) (by simp [what])
  | @givenUp m m' ks p d child name own first meanwhile what found spent =>
    subst own
    refine .carried ?_ ((opening m d child).append (killing p))
    rw [← last rfl first meanwhile]
    exact Turn.not_withholds_of_what (by simp [what]) (by simp [what])

/-! ## Saves -/

/-- What the log is told about a save carries the identifier that the save has. -/
theorem Session.requestId_of_save {s s' : Session} {d : DeferredSave}
    (h : s.Happens (.save d) s') {r : Log.Record}
    (hr : .log r ∈ Turn.effects ⟨s, .save d, s'⟩) : r.requestId = d.id := by
  cases h with
  | @save _ front rest waits due =>
    let left := { s with saves := front ++ rest }
    have told {es : List Effect} (hes : ∀ r, .log r ∈ es → r.requestId = d.id)
        (heffects : (left.saveNow d).effects = s.effects ++ es) : r.requestId = d.id := by
      unfold Turn.effects at hr
      rw [show (left.saveNow d).effects = _ from heffects, List.drop_left] at hr
      exact hes r hr
    have hnone : ∀ r, .log r ∈ ([] : List Effect) → r.requestId = d.id := fun _ hr => nomatch hr
    have silent (heffects : (left.saveNow d).effects = s.effects) : r.requestId = d.id :=
      told hnone (heffects.trans (List.append_nil _).symm)
    have one (e : Option SystemError) (path : Path) : ∀ r,
        .log r ∈ [Effect.log ((savedRecord path e).forRequest d.id)] → r.requestId = d.id := by
      intro r hr
      cases List.mem_singleton.mp hr
      rfl
    cases hdoc : s.document? d.document with
    | none =>
      have hsame : left.saveNow d = left := by
        unfold saveNow
        rw [show left.document? d.document = none from hdoc]
      exact silent (by rw [hsame]; rfl)
    | some doc =>
      have hsave := saveNow_eq left d (show left.document? d.document = some doc from hdoc)
      dsimp only at hsave
      split at hsave
      · exact told (one none doc.path) (by rw [hsave]; exact effects_note _ _ _)
      · exact told (one (some _) doc.path) (by rw [hsave]; exact effects_note _ _ _)
      · exact silent (by rw [hsave]; rfl)

/-! ## Contexts -/

namespace Turn

variable {m m' : Turn} {t : Ticket} {d : OpenDocument} {child : Child} {p : Pending}

theorem within_of_begins (first : m.Begins t d child) (c : Correlation) :
    m.within c = m.before.launchIn ⟨m.before.requests, c.bound⟩ t.name t.task t.document d child := by
  unfold within
  rw [first.what]
  dsimp only
  rw [first.opened]

theorem within_begins (first : m.Begins t d child) (c : Correlation) :
    (m.within c).1 = m.after := by
  rw [within_of_begins first, first.after]
  exact (m.before.launchIn_eq c.bound t.name t.task t.document d child).1

theorem bound_of_starts (first : m.Starts p d child) (c : Correlation) :
    (m.within c).2.bound = some p.ticket.id := by
  rw [within_of_begins first.toBegins, Session.launchIn_match]
  have hwaits : (m.opening p.ticket d child).result = .ok (.waiting (p.settings, p.talk)) :=
    first.waits
  unfold opening at hwaits
  rw [first.ticket, hwaits]

theorem unbound_of_begins (first : m.Begins t d child)
    (hends : ∀ w, (m.opening t d child).result ≠ .ok (.waiting w)) (c : Correlation) :
    (m.within c).2.bound = none := by
  rw [within_of_begins first, Session.launchIn_match]
  unfold opening at hends
  rw [first.ticket]
  split
  · rename_i w hw
    exact absurd hw (hends w)
  · rfl
  · rfl

theorem unbound_of_goOn {e : TalkEnd} (what : m.what = .goOn p e) (c : Correlation) :
    (m.within c).2.bound = none := by
  unfold within
  rw [what]
  dsimp only [Session.goOnIn]
  split
  · rfl
  · split
    · split <;> rfl
    · rfl

theorem unbound_of_giveUp (what : m.what = .giveUp p) (c : Correlation) :
    (m.within c).2.bound = none := by
  unfold within
  rw [what]
  rfl

/-- The request that waits under a name is given up at once if its child need not be killed. -/
theorem unbound_of_cancel {name : Text} (what : m.what = .event (.cancel name))
    (first : m.before.pending.find? (fun p => p.ticket.name == name) = some p)
    (spent : p.killed ≠ none ∨ WaitEnd.cancelled.kills p.child.exited = false) (c : Correlation) :
    (m.within c).2.bound = none := by
  have hspent : ¬(p.killed.isNone && WaitEnd.cancelled.kills p.child.exited) = true := by
    rw [Bool.and_eq_true]
    rintro ⟨halive, hkills⟩
    rcases spent with hkilled | hspares
    · exact hkilled (Option.isNone_iff_eq_none.mp halive)
    · rw [hspares] at hkills
      cases hkills
  unfold within
  rw [what]
  dsimp only [Session.cancelIn]
  rw [first]
  dsimp only
  rw [if_neg hspent]
  rfl

theorem bound_of_kills {w : WaitEnd} (kills : m.Kills p w) (c : Correlation) :
    (m.within c).2 = c := by
  unfold within
  rcases kills.what with ⟨e, -, what⟩ | ⟨name, rfl, what, found⟩
  · rw [what]
  · have hkill : (p.killed.isNone && WaitEnd.cancelled.kills p.child.exited) = true := by
      rw [kills.alive, kills.kills]
      rfl
    rw [what]
    dsimp only [Session.cancelIn]
    rw [found]
    dsimp only
    rw [if_pos hkill]

/-- What an event does to a request in its context is what it does. -/
theorem within_event {e : Event} (what : m.what = .event e)
    (now : m.before.Happens m.what m.after) (c : Correlation) : (m.within c).1 = m.after := by
  have hafter : m.after = m.before.handle e := (what ▸ now).of_event
  unfold within
  rw [what]
  cases e with
  | request name task document child =>
    dsimp only
    cases hd : m.before.document? document with
    | none => rfl
    | some d =>
      rw [hafter]
      simp only [Session.handle, hd]
      exact (m.before.launchIn_eq c.bound name task document d child).1
  | cancel name =>
    rw [hafter]
    exact (m.before.cancelIn_eq c name).1
  | _ => rfl

end Turn

theorem Turn.context_append (ms : List Turn) (m : Turn) :
    Turn.context (ms ++ [m]) = (m.within (Turn.context ms)).2 := by
  simp [Turn.context]

/-- When a request has ended no identifier is in force in its context. -/
theorem Did.unbound {t : Ticket} {turns : List Turn} {c : Completion} {es : List Effect}
    (h : Did t turns (some c) es) : (Turn.context turns).bound = none := by
  cases h with
  | failed first fails => exact Turn.unbound_of_begins first (by simp [fails]) _
  | atOnce first comes last => exact Turn.unbound_of_begins first (by simp [comes]) _
  | failedLater own first meanwhile what leaves fails =>
    rw [Turn.context_append]
    exact Turn.unbound_of_goOn what _
  | later own first meanwhile what leaves comes last =>
    rw [Turn.context_append]
    exact Turn.unbound_of_goOn what _
  | reaped own first meanwhile what killed =>
    rw [Turn.context_append]
    exact Turn.unbound_of_giveUp what _
  | givenUp own first meanwhile what found spent =>
    rw [Turn.context_append]
    exact Turn.unbound_of_cancel what found spent _

theorem Turn.bound_of_killedAt {m : Turn} {ks : List Turn} {p : Pending} {d : OpenDocument}
    {child : Child} (first : m.Starts p d child) (meanwhile : KilledAt p ks) :
    (Turn.context (m :: ks)).bound = some p.ticket.id := by
  have hfirst : (Turn.context [m]).bound = some p.ticket.id := Turn.bound_of_starts first .initial
  cases meanwhile with
  | alive => exact hfirst
  | @killed k q w same kills killed =>
    rw [show [m, k] = [m] ++ [k] from rfl, Turn.context_append, Turn.bound_of_kills kills]
    exact hfirst

/-- What a request does at its turns is what it does in its context. -/
theorem TurnsOf.within {t : Ticket} {turns : List Turn} (h : TurnsOf t turns)
    {earlier later : List Turn} {m : Turn} (hm : turns = earlier ++ m :: later)
    (now : m.before.Happens m.what m.after) : (m.within (Turn.context earlier)).1 = m.after := by
  -- Only what a request does when it goes on depends on the context.
  have aside (hgo : ∀ p e, m.what ≠ .goOn p e) :
      (m.within (Turn.context earlier)).1 = m.after := by
    cases hwhat : m.what with
    | event e => exact Turn.within_event hwhat now _
    | goOn p e => exact absurd hwhat (hgo p e)
    | save | kill | giveUp =>
      unfold Turn.within
      rw [hwhat]
  have killed {p : Pending} {w : WaitEnd} (kills : m.Kills p w) (q : Pending) (e : TalkEnd) :
      m.what ≠ .goOn q e := by
    rcases kills.what with ⟨e', -, what⟩ | ⟨name, -, what, -⟩ <;> simp [what]
  cases h with
  | none => simp at hm
  | begins first =>
    obtain ⟨rfl, rfl, rfl⟩ := List.singleton_eq_append_iff.mp hm |>.resolve_right (by simp)
    exact Turn.within_begins first _
  | @killed m₁ k p w d child own first kills =>
    have hmem : m ∈ [m₁, k] := by
      rw [hm]
      simp
    rcases List.mem_cons.mp hmem with rfl | hmem
    · exact Turn.within_begins first.toBegins _
    · obtain rfl := List.mem_singleton.mp hmem
      exact aside (killed kills)
  | @ends m₁ m₂ ks p d child own first meanwhile last =>
    subst own
    rcases List.eq_nil_or_concat later with rfl | ⟨front, x, rfl⟩
    · obtain ⟨rfl, hlast⟩ := List.append_inj' hm rfl
      obtain rfl := List.cons.inj hlast |>.1
      cases last with
      | goesOn e what leaves after =>
        obtain ⟨ps, hafter⟩ := after
        have hbound := Turn.bound_of_killedAt first meanwhile
        unfold Turn.within
        rw [what]
        dsimp only
        rw [(Session.goOnIn_eq _ hbound e).1, Session.goOn_withPending, hafter]
      | reaped what => exact aside (by simp [what])
      | givenUp name what => exact aside (by simp [what])
    · have hrest : m₁ :: ks ++ [m₂] = earlier ++ m :: front ++ [x] := by
        rw [hm]
        simp
      have hmem : m ∈ m₁ :: ks := by
        rw [(List.append_inj' hrest rfl).1]
        simp
      rcases List.mem_cons.mp hmem with rfl | hmem
      · exact Turn.within_begins first.toBegins _
      · cases meanwhile with
        | alive => cases hmem
        | killed same kills _ =>
          obtain rfl := List.mem_singleton.mp hmem
          exact aside (killed kills)

/-! ## Every timeline -/

namespace Session

/-- A request that has begun when a turn is over had begun before, or begins at the turn and has
the next number. -/
theorem numbered_happens {s s' : Session} {a : Happening} (h : s.Happens a s')
    (hwaiting : ∀ p ∈ s.pending, Stage.began p.ticket ∈ s.stages) {t : Ticket}
    (hbegan : Stage.began t ∈ s'.stages) :
    Stage.began t ∈ s.stages ∨
      Turn.ticket? ⟨s, a, s'⟩ = some t ∧ t.id = RequestId.ofNumber (s.requests + 1) := by
  obtain ⟨k, hstages, hown⟩ := stages_happens h
  rw [hstages] at hbegan
  rcases List.mem_append.mp hbegan with hold | hnew
  · exact .inl hold
  · have hticket : Turn.ticket? ⟨s, a, s'⟩ = some t := hown _ hnew
    cases h with
    | save => cases hticket
    | kill waits | goOn waits | giveUp waits =>
      cases hticket
      exact .inl (hwaiting _ (by simp [waits]))
    | event e =>
      cases e with
      | request name task document child =>
        obtain ⟨d, -, rfl⟩ := Option.map_eq_some_iff.mp hticket
        exact .inr ⟨hticket, rfl⟩
      | cancel name =>
        obtain ⟨p, hp, rfl⟩ := Option.map_eq_some_iff.mp hticket
        exact .inl (hwaiting p (List.mem_of_find?_eq_some hp))
      | _ => cases hticket

section Initial

variable {m₀ : Machine} {h : Handler} {source : SettingsSource}
  {documents : List (Text × OpenDocument)} {ms : List Turn} {s : Session}

theorem eq_of_id (ht : (initial m₀ h source documents).Timeline ms s) {t u : Ticket}
    (htbegan : Stage.began t ∈ s.stages) (hubegan : Stage.began u ∈ s.stages)
    (hid : t.id = u.id) : t = u := by
  induction ht with
  | start => cases htbegan
  | @next past s s' a before now ih =>
    have hliving := (living_timeline before).living
    have hwaiting (p : Pending) (hp : p ∈ s.pending) : Stage.began p.ticket ∈ s.stages :=
      hliving.began_of_waiting (List.mem_map_of_mem hp)
    -- The next number is that of no request that has begun before.
    have hfresh {t u : Ticket} (hold : Stage.began t ∈ s.stages)
        (hnew : u.id = RequestId.ofNumber (s.requests + 1)) : t.id ≠ u.id := by
      obtain ⟨k, hk, hnumber⟩ := hliving.numbered _ hold
      intro hid
      have hsame : k = s.requests + 1 :=
        RequestId.ofNumber_injective (hnumber.symm.trans (hid.trans hnew))
      omega
    rcases numbered_happens now hwaiting htbegan with htold | ⟨htown, htnew⟩ <;>
      rcases numbered_happens now hwaiting hubegan with huold | ⟨huown, hunew⟩
    · exact ih htold huold
    · exact absurd hid (hfresh htold hunew)
    · exact absurd hid.symm (hfresh huold htnew)
    · exact Option.some.inj (htown.symm.trans huown)

/-- Whose records are whose, however the requests of a session interleave.

Every record of a request carries its identifier exactly if it withholds no outcome, and one
that does not carry it carries none: the request is a refresh then, which tells that its result
is stale or cannot be published.  What is told about a save that a request has caused carries
the identifier of that request.  Different requests have different identifiers.

A request does at its turns what it does in a context of its own, in which no identifier is in
force at first, and none when it has ended. -/
theorem records_carry_iff (ht : (initial m₀ h source documents).Timeline ms s) :
    (∀ t, (∀ r, .log r ∈ effectsOf t ms → r.requestId = some t.id) ↔
      ∀ m ∈ turnsOf t ms, ¬m.Withholds t) ∧
    (∀ t r, .log r ∈ effectsOf t ms →
      r.requestId = some t.id ∨ t.task = .refresh ∧ r.IsLate) ∧
    (∀ m ∈ ms, ∀ d, m.what = .save d → d.name = none →
      ∃ t ∈ resavers m.before.stages, d = t.saveAt d.due ∧
        ∀ r, .log r ∈ m.effects → r.requestId = some t.id) ∧
    (∀ t u, .began t ∈ s.stages → .began u ∈ s.stages → t.id = u.id → t = u) ∧
    ∀ t, (∀ earlier m later, turnsOf t ms = earlier ++ m :: later →
        (m.within (Turn.context earlier)).1 = m.after) ∧
      ∀ c, .ended t c ∈ s.stages → (Turn.context (turnsOf t ms)).bound = none := by
  have recorded (t : Ticket) : Recorded t (∃ m ∈ turnsOf t ms, m.Withholds t) (effectsOf t ms) := by
    obtain ⟨r, hdid, -⟩ := did_timeline ht t
    exact hdid.recorded
  refine ⟨fun t => ?_, fun t r => (recorded t).own_or_late, ?saves, ?distinct, fun t => ⟨?_, ?_⟩⟩
  · refine (recorded t).carry_iff.trans ?_
    simp
  case saves =>
    intro m hm d hwhat hcaused
    obtain ⟨earlier, later, rfl, hbefore, hnow, -⟩ := ht.mem hm
    obtain ⟨before, what, after⟩ := m
    subst hwhat
    obtain ⟨t, hended, hsave⟩ := (saves_happens hbefore hnow hcaused).ended
    refine ⟨t, hended, hsave, fun r hr => ?_⟩
    rw [requestId_of_save hnow hr, hsave]
    rfl
  case distinct => exact fun t u => eq_of_id ht
  · intro earlier m later hm
    have hmem : m ∈ turnsOf t ms := by
      rw [hm]
      simp
    obtain ⟨_, _, -, -, hnow, -⟩ := ht.mem (List.mem_filter.mp hmem).1
    exact ((accounted_timeline ht).turns t).within hm hnow
  · intro c hc
    obtain ⟨r, hdid, hends⟩ := did_timeline ht t
    obtain rfl := hends c hc
    exact hdid.unbound

end Initial

/-- A refresh waits while another one for the same document begins and ends.  When it goes on it
says that it is stale, without an identifier. -/
theorem overtaken_timeline :
    let machine : Machine :=
      ⟨.ofNodes [([], .directory), (["eslint.config.js"], .file [] false)],
        ⟨.slash, []⟩, [], .alone "/root"⟩
    let documents : List (Text × OpenDocument) :=
      [([], .buffer ⟨⟨.slash, ["a"]⟩, "a", none, none, 0, 0⟩)]
    let slow : Child := ⟨none, .output ⟨some 0, [0x5b, 0x5d], []⟩, .after 1, false, false⟩
    let events : List Event :=
      [.request "a" .refresh [] slow, .request "b" .refresh [] .absent, .advance 1]
    ∃ ms s t r, (initial machine .none (.given (.ok .defaults)) documents).Timeline ms s ∧
      ms.filterMap Turn.event? = events ∧ .log r ∈ effectsOf t ms ∧
        r.event = Text.ofString "lint_result_stale" ∧ r.requestId = none := by
  intro machine documents slow events
  let s₀ := initial machine .none (.given (.ok .defaults)) documents
  let s₁ := s₀.handle (.request "a" .refresh [] slow)
  let s₂ := s₁.handle (.request "b" .refresh [] .absent)
  let s₃ := s₂.handle (.advance 1)
  have hone : s₃.pending.length = 1 := by decide +kernel
  have hstale : s₃.pending.all (fun p => p.killed.isNone && (p.ending? s₃.clock).any fun e =>
      (WaitEnd.talk e).kills p.child.exited == false &&
      (Effect.records (({ s₃ with pending := [] }.goOn p e).effects.drop s₃.effects.length)).any
        fun r => r.event == "lint_result_stale" && r.requestId == none) = true := by decide +kernel
  obtain ⟨p, hp⟩ := List.length_eq_one_iff.mp hone
  rw [hp, List.all_cons, Bool.and_eq_true, Bool.and_eq_true] at hstale
  obtain ⟨⟨hnone, hended⟩, -⟩ := hstale
  have halive : p.killed = none := Option.isNone_iff_eq_none.mp hnone
  obtain ⟨e, he, hboth⟩ := (Option.any_eq_true _ _).mp hended
  obtain ⟨hspares, hlogs⟩ := Bool.and_eq_true_iff.mp hboth
  obtain ⟨r, hr, hrecord⟩ := List.any_eq_true.mp hlogs
  obtain ⟨x, hx, hlog⟩ := List.mem_filterMap.mp hr
  cases x with
  | process | refused | report => cases hlog
  | log r =>
    cases hlog
    let m : Turn := ⟨s₃, .goOn p e, { s₃ with pending := [] ++ [] }.goOn p e⟩
    have hwaits : s₃.pending = [] ++ p :: [] := hp
    have hover : p.over? s₃.clock = some (.talk e) := by
      unfold Pending.over?
      rw [halive]
      exact congrArg (Option.map WaitEnd.talk) he
    have hlast : s₃.Happens m.what m.after :=
      .goOn hwaits hover (.inr ⟨halive, beq_iff_eq.mp hspares⟩)
    have hms : s₀.Timeline _ m.after :=
      .next (.next (.next (.next .start (.event _)) (.event _)) (.event _)) hlast
    obtain ⟨hevent, hid⟩ := Bool.and_eq_true_iff.mp hrecord
    have hmem (past : List Turn) : m ∈ turnsOf p.ticket (past ++ [m]) :=
      List.mem_filter.mpr ⟨by simp, decide_eq_true rfl⟩
    exact ⟨_, _, p.ticket, r, hms, rfl, List.mem_flatMap.mpr ⟨m, hmem _, hx⟩, by simpa using hevent,
      by simpa using hid⟩

/-- Not every record of a request carries its identifier. -/
theorem records_carry_iff_failing :
    ¬∀ (m₀ : Machine) (h : Handler) (source : SettingsSource)
      (documents : List (Text × OpenDocument)) (ms : List Turn) (s : Session),
      (initial m₀ h source documents).Timeline ms s →
        ∀ t r, .log r ∈ effectsOf t ms → r.requestId = some t.id := by
  intro hall
  obtain ⟨ms, s, t, r, ht, -, hlog, -, hid⟩ := overtaken_timeline
  rw [hall _ _ _ _ ms s ht t r hlog] at hid
  cases hid

/-- Of two refreshes for one document the first one withholds its outcome, and each has an
identifier of its own. -/
theorem records_carry_iff_overtaken :
    ∃ m₀ documents ms s t, (initial m₀ .none (.given (.ok .defaults)) documents).Timeline ms s ∧
      (∃ m ∈ turnsOf t ms, m.Withholds t) ∧
      ∀ r, .log r ∈ effectsOf t ms → r.requestId = some t.id ∨ t.task = .refresh ∧ r.IsLate := by
  obtain ⟨ms, s, t, r, ht, -, hlog, -, hid⟩ := overtaken_timeline
  obtain ⟨hiff, hlate, -⟩ := records_carry_iff ht
  refine ⟨_, _, ms, s, t, ht, ?_, hlate t⟩
  refine Classical.byContradiction fun hnone => ?_
  have hown := (hiff t).mpr (by simpa using hnone) r hlog
  rw [hown] at hid
  cases hid

end Session

end EditorLint
