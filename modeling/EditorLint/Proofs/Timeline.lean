import EditorLint.Proofs.Lifecycle
import EditorLint.Session.Timeline

/-!
# Runs as timelines

Every run is a timeline (`timeline_run`), and what each step of a session keeps holds all along
one (`Kept.timeline`).  Other orders of what is due are timelines too, so what is proved of all
of them does not hang on the order that a run takes.

A request has at most three turns: it begins; if it has to wait for its child, that may be
killed; and it goes on or is given up later (`TurnsOf`, `accounted_timeline`).  Whatever else
happens in between belongs to others.
-/

namespace EditorLint

namespace Session

theorem Happens.of_event {s s' : Session} {e : Event} (h : s.Happens (.event e) s') :
    s' = s.handle e := by
  cases h
  rfl

namespace Timeline

variable {s s' s'' : Session} {ms ms' : List Turn} {a : Happening}

theorem one (h : s.Happens a s') : s.Timeline [⟨s, a, s'⟩] s' := .next .start h

theorem append (h : s.Timeline ms s') (h' : s'.Timeline ms' s'') : s.Timeline (ms ++ ms') s'' := by
  induction h' with
  | start =>
    rw [List.append_nil]
    exact h
  | next _ now ih =>
    rw [← List.append_assoc]
    exact .next ih now

end Timeline

/-! ## Every run is a timeline -/

/-- A list from which some elements are taken away one after the other, and what is left. -/
inductive Taken {α : Type} : List α → List α → List α → Prop where
  | none (l : List α) : Taken l [] l
  | one {x : α} {l xs left : List α} (front rest : List α) (split : l = front ++ x :: rest)
    (more : Taken (front ++ rest) xs left) : Taken l (x :: xs) left

theorem taken_filter {α : Type} (P : α → Bool) {l xs : List α} (h : xs.Perm (l.filter P)) :
    Taken l xs (l.filter fun x => !P x) := by
  induction xs generalizing l with
  | nil =>
    have hnone : l.filter P = [] := h.nil_eq.symm
    have hall : l.filter (fun x => !P x) = l := by
      refine List.filter_eq_self.mpr fun x hx => ?_
      simpa using List.filter_eq_nil_iff.mp hnone x hx
    rw [hall]
    exact .none l
  | cons x xs ih =>
    have hx : x ∈ l.filter P := h.mem_iff.mp List.mem_cons_self
    obtain ⟨hmem, hP⟩ := List.mem_filter.mp hx
    obtain ⟨front, rest, rfl⟩ := List.append_of_mem hmem
    have hrest : xs.Perm ((front ++ rest).filter P) := by
      refine List.Perm.cons_inv (a := x) (h.trans ?_)
      simp only [List.filter_append, List.filter_cons_of_pos hP]
      exact List.perm_middle
    have hsame : (front ++ x :: rest).filter (fun x => !P x) =
        (front ++ rest).filter fun x => !P x := by
      simp [hP]
    rw [hsame]
    exact .one front rest rfl (ih hrest)

theorem Taken.append {α : Type} {l xs left : List α} (h : Taken l xs left) (more : List α) :
    Taken (l ++ more) xs (left ++ more) := by
  induction h with
  | none l => exact .none _
  | one front rest split _ ih =>
    refine .one front (rest ++ more) (by simp [split]) ?_
    rwa [← List.append_assoc]

theorem saveNow_withSaves (s : Session) (ds : List DeferredSave) (d : DeferredSave) :
    { s with saves := ds }.saveNow d = { s.saveNow d with saves := ds } := by
  have hdoc : { s with saves := ds }.document? d.document = s.document? d.document := rfl
  unfold saveNow
  rw [hdoc]
  cases s.document? d.document with
  | none => rfl
  | some doc =>
    dsimp only
    cases (doc.save s.machine.files s.machine.cwd).2 with
    | ok saved => rfl
    | error f => cases f <;> rfl

theorem goOn_withPending (s : Session) (ps : List Pending) (p : Pending) (e : TalkEnd) :
    { s with pending := ps }.goOn p e = { s.goOn p e with pending := ps } := by
  -- Nothing that a request does at its end looks at the others that wait.
  have hsame : { s with pending := ps }.proceed p e = s.proceed p e := rfl
  unfold goOn
  rw [hsame]
  dsimp only
  split
  · rfl
  · unfold finish
    cases p.ticket.task with
    | diagnose | provideIssues => rfl
    | refresh =>
      dsimp only [publish, note, mark]
      split
      · unfold publishCurrent
        dsimp only
        split
        · rfl
        · unfold conclude
          dsimp only
          split <;> rfl
        · rfl
      · unfold conclude
        dsimp only
        split <;> rfl
    | fix | willSave =>
      dsimp only [amend, document?, note, mark]
      cases s.documents.lookup p.ticket.document with
      | none => rfl
      | some d =>
        dsimp only [closeFix]
        split <;> rfl

theorem leave_withPending (s : Session) (ps : List Pending) (p : Pending) (w : WaitEnd) :
    { s with pending := ps }.leave p w = { s.leave p w with pending := ps } := by
  cases w with
  | talk e => exact goOn_withPending s ps p e
  | cancelled => rfl

theorem pass_withPending (s : Session) (p : Pending) (w : WaitEnd) :
    ∃ more, ∀ ps, { s with pending := ps }.pass p w =
      { s.pass p w with pending := ps ++ more } := by
  unfold pass
  split
  · split
    · exact ⟨[{ p with killed := some w }], fun ps => rfl⟩
    · refine ⟨[], fun ps => ?_⟩
      rw [List.append_nil]
      exact leave_withPending (s.note p.ticket.name [.process .kill]) ps _ w
  · refine ⟨[], fun ps => ?_⟩
    rw [List.append_nil]
    exact leave_withPending s ps p w

/-- A session gets from one state to another without an event. -/
def Proceeds (s s' : Session) : Prop := ∃ ms, s.Timeline ms s' ∧ ms.filterMap Turn.event? = []

namespace Proceeds

variable {s s' s'' : Session}

theorem refl (s : Session) : s.Proceeds s := ⟨[], .start, rfl⟩

theorem trans (h : s.Proceeds s') (h' : s'.Proceeds s'') : s.Proceeds s'' := by
  obtain ⟨ms, ht, he⟩ := h
  obtain ⟨ms', ht', he'⟩ := h'
  exact ⟨ms ++ ms', ht.append ht', by rw [List.filterMap_append, he, he', List.append_nil]⟩

end Proceeds

theorem proceeds_saves {s : Session} {ds left : List DeferredSave} (h : Taken s.saves ds left)
    (hdue : ∀ d ∈ ds, s.hasCome d.due = true) :
    s.Proceeds (ds.foldl saveNow { s with saves := left }) := by
  induction ds generalizing s with
  | nil =>
    cases h
    exact .refl s
  | cons d ds ih =>
    obtain ⟨front, rest, hsaves, more⟩ : ∃ front rest, s.saves = front ++ d :: rest ∧
        Taken (front ++ rest) ds left := by
      cases h with
      | one front rest hsplit more => exact ⟨front, rest, hsplit, more⟩
    let saved := { s with saves := front ++ rest }.saveNow d
    have hnow : s.Happens (.save d) saved := .save hsaves (hdue d List.mem_cons_self)
    have hleft : saved.saves = front ++ rest := saves_saveNow _ d
    have hclock : saved.clock = s.clock := clock_saveNow _ d
    have hlater : ∀ x ∈ ds, saved.hasCome x.due = true := by
      intro x hx
      unfold hasCome
      rw [hclock]
      exact hdue x (List.mem_cons_of_mem d hx)
    have hrest := ih (hleft.symm ▸ more) hlater
    have hsame : { saved with saves := left } = { s with saves := left }.saveNow d := by
      rw [saveNow_withSaves s left d, show saved = _ from saveNow_withSaves s (front ++ rest) d]
    rw [hsame] at hrest
    exact Proceeds.trans ⟨_, .one hnow, rfl⟩ hrest

theorem proceeds_saveDue (s : Session) : s.Proceeds s.saveDue := by
  unfold saveDue
  have hsorted := List.mergeSort_perm (s.saves.filter fun d => s.hasCome d.due)
    fun d e => !(e.due < d.due)
  have htaken := taken_filter (fun d : DeferredSave => s.hasCome d.due) hsorted
  refine proceeds_saves htaken fun d hd => ?_
  exact (List.mem_filter.mp (hsorted.mem_iff.mp hd)).2

/-- While a child has not been killed only the end of the talk is a reason to go on. -/
theorem talk_of_over {p : Pending} {clock : Float} {w : WaitEnd} (alive : p.killed = none)
    (hended : p.over? clock = some w) : ∃ e, p.ending? clock = some e ∧ w = .talk e := by
  unfold Pending.over? at hended
  rw [alive] at hended
  obtain ⟨e, hend, rfl⟩ := Option.map_eq_some_iff.mp hended
  exact ⟨e, hend, rfl⟩

theorem killed_of_over {p : Pending} {clock : Float} {w w' : WaitEnd} (killed : p.killed = some w')
    (hended : p.over? clock = some w) : w' = w ∧ p.child.lingers = false := by
  unfold Pending.over? at hended
  rw [killed] at hended
  dsimp only at hended
  split at hended
  · cases hended
  · exact ⟨Option.some.inj hended, Bool.eq_false_iff.mpr ‹_›⟩

theorem proceeds_leave {s : Session} {p : Pending} {front rest : List Pending} {w : WaitEnd}
    (waits : s.pending = front ++ p :: rest) (hended : p.over? s.clock = some w)
    (leaves : p.Leaves w) : s.Proceeds ({ s with pending := front ++ rest }.leave p w) := by
  cases w with
  | talk e => exact ⟨_, .one (.goOn waits hended leaves), rfl⟩
  | cancelled =>
    rcases leaves with hkilled | ⟨halive, -⟩
    · exact ⟨_, .one (.giveUp waits hended hkilled), rfl⟩
    · obtain ⟨e, -, he⟩ := talk_of_over halive hended
      cases he

/-- A request that can go on passes in one turn, or in two if its child is killed and gone. -/
theorem proceeds_pass {s : Session} {p : Pending} {front rest : List Pending} {w : WaitEnd}
    (waits : s.pending = front ++ p :: rest) (hended : p.over? s.clock = some w) :
    s.Proceeds ({ s with pending := front ++ rest }.pass p w) := by
  unfold pass
  split
  · rename_i hkill
    obtain ⟨halive, hkills⟩ := Bool.and_eq_true_iff.mp hkill
    replace halive : p.killed = none := Option.isNone_iff_eq_none.mp halive
    obtain ⟨e, -, rfl⟩ := talk_of_over halive hended
    have hnow : s.Happens (.kill p e) ({ s with pending := front ++ rest }.kill p (.talk e)) :=
      .kill waits hended halive hkills
    split
    · exact ⟨_, .one hnow, rfl⟩
    · rename_i hgone
      have hwaits : ({ s with pending := front ++ rest }.kill p (.talk e)).pending =
          front ++ rest ++ { p with killed := some (.talk e) } :: [] := rfl
      have hlast := proceeds_leave hwaits (if_neg hgone) (.inl rfl)
      rw [List.append_nil] at hlast
      exact Proceeds.trans ⟨_, .one hnow, rfl⟩ hlast
  · rename_i hspare
    refine proceeds_leave waits hended ?_
    cases hkilled : p.killed with
    | none => exact .inr ⟨hkilled, by simpa [hkilled] using hspare⟩
    | some w' =>
      obtain ⟨rfl, -⟩ := killed_of_over hkilled hended
      exact .inl hkilled

theorem proceeds_passes {s : Session} {ps left : List Pending} (h : Taken s.pending ps left)
    (hover : ∀ p ∈ ps, (p.over? s.clock).isSome = true) :
    s.Proceeds (ps.foldl (fun s p =>
      match p.over? s.clock with
      | some w => s.pass p w
      | none => s) { s with pending := left }) := by
  -- On the requests, of which each takes itself out of those that wait before it goes on.
  induction ps generalizing s left with
  | nil =>
    cases h
    exact .refl s
  | cons p ps ih =>
    obtain ⟨front, rest, hpending, taken⟩ : ∃ front rest, s.pending = front ++ p :: rest ∧
        Taken (front ++ rest) ps left := by
      cases h with
      | one front rest hsplit more => exact ⟨front, rest, hsplit, more⟩
    obtain ⟨w, hw⟩ := Option.isSome_iff_exists.mp (hover p List.mem_cons_self)
    obtain ⟨more, hmore⟩ := s.pass_withPending p w
    let passed := { s with pending := front ++ rest }.pass p w
    have hpassed : passed = { s.pass p w with pending := front ++ rest ++ more } := hmore _
    have hclock : passed.clock = s.clock := clock_pass _ p w
    have hlater : ∀ q ∈ ps, (q.over? passed.clock).isSome = true := by
      intro q hq
      rw [hclock]
      exact hover q (List.mem_cons_of_mem p hq)
    have htaken : Taken passed.pending ps (left ++ more) := by
      rw [hpassed]
      exact taken.append more
    -- It makes no difference to the turn how many others wait.
    have hsame : { passed with pending := left ++ more } = { s with pending := left }.pass p w := by
      rw [hmore left, hpassed]
    have hrest := ih htaken hlater
    rw [hsame] at hrest
    simp only [List.foldl_cons, hw]
    exact (proceeds_pass hpending hw).trans hrest

theorem proceeds_goOnDue (s : Session) : s.Proceeds s.goOnDue := by
  unfold goOnDue
  have hsorted := List.mergeSort_perm (s.pending.filter fun p => (p.over? s.clock).isSome)
    fun p q => !(q.due < p.due)
  have hrest : s.pending.filter (fun p => !(p.over? s.clock).isSome) =
      s.pending.filter fun p => (p.over? s.clock).isNone := by
    congr 1
    funext p
    cases p.over? s.clock <;> rfl
  have htaken := taken_filter (fun p : Pending => (p.over? s.clock).isSome) hsorted
  rw [hrest] at htaken
  refine proceeds_passes htaken fun p hp => ?_
  exact (List.mem_filter.mp (hsorted.mem_iff.mp hp)).2

theorem proceeds_settled (s : Session) : s.Proceeds s.settled := by
  have loop (fuel : Nat) : ∀ s : Session, s.Proceeds (settle fuel s) := by
    induction fuel with
    | zero => exact .refl
    | succ fuel ih =>
      intro s
      unfold settle
      split
      · exact (s.proceeds_saveDue.trans s.saveDue.proceeds_goOnDue).trans (ih _)
      · exact .refl s
  exact loop _ s

/-- Every run is a timeline, in which the events of the run come in their order. -/
theorem timeline_run (s : Session) (events : List Event) :
    ∃ ms, s.Timeline ms (s.run events) ∧ ms.filterMap Turn.event? = events := by
  induction events generalizing s with
  | nil => exact ⟨[], .start, rfl⟩
  | cons e rest ih =>
    obtain ⟨quiet, hquiet, hnone⟩ := (s.handle e).proceeds_settled
    obtain ⟨ms, hms, hevents⟩ := ih (s.step e)
    have hfirst : s.Timeline [⟨s, .event e, s.handle e⟩] (s.handle e) := .one (.event e)
    refine ⟨[⟨s, .event e, s.handle e⟩] ++ quiet ++ ms, (hfirst.append hquiet).append hms, ?_⟩
    simp only [List.filterMap_append, hnone, hevents]
    rfl

/-- What every single step of a session keeps holds all along a timeline. -/
theorem Kept.timeline {I : List Pending → Session → Prop} (k : Kept (fun _ => True) I)
    {s s' : Session} {ms : List Turn} (h : s.Timeline ms s') (hs : I s.pending s) :
    I s'.pending s' := by
  have alone {s : Session} {p : Pending} {front rest : List Pending}
      (waits : s.pending = front ++ p :: rest) (h : I s.pending s) :
      I (p :: (front ++ rest)) { s with pending := front ++ rest } := by
    refine k.pending _ (k.perm ?_ h)
    rw [waits]
    exact List.perm_middle
  induction h with
  | start => exact hs
  | @next _ s' _ _ _ now ih =>
    cases now with
    | event e => exact k.handle trivial ih
    | @save d front rest =>
      rw [pending_saveNow]
      exact k.saveNow d (k.saves _ ih)
    | @kill p front rest e waits =>
      have halone := alone waits ih
      exact k.killed [] (s := { s' with pending := front ++ rest }) (.talk e) halone
    | @goOn p front rest e waits =>
      rw [pending_goOn]
      exact k.goOn (s := { s' with pending := front ++ rest }) e (alone waits ih)
    | @giveUp p front rest waits =>
      exact k.giveUp (s := { s' with pending := front ++ rest }) (alone waits ih)

/-! ## The turns of a request -/

theorem Timeline.mem {s s' : Session} {ms : List Turn} (h : s.Timeline ms s') {m : Turn}
    (hm : m ∈ ms) : ∃ earlier later, ms = earlier ++ m :: later ∧ s.Timeline earlier m.before ∧
      m.before.Happens m.what m.after ∧ m.after.Timeline later s' := by
  induction h with
  | start => cases hm
  | @next past s' s'' a before now ih =>
    rcases List.mem_append.mp hm with hm | hm
    · obtain ⟨earlier, later, rfl, hbefore, hnow, hafter⟩ := ih hm
      refine ⟨earlier, later ++ [⟨s', a, s''⟩], by simp, hbefore, hnow, .next hafter now⟩
    · obtain rfl := List.mem_singleton.mp hm
      exact ⟨past, [], rfl, before, now, .start⟩

/-- The stages that requests come to at a turn are those of the request that it is one of. -/
theorem stages_happens {s s' : Session} {a : Happening} (h : s.Happens a s') :
    ∃ k, s'.stages = s.stages ++ k ∧ ∀ x ∈ k, Turn.ticket? ⟨s, a, s'⟩ = some x.ticket := by
  -- Where no stage is new there is nothing to show.
  have none {s' : Session} {a : Happening} (h : s'.stages = s.stages) : ∃ k,
      s'.stages = s.stages ++ k ∧ ∀ x ∈ k, Turn.ticket? ⟨s, a, s'⟩ = some x.ticket :=
    ⟨[], by simp [h], by simp⟩
  cases h with
  | save => exact none (saveNow_same _ _).1
  | kill => exact none (stages_note _ _ _)
  | @goOn p front rest e waits =>
    obtain ⟨k, hk, hs⟩ := moves_goOn { s with pending := front ++ rest } p e
    exact ⟨k, hs.stages, fun x hx => congrArg some (hk.own x hx).symm⟩
  | @giveUp p front rest waits =>
    refine ⟨_, (moves_giveUp { s with pending := front ++ rest } p).stages, fun x hx => ?_⟩
    rw [List.mem_singleton.mp hx]
    rfl
  | event e =>
    cases e with
    | request name task document child =>
      cases hd : s.document? document with
      | none => exact none (by simp only [Session.handle, hd])
      | some d =>
        have hticket : ∀ s', Turn.ticket? ⟨s, .event (.request name task document child), s'⟩ =
            some (s.ticketFor name task document d.path) := by
          intro s'
          simp [Turn.ticket?, hd]
        obtain ⟨-, -, hcase⟩ := s.stages_launch (P := fun _ => True) name task document d child
          (fun _ _ => trivial) fun _ _ _ => trivial
        simp only [Session.handle, hd, hticket]
        rcases hcase with ⟨k, hk, hs, -⟩ | ⟨p, -, hs, -⟩
        · refine ⟨_, hs, fun x hx => ?_⟩
          rcases List.mem_cons.mp hx with rfl | hx
          · rfl
          · rw [hk.own x hx]
        · refine ⟨_, hs, fun x hx => ?_⟩
          rw [List.mem_singleton.mp hx]
          rfl
    | cancel name =>
      simp only [Session.handle, cancel, Turn.ticket?]
      cases hp : s.pending.find? fun p => p.ticket.name == name with
      | none => exact ⟨[], (List.append_nil _).symm, by simp⟩
      | some p =>
        dsimp only
        split
        · exact ⟨[], (stages_note _ _ _).trans (List.append_nil _).symm, by simp⟩
        · exact ⟨[.ended p.ticket .cancelled], stages_close _ _ _, by simp [Stage.ticket]⟩
    | answer | died | advance | saveLater => exact none rfl
    | edit | replace | save | applyFix | settings | sink | issues | files =>
      exact none (s.handle_same rfl).1

/-- A stage that a request has come to was noted at one of its turns. -/
theorem Timeline.turn_of_stage {s s' : Session} {ms : List Turn} (h : s.Timeline ms s')
    {x : Stage} (hx : x ∈ s'.stages) : x ∈ s.stages ∨ ∃ m ∈ ms, m.ticket? = some x.ticket ∧
      x ∈ m.after.stages ∧ x ∉ m.before.stages := by
  induction h with
  | start => exact .inl hx
  | @next past s' s'' a before now ih =>
    obtain ⟨k, hstages, hown⟩ := stages_happens now
    by_cases hold : x ∈ s'.stages
    · refine (ih hold).imp_right ?_
      rintro ⟨m, hm, hboth⟩
      exact ⟨m, List.mem_append_left _ hm, hboth⟩
    · have hnew : x ∈ k := by
        rw [hstages] at hx
        exact (List.mem_append.mp hx).resolve_left hold
      exact .inr ⟨⟨s', a, s''⟩, by simp, hown x hnew, hx, hold⟩

theorem Timeline.stages {s s' : Session} {ms : List Turn} (h : s.Timeline ms s') {x : Stage}
    (hx : x ∈ s.stages) : x ∈ s'.stages := by
  induction h with
  | start => exact hx
  | next _ now ih =>
    obtain ⟨k, hstages, -⟩ := stages_happens now
    rw [hstages]
    exact List.mem_append_left k ih

end Session

namespace Turn

/-- A request for a document, which is as `d` then, begins, with a child that it may start. -/
structure Begins (m : Turn) (t : Ticket) (d : OpenDocument) (child : Child) : Prop where
  what : m.what = .event (.request t.name t.task t.document child)
  opened : m.before.document? t.document = some d
  ticket : m.before.ticketFor t.name t.task t.document d.path = t
  after : m.after = m.before.launch t.name t.task t.document d child

/-- A request begins and waits. -/
structure Starts (m : Turn) (p : Pending) (d : OpenDocument) (child : Child) : Prop
    extends Begins m p.ticket d child where
  waits : (Request.begin m.before.handler m.before.machine m.before.loaded p.ticket.task d.path
    d.text child).result = .ok (.waiting (p.settings, p.talk))

/-- The child of a request is killed, when the talk with it has been cut short or the request has
been given up. -/
structure Kills (m : Turn) (p : Pending) (w : WaitEnd) : Prop where
  what : (∃ e, w = .talk e ∧ m.what = .kill p e) ∨
    ∃ name, w = .cancelled ∧ m.what = .event (.cancel name) ∧
      m.before.pending.find? (fun p => p.ticket.name == name) = some p
  alive : p.killed = none
  kills : w.kills p.child.exited = true
  after : ∃ ps, m.after = { m.before.note p.ticket.name [.process .kill] with pending := ps }

/-- A request that waits goes on, or is given up.  One that has been given up before its child was
killed ends when that is gone; any other ends at once. -/
inductive Ends (m : Turn) (p : Pending) : Prop where
  | goesOn (e : TalkEnd) (what : m.what = .goOn p e) (leaves : p.Leaves (.talk e))
    (after : ∃ ps, m.after = { m.before.goOn p e with pending := ps })
  | reaped (what : m.what = .giveUp p) (killed : p.killed = some .cancelled)
    (after : ∃ ps, m.after = { m.before.giveUp p with pending := ps })
  | givenUp (name : Text) (what : m.what = .event (.cancel name))
    (found : m.before.pending.find? (fun p => p.ticket.name == name) = some p)
    (spent : p.killed ≠ none ∨ WaitEnd.cancelled.kills p.child.exited = false)
    (after : ∃ ps, m.after = { m.before.close p.ticket .cancelled with pending := ps })

theorem Starts.same {m : Turn} {p q : Pending} {d : OpenDocument} {child : Child}
    (h : m.Starts p d child) (hq : Session.SameRequest p q) : m.Starts q d child := by
  refine ⟨hq.ticket ▸ h.toBegins, ?_⟩
  rw [hq.ticket, hq.settings, hq.talk]
  exact h.waits

end Turn

/-- The turns of a request that waits after its first: one at which its child was killed, if that
has been. -/
inductive KilledAt (p : Pending) : List Turn → Prop where
  | alive (alive : p.killed = none) : KilledAt p []
  | killed {m : Turn} {q : Pending} {w : WaitEnd} (same : Session.SameRequest q p)
    (kills : m.Kills q w) (killed : p.killed = some w) : KilledAt p [m]

theorem KilledAt.same {p q : Pending} {ks : List Turn} (h : KilledAt p ks)
    (hq : Session.SameRequest p q) (hk : q.killed = p.killed) : KilledAt q ks := by
  cases h with
  | alive alive => exact .alive (hk.trans alive)
  | killed same kills killed => exact .killed (same.trans hq) kills (hk.trans killed)

/-- The turns that a request has had: none before it begins, one when it begins, which may be
all, perhaps one when its child is killed, and one when it goes on or is given up after it has
waited. -/
inductive TurnsOf (t : Ticket) : List Turn → Prop where
  | none : TurnsOf t []
  | begins {m : Turn} {d : OpenDocument} {child : Child} (first : m.Begins t d child) :
    TurnsOf t [m]
  | killed {m k : Turn} {p : Pending} {w : WaitEnd} {d : OpenDocument} {child : Child}
    (own : p.ticket = t) (first : m.Starts p d child) (kills : k.Kills p w) : TurnsOf t [m, k]
  | ends {m m' : Turn} {ks : List Turn} {p : Pending} {d : OpenDocument} {child : Child}
    (own : p.ticket = t) (first : m.Starts p d child) (meanwhile : KilledAt p ks)
    (last : m'.Ends p) : TurnsOf t (m :: ks ++ [m'])

def turnsOf (t : Ticket) (ms : List Turn) : List Turn := ms.filter fun m => m.ticket? = some t

theorem turnsOf_append_self {t : Ticket} {m : Turn} (hm : m.ticket? = some t) (ms : List Turn) :
    turnsOf t (ms ++ [m]) = turnsOf t ms ++ [m] := by
  simp [turnsOf, hm]

theorem turnsOf_append_ne {t : Ticket} {m : Turn} (hm : m.ticket? ≠ some t) (ms : List Turn) :
    turnsOf t (ms ++ [m]) = turnsOf t ms := by
  simp [turnsOf, hm]

namespace Session

/-- A request that has a turn has begun when the turn is over. -/
theorem began_happens {s s' : Session} {a : Happening} (h : s.Happens a s')
    (hwaiting : ∀ p ∈ s.pending, Stage.began p.ticket ∈ s.stages) {t : Ticket}
    (hown : Turn.ticket? ⟨s, a, s'⟩ = some t) : Stage.began t ∈ s'.stages := by
  have hgone {p : Pending} (hp : p ∈ s.pending) : Stage.began p.ticket ∈ s'.stages :=
    (Timeline.one h).stages (hwaiting p hp)
  cases h with
  | save => cases hown
  | kill waits | goOn waits | giveUp waits =>
    cases hown
    exact hgone (by rw [waits]; simp)
  | event e =>
    cases e with
    | request name task document child =>
      obtain ⟨d, hd, rfl⟩ := Option.map_eq_some_iff.mp hown
      replace hd : s.document? document = some d := hd
      obtain ⟨-, -, hcase⟩ := s.stages_launch (P := fun _ => True) name task document d child
        (fun _ _ => trivial) fun _ _ _ => trivial
      simp only [Session.handle, hd]
      rcases hcase with ⟨k, -, hs, -⟩ | ⟨p, -, hs, -⟩
      · simp [hs]
      · simp [hs]
    | cancel name =>
      obtain ⟨p, hp, rfl⟩ := Option.map_eq_some_iff.mp hown
      exact hgone (List.mem_of_find?_eq_some hp)
    | _ => cases hown

section Initial

variable {m₀ : Machine} {h : Handler} {source : SettingsSource}
  {documents : List (Text × OpenDocument)} {ms : List Turn} {s : Session}

theorem living_timeline (ht : (initial m₀ h source documents).Timeline ms s) :
    s.IsLiving h (s.pending.map (·.ticket)) :=
  (kept_living h).timeline ht ⟨rfl, .empty h.Lets 0⟩

theorem began_of_turn (ht : (initial m₀ h source documents).Timeline ms s) {m : Turn}
    (hm : m ∈ ms) {t : Ticket} (hown : m.ticket? = some t) : Stage.began t ∈ s.stages := by
  obtain ⟨earlier, later, rfl, hbefore, hnow, hafter⟩ := ht.mem hm
  have hliving := (living_timeline hbefore).living
  exact hafter.stages (began_happens hnow
    (fun p hp => hliving.began_of_waiting (List.mem_map_of_mem hp)) hown)

end Initial

/-- What is known of the turns of the requests while some of them wait. -/
structure Accounted (ms : List Turn) (s : Session) : Prop where
  turns : ∀ t, TurnsOf t (turnsOf t ms)
  waiting : ∀ p ∈ s.pending, ∃ m ks d child, turnsOf p.ticket ms = m :: ks ∧ m.Starts p d child ∧
    KilledAt p ks

theorem others_of_perm {ps qs : List Pending} {p q : Pending} (h : ps.Perm (p :: qs))
    (distinct : (ps.map (·.ticket)).Nodup) (hq : q ∈ qs) : q ∈ ps ∧ q.ticket ≠ p.ticket := by
  have hnot := (List.nodup_cons.mp ((h.map _).nodup_iff.mp distinct)).1
  exact ⟨h.mem_iff.mpr (List.mem_cons_of_mem p hq),
    fun he => hnot (he ▸ List.mem_map_of_mem hq)⟩

namespace Accounted

variable {ms : List Turn} {s s' : Session} {a : Happening}

theorem aside (v : Accounted ms s) (hnone : Turn.ticket? ⟨s, a, s'⟩ = none)
    (hpending : ∀ p ∈ s'.pending, ∃ q ∈ s.pending, SameRequest q p ∧ p.killed = q.killed) :
    Accounted (ms ++ [⟨s, a, s'⟩]) s' := by
  have hsame (t : Ticket) : turnsOf t (ms ++ [⟨s, a, s'⟩]) = turnsOf t ms :=
    turnsOf_append_ne (by simp [hnone]) ms
  constructor
  · intro t
    rw [hsame]
    exact v.turns t
  · intro p hp
    obtain ⟨q, hq, hqp, hkilled⟩ := hpending p hp
    obtain ⟨m, ks, d, child, hm, hstarts, hks⟩ := v.waiting q hq
    exact ⟨m, ks, d, child, by rw [hsame, hqp.ticket, hm], hstarts.same hqp, hks.same hqp hkilled⟩

theorem killed (v : Accounted ms s) {p : Pending} {w : WaitEnd} (hp : p ∈ s.pending)
    (hown : Turn.ticket? ⟨s, a, s'⟩ = some p.ticket) (hkills : Turn.Kills ⟨s, a, s'⟩ p w)
    (hpending : ∀ q ∈ s'.pending, q ∈ s.pending ∧ q.ticket ≠ p.ticket ∨
      q = { p with killed := some w }) : Accounted (ms ++ [⟨s, a, s'⟩]) s' := by
  obtain ⟨m, ks, d, child, hm, hstarts, hks⟩ := v.waiting p hp
  have hturns : turnsOf p.ticket (ms ++ [⟨s, a, s'⟩]) = [m, ⟨s, a, s'⟩] := by
    rw [turnsOf_append_self hown, hm]
    cases hks with
    | alive => rfl
    | killed _ _ hkilled => cases hkills.alive.symm.trans hkilled
  constructor
  · intro t
    by_cases ht : p.ticket = t
    · subst ht
      rw [hturns]
      exact .killed rfl hstarts hkills
    · rw [turnsOf_append_ne (by simpa [hown] using ht)]
      exact v.turns t
  · intro q hq
    rcases hpending q hq with ⟨hold, hne⟩ | rfl
    · rw [turnsOf_append_ne (by simpa [hown] using hne.symm)]
      exact v.waiting q hold
    · exact ⟨m, _, d, child, hturns, hstarts.same ⟨rfl, rfl, rfl⟩,
        .killed (q := p) ⟨rfl, rfl, rfl⟩ hkills rfl⟩

theorem ended (v : Accounted ms s) {p : Pending} (hp : p ∈ s.pending)
    (hown : Turn.ticket? ⟨s, a, s'⟩ = some p.ticket) (hends : Turn.Ends ⟨s, a, s'⟩ p)
    (hpending : ∀ q ∈ s'.pending, q ∈ s.pending ∧ q.ticket ≠ p.ticket) :
    Accounted (ms ++ [⟨s, a, s'⟩]) s' := by
  obtain ⟨m, ks, d, child, hm, hstarts, hks⟩ := v.waiting p hp
  constructor
  · intro t
    by_cases ht : p.ticket = t
    · subst ht
      rw [turnsOf_append_self hown, hm]
      exact .ends rfl hstarts hks hends
    · rw [turnsOf_append_ne (by simpa [hown] using ht)]
      exact v.turns t
  · intro q hq
    obtain ⟨hold, hne⟩ := hpending q hq
    rw [turnsOf_append_ne (by simpa [hown] using hne.symm)]
    exact v.waiting q hold

theorem began (v : Accounted ms s) {t : Ticket} {d : OpenDocument} {child : Child}
    (hown : Turn.ticket? ⟨s, a, s'⟩ = some t) (hfresh : turnsOf t ms = [])
    (hbegins : Turn.Begins ⟨s, a, s'⟩ t d child)
    (hpending : ∀ p ∈ s'.pending, p ∈ s.pending ∨ p.ticket = t ∧ p.killed = none ∧
      Turn.Starts ⟨s, a, s'⟩ p d child) : Accounted (ms ++ [⟨s, a, s'⟩]) s' := by
  constructor
  · intro u
    by_cases hu : t = u
    · subst hu
      rw [turnsOf_append_self hown, hfresh]
      exact .begins hbegins
    · rw [turnsOf_append_ne (by simpa [hown] using hu)]
      exact v.turns u
  · intro p hp
    rcases hpending p hp with hold | ⟨rfl, halive, hstarts⟩
    · have hne : t ≠ p.ticket := by
        rintro rfl
        obtain ⟨m, ks, d', child', hm, -⟩ := v.waiting p hold
        rw [hm] at hfresh
        cases hfresh
      rw [turnsOf_append_ne (by simpa [hown] using hne)]
      exact v.waiting p hold
    · refine ⟨_, [], d, child, ?_, hstarts, .alive halive⟩
      rw [turnsOf_append_self hown, hfresh]
      rfl

/-- A request is made.  It begins if it is for a document that is open. -/
theorem requested (v : Accounted ms s) (name : Text) (task : Task) (document : Text)
    (child : Child) (hfresh : ∀ d, s.document? document = some d →
      turnsOf (s.ticketFor name task document d.path) ms = []) :
    let e : Event := .request name task document child
    Accounted (ms ++ [⟨s, .event e, s.handle e⟩]) (s.handle e) := by
  intro e
  cases hd : s.document? document with
  | none =>
    have hsame : s.handle e = s := by
      simp only [e, Session.handle, hd]
    rw [hsame]
    exact v.aside (by simp [e, Turn.ticket?, hd]) fun p hp => ⟨p, hp, .refl p, rfl⟩
  | some d =>
    have hafter : s.handle e = s.launch name task document d child := by
      simp only [e, Session.handle, hd]
    rw [hafter]
    let t := s.ticketFor name task document d.path
    have hown : Turn.ticket? ⟨s, .event e, s.launch name task document d child⟩ = some t := by
      simp [e, Turn.ticket?, hd, t]
    have hbegins : Turn.Begins ⟨s, .event e, s.launch name task document d child⟩ t d child :=
      ⟨rfl, hd, rfl, rfl⟩
    refine v.began hown (hfresh d hd) hbegins fun p hp => ?_
    rcases pending_enter _ _ _ _ hp with hold | ⟨hticket, halive, hwaits⟩
    · exact .inl hold
    · exact .inr ⟨hticket, halive, hticket ▸ hbegins, hticket ▸ hwaits⟩

/-- A name is given up, and a request that waits under it: at once, or when its child is gone. -/
theorem cancelled (v : Accounted ms s) (distinct : (s.pending.map (·.ticket)).Nodup)
    (name : Text) : let e : Event := .cancel name
    Accounted (ms ++ [⟨s, .event e, s.handle e⟩]) (s.handle e) := by
  intro e
  simp only [e, Session.handle, cancel]
  cases hp : s.pending.find? fun p => p.ticket.name == name with
  | none => exact v.aside (by simp [Turn.ticket?, hp]) fun p hp => ⟨p, hp, .refl p, rfl⟩
  | some p =>
    have hmem := List.mem_of_find?_eq_some hp
    have hothers {q : Pending} := others_of_perm (q := q) (perm_eraseP hp) distinct
    dsimp only
    split
    · rename_i hkill
      obtain ⟨halive, hkills⟩ := Bool.and_eq_true_iff.mp hkill
      refine v.killed (w := .cancelled) hmem (by simp [Turn.ticket?, hp]) ?_ fun q hq => ?_
      · exact ⟨.inr ⟨name, rfl, rfl, hp⟩, Option.isNone_iff_eq_none.mp halive, hkills, _, rfl⟩
      · exact (List.mem_append.mp hq).imp hothers List.mem_singleton.mp
    · rename_i hspare
      refine v.ended hmem (by simp [Turn.ticket?, hp]) ?_ fun q hq => hothers hq
      refine .givenUp name rfl hp ?_ ⟨_, rfl⟩
      cases hkilled : p.killed with
      | some w => simp
      | none => exact .inr (by simpa [hkilled] using hspare)

end Accounted

/-- However a session goes on from its beginning, every request has the turns it should have, and
one that waits has had the turn at which it began. -/
theorem accounted_timeline {m₀ : Machine} {h : Handler} {source : SettingsSource}
    {documents : List (Text × OpenDocument)} {ms : List Turn} {s : Session}
    (ht : (initial m₀ h source documents).Timeline ms s) : Accounted ms s := by
  induction ht with
  | start => exact ⟨fun _ => .none, by simp [initial]⟩
  | @next past s s' a before now v =>
    have hliving := (living_timeline before).living
    -- One that waits can be told from the others, whose tickets are different.
    have alone {p : Pending} {front rest : List Pending} (waits : s.pending = front ++ p :: rest) :
        p ∈ s.pending ∧ ∀ q ∈ front ++ rest, q ∈ s.pending ∧ q.ticket ≠ p.ticket :=
      ⟨by rw [waits]; simp, fun q hq =>
        others_of_perm (waits ▸ List.perm_middle) hliving.distinct hq⟩
    cases now with
    | @save d front rest waits due =>
      refine v.aside rfl fun p hp => ?_
      rw [pending_saveNow] at hp
      exact ⟨p, hp, .refl p, rfl⟩
    | @kill p front rest e waits ended alive kills =>
      obtain ⟨hp, hothers⟩ := alone waits
      refine v.killed hp rfl ⟨.inl ⟨e, rfl, rfl⟩, alive, kills, _, rfl⟩ fun q hq => ?_
      exact (List.mem_append.mp hq).imp (hothers q) List.mem_singleton.mp
    | @goOn p front rest e waits ended leaves =>
      obtain ⟨hp, hothers⟩ := alone waits
      have hsame := goOn_withPending s (front ++ rest) p e
      refine v.ended hp rfl (.goesOn e rfl leaves ⟨_, hsame⟩) fun q hq => ?_
      rw [pending_goOn] at hq
      exact hothers q hq
    | @giveUp p front rest waits gone killed =>
      obtain ⟨hp, hothers⟩ := alone waits
      exact v.ended hp rfl (.reaped rfl killed ⟨_, rfl⟩) hothers
    | event e =>
      cases e with
      | request name task document child =>
        refine v.requested name task document child fun d hd => ?_
        -- A request with a turn has begun, and the number of this one is a new one.
        refine List.filter_eq_nil_iff.mpr fun m hm hturn => ?_
        have hbegan := began_of_turn before hm (of_decide_eq_true hturn)
        obtain ⟨k, hk, hid⟩ := hliving.numbered _ hbegan
        have hsame : s.requests + 1 = k := RequestId.ofNumber_injective hid
        omega
      | cancel name => exact v.cancelled hliving.distinct name
      | answer name child =>
        refine v.aside rfl fun p hp => ?_
        obtain ⟨q, hq, rfl⟩ := List.mem_map.mp hp
        exact ⟨q, hq, same_heard name child _ q⟩
      | died name =>
        refine v.aside rfl fun p hp => ?_
        obtain ⟨q, hq, rfl⟩ := List.mem_map.mp hp
        exact ⟨q, hq, same_buried name q⟩
      | advance | saveLater | settings | sink | files =>
        exact v.aside rfl fun p hp => ⟨p, hp, .refl p, rfl⟩
      | edit | replace | save | applyFix | issues =>
        refine v.aside rfl fun p hp => ⟨p, ?_, .refl p, rfl⟩
        simp only [Session.handle] at hp
        revert hp
        repeat' split
        all_goals exact id

end Session
end EditorLint
