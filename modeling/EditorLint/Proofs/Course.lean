import EditorLint.Session.Step

/-!
# What the course of a session keeps

A session takes many steps at one event: saves take place, and requests go on one after
another.  `Kept` says what each single step has to keep, and `Kept.run` that a whole run
keeps it then; `Settles` is the part of it about what comes due by itself.

When an event is over nothing is due (`isDue_settled`), so a request that waits then has a
child that has not answered, and time left, or one that has been killed and lingers.

The property is one of the requests that wait for a child, in any order, and of the rest of
the session.  While several requests go on at one event, those whose turn has not come yet
wait outside `pending`, so the property does not look there.
-/

namespace EditorLint

/-- Whether an event is the host's own doing: it concerns neither requests nor time. -/
def Event.ofHost : Event → Bool
  | .edit .. | .replace .. | .save .. | .applyFix .. => true
  | .settings .. | .sink .. | .issues .. | .files .. => true
  | .request .. | .answer .. | .died .. | .cancel .. | .advance .. | .saveLater .. => false

namespace Session

/-! ## What a step leaves alone -/

section Frame

variable (s : Session) (t : Ticket) (who : Text) (es : List Effect) (c : Completion) (x : Stage)

@[simp] theorem pending_note : (s.note who es).pending = s.pending := rfl

@[simp] theorem pending_mark : (s.mark x).pending = s.pending := rfl

@[simp] theorem pending_close : (s.close t c).pending = s.pending := rfl

@[simp] theorem clock_note : (s.note who es).clock = s.clock := rfl

@[simp] theorem clock_mark : (s.mark x).clock = s.clock := rfl

@[simp] theorem clock_close : (s.close t c).clock = s.clock := rfl

@[simp] theorem pending_conclude (a : Action Completion) :
    (s.conclude t a).pending = s.pending := by
  unfold conclude
  split <;> rfl

@[simp] theorem clock_conclude (a : Action Completion) : (s.conclude t a).clock = s.clock := by
  unfold conclude
  split <;> rfl

@[simp] theorem pending_publish (o : Outcome) : (s.publish t o).pending = s.pending := by
  unfold publish publishCurrent
  repeat' split
  all_goals simp [exhibit]

@[simp] theorem clock_publish (o : Outcome) : (s.publish t o).clock = s.clock := by
  unfold publish publishCurrent
  repeat' split
  all_goals simp [exhibit]

@[simp] theorem pending_closeFix (delay : Float) (x : Except Failure (Option OpenDocument)) :
    (s.closeFix t delay x).pending = s.pending := by
  unfold closeFix
  split <;> rfl

@[simp] theorem clock_closeFix (delay : Float) (x : Except Failure (Option OpenDocument)) :
    (s.closeFix t delay x).clock = s.clock := by
  unfold closeFix
  split <;> rfl

@[simp] theorem pending_amend (delay : Float) (o : Outcome) :
    (s.amend t delay o).pending = s.pending := by
  unfold amend
  split <;> simp

@[simp] theorem clock_amend (delay : Float) (o : Outcome) :
    (s.amend t delay o).clock = s.clock := by
  unfold amend
  split <;> simp

@[simp] theorem pending_finish (delay : Float) (o : Outcome) :
    (s.finish t delay o).pending = s.pending := by
  unfold finish
  split <;> simp

@[simp] theorem clock_finish (delay : Float) (o : Outcome) :
    (s.finish t delay o).clock = s.clock := by
  unfold finish
  split <;> simp

theorem result_proceed (p : Pending) (e : TalkEnd) : (s.proceed p e).result =
    (Request.proceed s.handler p.ticket.path p.talk e).result := by
  unfold proceed Pending.reap
  split <;> rfl

theorem effects_proceed (p : Pending) (e : TalkEnd) : (s.proceed p e).effects = p.reap.effects ++
    ((Request.proceed s.handler p.ticket.path p.talk e).forRequest p.ticket.id).effects := by
  unfold proceed Pending.reap
  split <;> rfl

@[simp] theorem pending_goOn (p : Pending) (e : TalkEnd) : (s.goOn p e).pending = s.pending := by
  simp only [goOn]
  split <;> simp

@[simp] theorem clock_goOn (p : Pending) (e : TalkEnd) : (s.goOn p e).clock = s.clock := by
  simp only [goOn]
  split <;> simp

@[simp] theorem pending_giveUp (p : Pending) : (s.giveUp p).pending = s.pending := rfl

@[simp] theorem clock_giveUp (p : Pending) : (s.giveUp p).clock = s.clock := rfl

@[simp] theorem pending_leave (p : Pending) (w : WaitEnd) : (s.leave p w).pending = s.pending := by
  cases w <;> simp [leave]

@[simp] theorem clock_leave (p : Pending) (w : WaitEnd) : (s.leave p w).clock = s.clock := by
  cases w <;> simp [leave]

@[simp] theorem clock_pass (p : Pending) (w : WaitEnd) : (s.pass p w).clock = s.clock := by
  unfold pass
  repeat' split
  all_goals simp [kill]

/-- Of the requests that can go on only one whose child lingers still waits then. -/
theorem pending_pass (p : Pending) (w : WaitEnd) :
    (s.pass p w).pending = s.pending ∨ p.child.lingers = true ∧
      (s.pass p w).pending = s.pending ++ [{ p with killed := some w }] := by
  unfold pass
  split
  · split
    · rename_i lingers
      exact .inr ⟨lingers, rfl⟩
    · simp
  · simp

@[simp] theorem pending_saveNow (d : DeferredSave) : (s.saveNow d).pending = s.pending := by
  unfold saveNow
  repeat' split
  all_goals rfl

end Frame

/-- The same request, whatever its child does, and whatever has been done to that. -/
structure SameRequest (p q : Pending) : Prop where
  ticket : q.ticket = p.ticket
  settings : q.settings = p.settings
  talk : q.talk = p.talk

theorem SameRequest.refl (p : Pending) : SameRequest p p := ⟨rfl, rfl, rfl⟩

theorem SameRequest.trans {p q r : Pending} (h : SameRequest p q) (h' : SameRequest q r) :
    SameRequest p r :=
  ⟨h'.ticket.trans h.ticket, h'.settings.trans h.settings, h'.talk.trans h.talk⟩

theorem same_heard (name : Text) (child : Child) (due : Option Float) (p : Pending) :
    SameRequest p (heard name child due p) ∧ (heard name child due p).killed = p.killed := by
  unfold heard
  repeat' split
  all_goals exact ⟨⟨rfl, rfl, rfl⟩, rfl⟩

theorem same_buried (name : Text) (p : Pending) :
    SameRequest p (buried name p) ∧ (buried name p).killed = p.killed := by
  unfold buried
  split <;> exact ⟨⟨rfl, rfl, rfl⟩, rfl⟩

theorem tickets_map {f : Pending → Pending} (hf : ∀ p, SameRequest p (f p)) (ps : List Pending) :
    (ps.map f).map (·.ticket) = ps.map (·.ticket) := by
  rw [List.map_map]
  exact List.map_congr_left fun p _ => (hf p).ticket

/-- The first of the requests with a property can be told from the others that wait. -/
theorem perm_eraseP {P : Pending → Bool} {ps : List Pending} {p : Pending}
    (hp : ps.find? P = some p) : ps.Perm (p :: ps.eraseP P) := by
  induction ps with
  | nil => cases hp
  | cons q ps ih =>
    cases hq : P q with
    | true =>
      rw [List.find?_cons_of_pos hq] at hp
      rw [List.eraseP_cons_of_pos hq, Option.some.inj hp]
    | false =>
      rw [List.find?_cons_of_neg (by simp [hq])] at hp
      rw [List.eraseP_cons_of_neg (by simp [hq])]
      exact ((ih hp).cons q).trans (.swap p q _)

section Enter

variable (s : Session) (t : Ticket)

/-- A request that waits after another one has begun waited before, or is that one. -/
theorem pending_enter (child : Child)
    (x : Except Failure (Progress (LinterSettings × Runner.Talk) Outcome)) {p : Pending}
    (hp : p ∈ (s.enter t child x).pending) :
    p ∈ s.pending ∨ p.ticket = t ∧ p.killed = none ∧ x = .ok (.waiting (p.settings, p.talk)) := by
  unfold enter at hp
  split at hp
  · exact .inl hp
  · rw [pending_finish] at hp
    exact .inl hp
  · rcases List.mem_append.mp hp with hp | hp
    · exact .inl hp
    · rw [List.mem_singleton.mp hp]
      exact .inr ⟨rfl, rfl, rfl⟩

end Enter

/-! ## One step after another -/

/-- What is kept while saves take place and requests go on. -/
structure Settles (I : List Pending → Session → Prop) : Prop where
  perm : ∀ {ps qs s}, ps.Perm qs → I ps s → I qs s
  aside : ∀ {ps s} qs ds clock, I ps s → I ps { s with pending := qs, saves := ds, clock }
  kill : ∀ {ps s p} w, I (p :: ps) s →
    I ({ p with killed := some w } :: ps) (s.note p.ticket.name [.process .kill])
  goOn : ∀ {ps s p} e, I (p :: ps) s → I ps (s.goOn p e)
  giveUp : ∀ {ps s p}, I (p :: ps) s → I ps (s.giveUp p)
  saveNow : ∀ {ps s} d, I ps s → I ps (s.saveNow d)

/-- What every single step of a session keeps, where only what is allowed happens. -/
structure Kept (allowed : Event → Prop) (I : List Pending → Session → Prop) : Prop
    extends Settles I where
  launch : ∀ {ps s document d} name task child, s.document? document = some d → I ps s →
    ∃ qs, (s.launch name task document d child).pending = s.pending ++ qs ∧
      I (ps ++ qs) (s.launch name task document d child)
  learn : ∀ {ps s} f, (∀ p, SameRequest p (f p)) → I ps s → I (ps.map f) s
  abandon : ∀ {ps s p}, I (p :: ps) s → I ps (s.close p.ticket .cancelled)
  host : ∀ {ps s e}, allowed e → e.ofHost = true → I ps s → I ps (s.handle e)

namespace Settles

variable {I : List Pending → Session → Prop} (k : Settles I)
include k

/-- A property keeps when requests wait outside `pending`, saves go, and time passes. -/
theorem pending {ps : List Pending} {s : Session} (qs : List Pending) (h : I ps s) :
    I ps { s with pending := qs } :=
  k.aside qs s.saves s.clock h

theorem saves {ps : List Pending} {s : Session} (ds : List DeferredSave) (h : I ps s) :
    I ps { s with saves := ds } :=
  k.aside s.pending ds s.clock h

theorem foldl_saveNow (ds : List DeferredSave) {s : Session} (h : I s.pending s) :
    I (ds.foldl Session.saveNow s).pending (ds.foldl Session.saveNow s) := by
  induction ds generalizing s with
  | nil => exact h
  | cons d rest ih =>
    rw [List.foldl_cons]
    apply ih
    rw [pending_saveNow]
    exact k.saveNow d h

theorem saveDue {s : Session} (h : I s.pending s) : I s.saveDue.pending s.saveDue := by
  unfold Session.saveDue
  exact k.foldl_saveNow _ (k.saves _ h)

theorem leave {ps : List Pending} {s : Session} {p : Pending} (w : WaitEnd) (h : I (p :: ps) s) :
    I ps (s.leave p w) := by
  cases w with
  | talk e => exact k.goOn e h
  | cancelled => exact k.giveUp h

/-- The others that wait may be outside `pending` when a child is killed. -/
theorem killed (ps : List Pending) {s : Session} {p : Pending} (w : WaitEnd)
    (h : I (p :: (ps ++ s.pending)) s) : I (ps ++ (s.kill p w).pending) (s.kill p w) := by
  refine k.perm ?_ (k.pending _ (k.kill w h))
  show ({ p with killed := some w } :: (ps ++ s.pending)).Perm (ps ++ (s.pending ++ [_]))
  rw [← List.append_assoc]
  exact (List.perm_append_singleton _ _).symm

theorem pass {ps : List Pending} {s : Session} {p : Pending} (w : WaitEnd)
    (h : I (p :: (ps ++ s.pending)) s) : I (ps ++ (s.pass p w).pending) (s.pass p w) := by
  unfold Session.pass
  split
  · split
    · exact k.killed ps w h
    · rw [pending_leave]
      exact k.leave w (k.kill w h)
  · rw [pending_leave]
    exact k.leave w h

/-- Requests that can go on do, each in turn, while the others wait. -/
theorem foldl_pass (queue : List Pending) {s : Session} (h : I (queue ++ s.pending) s) :
    let r := queue.foldl (fun s p =>
      match p.over? s.clock with
      | some w => s.pass p w
      | none => s) s
    (∀ p ∈ queue, (p.over? s.clock).isSome) → I r.pending r := by
  intro r hq
  induction queue generalizing s with
  | nil => exact h
  | cons p rest ih =>
    obtain ⟨w, hw⟩ := Option.isSome_iff_exists.mp (hq p List.mem_cons_self)
    simp only [r, List.foldl_cons, hw]
    refine ih (k.pass w h) fun q hm => ?_
    rw [clock_pass]
    exact hq q (List.mem_cons_of_mem p hm)

theorem goOnDue {s : Session} (h : I s.pending s) : I s.goOnDue.pending s.goOnDue := by
  unfold Session.goOnDue
  refine k.foldl_pass _ (k.pending _ (k.perm ?_ h)) fun p hp => ?_
  · -- Those that go on do so in the order of their time, which is a permutation of them.
    have hsplit := List.filter_append_perm (fun p : Pending => (p.over? s.clock).isSome) s.pending
    refine hsplit.symm.trans ((List.mergeSort_perm _ _).symm.append ?_)
    simp
  · have := (List.mem_filter.mp ((List.mergeSort_perm _ _).mem_iff.mp hp)).2
    simpa using this

theorem settled {s : Session} (h : I s.pending s) : I s.settled.pending s.settled := by
  -- Every round keeps the property, so the number of rounds does not matter.
  have loop : ∀ (fuel : Nat) (s : Session), I s.pending s →
      I (settle fuel s).pending (settle fuel s) := by
    intro fuel
    induction fuel with
    | zero => intro s h; exact h
    | succ fuel ih =>
      intro s h
      unfold settle
      split
      · exact ih _ (k.goOnDue (k.saveDue h))
      · exact h
  exact loop _ s h

end Settles

namespace Kept

variable {allowed : Event → Prop} {I : List Pending → Session → Prop} (k : Kept allowed I)
include k

theorem cancelled {s : Session} (name : Text) (h : I s.pending s) :
    I (s.cancel name).pending (s.cancel name) := by
  unfold Session.cancel
  split
  · rename_i p hp
    have hfirst := k.pending (s.pending.eraseP fun p => p.ticket.name == name)
      (k.perm (perm_eraseP hp) h)
    dsimp only
    split
    · exact k.killed [] .cancelled hfirst
    · exact k.abandon hfirst
  · exact k.saves _ h

theorem handle {s : Session} {e : Event} (he : allowed e) (h : I s.pending s) :
    I (s.handle e).pending (s.handle e) := by
  have host : e.ofHost = true → (s.handle e).pending = s.pending →
      I (s.handle e).pending (s.handle e) := by
    intro ho hp
    rw [hp]
    exact k.host he ho h
  cases e with
  | request name task document child =>
    simp only [Session.handle]
    split
    · rename_i d hd
      obtain ⟨qs, hqs, hi⟩ := k.launch name task child hd h
      rw [hqs]
      exact hi
    · exact h
  | answer name child => exact k.pending _ (k.learn _ (fun p => (same_heard name child _ p).1) h)
  | died name => exact k.pending _ (k.learn _ (fun p => (same_buried name p).1) h)
  | cancel name => exact k.cancelled name h
  | advance seconds => exact k.aside s.pending s.saves (s.clock + seconds) h
  | saveLater name document delay => exact k.saves _ h
  | edit | replace | save | applyFix | settings | sink | issues | files =>
    apply host rfl
    simp only [Session.handle]
    repeat' split
    all_goals rfl

theorem step {s : Session} {e : Event} (he : allowed e) (h : I s.pending s) :
    I (s.step e).pending (s.step e) :=
  k.settled (k.handle he h)

theorem run {s : Session} {events : List Event} (he : ∀ e ∈ events, allowed e)
    (h : I s.pending s) : I (s.run events).pending (s.run events) := by
  induction events generalizing s with
  | nil => exact h
  | cons e rest ih =>
    unfold Session.run
    rw [List.foldl_cons]
    exact ih (fun e' he' => he e' (List.mem_cons_of_mem e he'))
      (k.step (he e List.mem_cons_self) h)

end Kept

/-! ## When nothing is due -/

def Rests (s : Session) : Prop := ∀ p ∈ s.pending, p.over? s.clock = none

@[simp] theorem clock_saveNow (s : Session) (d : DeferredSave) :
    (s.saveNow d).clock = s.clock := by
  unfold saveNow
  repeat' split
  all_goals rfl

@[simp] theorem saves_saveNow (s : Session) (d : DeferredSave) :
    (s.saveNow d).saves = s.saves := by
  unfold saveNow
  repeat' split
  all_goals rfl

theorem saveDue_same (s : Session) :
    s.saveDue.saves = s.saves.filter (fun d => !s.hasCome d.due) ∧
      s.saveDue.pending = s.pending ∧ s.saveDue.clock = s.clock := by
  have fold (ds : List DeferredSave) (s : Session) :
      (ds.foldl saveNow s).saves = s.saves ∧ (ds.foldl saveNow s).pending = s.pending ∧
        (ds.foldl saveNow s).clock = s.clock := by
    induction ds generalizing s with
    | nil => exact ⟨rfl, rfl, rfl⟩
    | cons d rest ih =>
      obtain ⟨hsaves, hpending, hclock⟩ := ih (s.saveNow d)
      rw [List.foldl_cons, hsaves, hpending, hclock]
      exact ⟨saves_saveNow s d, pending_saveNow s d, clock_saveNow s d⟩
  exact fold _ _

/-- A request that goes on ends, or waits for a child that lingers. -/
theorem Rests.pass {s : Session} (h : s.Rests) (p : Pending) (w : WaitEnd) : (s.pass p w).Rests := by
  intro q hq
  rw [clock_pass]
  rcases s.pending_pass p w with hpending | ⟨lingers, hpending⟩
  · rw [hpending] at hq
    exact h q hq
  · rw [hpending] at hq
    rcases List.mem_append.mp hq with hq | hq
    · exact h q hq
    · rw [List.mem_singleton.mp hq]
      exact if_pos lingers

theorem rests_goOnDue (s : Session) : s.goOnDue.Rests := by
  have fold (ps : List Pending) (s : Session) (h : s.Rests) :
      (ps.foldl (fun s p =>
        match p.over? s.clock with
        | some w => s.pass p w
        | none => s) s).Rests := by
    induction ps generalizing s with
    | nil => exact h
    | cons p rest ih =>
      rw [List.foldl_cons]
      split
      · exact ih _ (h.pass p _)
      · exact ih s h
  refine fold _ _ fun p hp => ?_
  simpa using (List.mem_filter.mp hp).2

/-- Where no request can go on, saves are all that can be due. -/
theorem Rests.goOnDue {s : Session} (h : s.Rests) : s.goOnDue = s := by
  have hnone : s.pending.filter (fun p => (p.over? s.clock).isSome) = [] := by
    refine List.filter_eq_nil_iff.mpr fun p hp => ?_
    simp [h p hp]
  have hall : s.pending.filter (fun p => (p.over? s.clock).isNone) = s.pending := by
    refine List.filter_eq_self.mpr fun p hp => ?_
    simp [h p hp]
  unfold Session.goOnDue
  simp only [hnone, hall, List.mergeSort_nil, List.foldl_nil]

theorem Rests.isDue_saveDue {s : Session} (h : s.Rests) : s.saveDue.isDue = false := by
  obtain ⟨hsaves, hpending, hclock⟩ := s.saveDue_same
  have hpast : ∀ d, s.saveDue.hasCome d = s.hasCome d := fun d => by
    unfold hasCome
    rw [hclock]
  simp only [isDue, Bool.or_eq_false_iff, List.any_eq_false]
  constructor
  · intro d hd
    rw [hsaves] at hd
    simpa [hpast] using (List.mem_filter.mp hd).2
  · intro p hp
    rw [hpending] at hp
    simp [hclock, h p hp]

theorem settle_of_not_due {s : Session} (h : s.isDue = false) (fuel : Nat) :
    settle fuel s = s := by
  cases fuel <;> simp [settle, h]

theorem rests_of_not_due {s : Session} (h : s.isDue = false) : s.Rests := by
  intro p hp
  have hnone := List.any_eq_false.mp (Bool.or_eq_false_iff.mp h).2 p hp
  simpa using hnone

/-- Two rounds are enough, and one where no request can go on: in the first every request
goes on that can, in the second the saves take place that were due at once. -/
theorem isDue_settled (s : Session) : s.settled.isDue = false := by
  have one (fuel : Nat) (s : Session) (h : s.Rests) : (settle (fuel + 1) s).isDue = false := by
    unfold settle
    split
    · have hrests : s.saveDue.Rests := rests_of_not_due h.isDue_saveDue
      rw [hrests.goOnDue, settle_of_not_due h.isDue_saveDue]
      exact h.isDue_saveDue
    · rename_i hdue
      exact Bool.eq_false_iff.mpr hdue
  have two (fuel : Nat) (s : Session) : (settle (fuel + 2) s).isDue = false := by
    rw [settle]
    split
    · exact one fuel _ (rests_goOnDue _)
    · rename_i hdue
      exact Bool.eq_false_iff.mpr hdue
  unfold settled
  cases hp : s.pending with
  | nil => exact one s.saves.length s (by simp [Rests, hp])
  | cons p rest =>
    have hfuel : s.saves.length + 2 * (p :: rest).length + 1 =
        (s.saves.length + 2 * rest.length + 1) + 2 := by
      simp only [List.length_cons]
      omega
    rw [hfuel]
    exact two _ s

theorem rests_run {s : Session} (h : s.Rests) (events : List Event) : (s.run events).Rests := by
  induction events generalizing s with
  | nil => exact h
  | cons e rest ih => exact ih (rests_of_not_due (isDue_settled _))

theorem isDue_run {s : Session} (h : s.isDue = false) (events : List Event) :
    (s.run events).isDue = false := by
  induction events generalizing s with
  | nil => exact h
  | cons e rest ih => exact ih (isDue_settled _)

end Session

end EditorLint
