import EditorLint.Proofs.FixCourse
import EditorLint.Proofs.Saving
import EditorLint.Proofs.Timeline

/-!
# Deferred saves

A document that is fixed while the host saves it is saved again a little later.  However the
requests of a session interleave, with each other, with what the user types and with time
(`saves_deferred`):

* each request that edits a document while that is being saved plans one save, which is due
  as long after the edit as the settings say that were loaded for the request, and nothing
  else plans one (`Plan`);
* a planned save takes place once, when it is due and the request has ended, or it waits;
  after a run none waits that is due;
* it saves the document as that is then, and what goes wrong with it concerns nothing else
  (`Turn.Saves`);
* requests save nothing themselves.

The invariant is that the saves that have taken place and those that wait are together the
ones that are planned, and each turn adds to both sides or to neither (`planned_timeline`).
-/

namespace EditorLint

/-- How often a document has been saved, as far as it counts that. -/
def OpenDocument.timesSaved : OpenDocument → Nat
  | buffer b => b.saves
  | file _ => 0

def Ticket.saveAt (t : Ticket) (due : Float) : DeferredSave := ⟨none, t.document, some t.id, due⟩

/-- The request that has edited its document while that is being saved, when it ends. -/
def Stage.resaver? : Stage → Option Ticket
  | .ended t (.edited true) => if t.task = .willSave ∨ t.task = .fix true then some t else none
  | _ => none

/-- The requests whose documents have to be saved again, in the order in which they ended. -/
def resavers (h : List Stage) : List Ticket := h.filterMap Stage.resaver?

/-- The saves that requests have caused; those of the host have names. -/
def caused (ds : List DeferredSave) : List DeferredSave := ds.filter fun d => d.name.isNone

@[simp] theorem resavers_append (h k : List Stage) :
    resavers (h ++ k) = resavers h ++ resavers k :=
  List.filterMap_append

@[simp] theorem caused_append (ds es : List DeferredSave) :
    caused (ds ++ es) = caused ds ++ caused es :=
  List.filter_append ds es

/-! ## Edits -/

namespace OpenDocument

variable {live d : OpenDocument} {text : Text}

theorem replaced_of_applyFix {fix : Option Text} (h : live.applyFix fix = .ok (some d)) :
    ∃ text, fix = some text ∧ text ≠ live.text ∧ live.replaceText text = .ok d := by
  unfold applyFix at h
  cases fix with
  | none => cases h
  | some text =>
    by_cases hsame : text = live.text
    · simp [hsame] at h
    · simp only [hsame, if_false] at h
      cases hr : live.replaceText text with
      | error f =>
        rw [hr] at h
        cases h
      | ok d' =>
        rw [hr] at h
        cases h
        exact ⟨text, rfl, hsame, hr⟩

/-- A document whose body is replaced has the new text, and is not saved by that. -/
theorem replaceText_ok (h : live.replaceText text = .ok d) :
    d.text = text ∧ d.timesSaved = live.timesSaved := by
  unfold replaceText at h
  split at h
  · split at h
    · cases h
    · cases h
      exact ⟨rfl, rfl⟩
  · cases h
    exact ⟨rfl, rfl⟩

end OpenDocument

/-- A fix that changes its document replaces the text that is there by another one. -/
theorem Fix.replaced_of_amend {h : Handler} {live d : OpenDocument} {o : Outcome}
    (ha : (Fix.amend h live o).result = .ok (some d)) :
    ∃ text, o.fix = some text ∧ text ≠ live.text ∧ live.replaceText text = .ok d := by
  unfold Fix.amend at ha
  split at ha
  · obtain ⟨_, -, ha⟩ := Action.result_bind ha
    cases ha
  · cases ha
  · rename_i fixed hfixed
    obtain ⟨_, -, ha⟩ := Action.result_bind ha
    cases ha
    exact OpenDocument.replaced_of_applyFix hfixed

namespace Session

/-! ## What the parts of a request save -/

/-- A session goes on, saves nothing, and plans no save. -/
structure Quiet (s s' : Session) : Prop where
  stages : ∃ k, s'.stages = s.stages ++ k ∧ resavers k = []
  saves : s'.saves = s.saves
  machine : s'.machine = s.machine
  times : ∀ name, (s'.document? name).map (·.timesSaved) = (s.document? name).map (·.timesSaved)

/-- A document gets a proposed text, which is another one than it has. -/
structure Edits (s : Session) (name : Text) (o : Outcome) (live d : OpenDocument) (s' : Session) :
    Prop where
  before : s.document? name = some live
  proposed : o.fix = some d.text
  other : d.text ≠ live.text
  replaced : live.replaceText d.text = .ok d
  after : s'.document? name = some d

/-- A request edits its document while that is being saved, and plans a save. -/
structure Resaves (s : Session) (t : Ticket) (delay : Float) (o : Outcome) (s' : Session) :
    Prop where
  saving : t.task = .willSave ∨ t.task = .fix true
  edits : ∃ live d, s.Edits t.document o live d s'
  stages : s'.stages = s.stages ++ [.found t o, .ended t (.edited true)]
  saves : s'.saves = s.saves ++ [t.saveAt (s.clock + delay)]
  machine : s'.machine = s.machine
  times : ∀ name, (s'.document? name).map (·.timesSaved) = (s.document? name).map (·.timesSaved)

namespace Quiet

variable {s s' s'' : Session} {t : Ticket}

theorem refl (s : Session) : s.Quiet s := ⟨⟨[], by simp, rfl⟩, rfl, rfl, fun _ => rfl⟩

theorem trans (h : s.Quiet s') (h' : s'.Quiet s'') : s.Quiet s'' := by
  obtain ⟨k, hk, hnone⟩ := h.stages
  obtain ⟨l, hl, hnone'⟩ := h'.stages
  constructor
  · exact ⟨k ++ l, by rw [hl, hk, List.append_assoc], by simp [hnone, hnone']⟩
  · exact h'.saves.trans h.saves
  · exact h'.machine.trans h.machine
  · exact fun name => (h'.times name).trans (h.times name)

theorem note (h : s.Quiet s') (who : Text) (es : List Effect) : s.Quiet (s'.note who es) :=
  h.trans ⟨⟨[], by simp, rfl⟩, rfl, rfl, fun _ => rfl⟩

theorem mark (h : s.Quiet s') {x : Stage} (hx : x.resaver? = none) : s.Quiet (s'.mark x) :=
  h.trans ⟨⟨[x], stages_mark s' x, by simp [resavers, hx]⟩, rfl, rfl, fun _ => rfl⟩

theorem close (h : s.Quiet s') {c : Completion} (hc : c ≠ .edited true) :
    s.Quiet (s'.close t c) := by
  have hnone : (Stage.ended t c).resaver? = none := by
    unfold Stage.resaver?
    split
    · rename_i hx
      cases hx
      exact absurd rfl hc
    · rfl
  exact h.trans
    ⟨⟨[.ended t c], stages_close s' t c, by simp [resavers, hnone]⟩, rfl, rfl, fun _ => rfl⟩

theorem publish (h : s.Quiet s') (o : Outcome) : s.Quiet (s'.publish t o) := by
  unfold Session.publish
  split
  · let current := { s' with sequencer := s'.sequencer.finish t.path t.token }
    have hcurrent : s.Quiet current := ⟨h.stages, h.saves, h.machine, h.times⟩
    show s.Quiet (current.publishCurrent t o)
    unfold publishCurrent
    split
    · have hset : s.Quiet { current with issues := current.issues.set t.path o.diagnostics } :=
        ⟨h.stages, h.saves, h.machine, h.times⟩
      exact (hset.mark rfl).close (by simp)
    · unfold Session.conclude
      split
      · rename_i c hc
        obtain ⟨o', rfl⟩ := outcome_of_unpublished hc
        exact (hcurrent.note t.name _).close (by simp)
      · exact (hcurrent.note t.name _).close (by simp)
    · exact hcurrent.close (by simp)
  · exact (h.note t.name (staleCompletion t o).effects).close (by simp)

end Quiet

theorem times_withDocument {s : Session} {name : Text} {live d : OpenDocument}
    (hlive : s.document? name = some live) (hd : d.timesSaved = live.timesSaved) (other : Text) :
    ((s.withDocument name d).document? other).map (·.timesSaved) =
      (s.document? other).map (·.timesSaved) := by
  rw [document?_withDocument]
  split
  · rename_i he
    rw [he, hlive]
    simp [hd]
  · rfl

/-- A fix that has changed its document ends, and plans a save if the document is being
saved. -/
theorem closeFix_changed (s : Session) (t : Ticket) (delay : Float) {live d : OpenDocument}
    (hlive : s.document? t.document = some live) (hd : d.timesSaved = live.timesSaved) :
    let s' := s.closeFix t delay (.ok (some d))
    s'.stages = s.stages ++ [.ended t (.edited true)] ∧
      s'.saves = s.saves ++ (if t.task.savesLater then [t.saveAt (s.clock + delay)] else []) ∧
      s'.document? t.document = some d ∧ s'.machine = s.machine ∧
      ∀ name, (s'.document? name).map (·.timesSaved) = (s.document? name).map (·.timesSaved) := by
  intro s'
  have hdoc : s'.document? t.document = some d := by
    rw [document?_closeFix s t delay hlive, if_pos rfl]
    rfl
  exact ⟨stages_close _ t _, rfl, hdoc, rfl, times_withDocument hlive hd⟩

/-- A request whose run has come to an outcome ends, and plans a save if it has edited a
document that is being saved. -/
theorem finish_saves (s : Session) (t : Ticket) (delay : Float) (o : Outcome) :
    s.Quiet (s.finish t delay o) ∨ s.Resaves t delay o (s.finish t delay o) := by
  have hfound : s.Quiet (s.mark (.found t o)) := (Quiet.refl s).mark rfl
  unfold finish
  cases htask : t.task with
  | diagnose | provideIssues => exact .inl (hfound.close (by simp))
  | refresh => exact .inl (hfound.publish o)
  | fix | willSave =>
    dsimp only
    unfold amend
    split
    · exact .inl (hfound.close (by simp))
    · rename_i live hlive
      dsimp only
      generalize hx : ((Fix.amend (s.mark (.found t o)).handler live o).forRequest t.id).result = x
      generalize ((Fix.amend (s.mark (.found t o)).handler live o).forRequest t.id).effects = es
      let noted := (s.mark (.found t o)).note t.name es
      have hnoted : s.Quiet noted := hfound.note t.name es
      have hlive : noted.document? t.document = some live := hlive
      show s.Quiet (noted.closeFix t delay x) ∨ s.Resaves t delay o (noted.closeFix t delay x)
      cases x with
      | error f => exact .inl (hnoted.close (by simp))
      | ok changed =>
        cases changed with
        | none => exact .inl (hnoted.close (by simp))
        | some d =>
          obtain ⟨text, hproposed, hother, hreplaced⟩ := Fix.replaced_of_amend hx
          obtain ⟨rfl, htimes⟩ := OpenDocument.replaceText_ok hreplaced
          obtain ⟨hstages, hsaves, hafter, hmachine, hsame⟩ :=
            noted.closeFix_changed t delay hlive htimes
          have hall : (noted.closeFix t delay (.ok (some d))).stages =
              s.stages ++ [.found t o, .ended t (.edited true)] := by
            rw [hstages]
            simp [noted]
          -- Only an edit that was made while the document was being saved plans a save of its own.
          by_cases hsaving : t.task = .willSave ∨ t.task = .fix true
          · rw [if_pos (t.task.savesLater_iff.mpr hsaving)] at hsaves
            exact .inr ⟨hsaving, ⟨live, d, hlive, hproposed, hother, hreplaced, hafter⟩, hall,
              hsaves, hmachine, hsame⟩
          · rw [if_neg (mt t.task.savesLater_iff.mp hsaving), List.append_nil] at hsaves
            have hnone : resavers [.found t o, .ended t (.edited true)] = [] := by
              simp [resavers, Stage.resaver?, hsaving]
            exact .inl ⟨⟨_, hall, hnone⟩, hsaves, hmachine, hsame⟩

/-- A request that begins saves nothing and plans no save: as long as the linter has not
answered nothing is proposed. -/
theorem launch_quiet (s : Session) (name : Text) (task : Task) (document : Text) (d : OpenDocument)
    (child : Child) : s.Quiet (s.launch name task document d child) := by
  let t := s.ticketFor name task document d.path
  let x := (Request.begin s.handler s.machine s.loaded task d.path d.text child).forRequest t.id
  have hadmitted : s.Quiet (s.admitted t) :=
    ⟨⟨[.began t], stages_admitted s t, rfl⟩, rfl, rfl, fun _ => rfl⟩
  have hbegun : s.Quiet ((s.admitted t).note name x.effects) := hadmitted.note name x.effects
  show s.Quiet (((s.admitted t).note name x.effects).enter t child x.result)
  unfold enter
  split
  · exact hbegun.close (by simp)
  · rename_i o ho
    rcases finish_saves ((s.admitted t).note name x.effects) t 0 o with h | h
    · exact hbegun.trans h
    · obtain ⟨live, d', hedits⟩ := h.edits
      have hnone : o.fix = none := Request.fix_of_begin ho
      rw [hedits.proposed] at hnone
      cases hnone
  · exact ⟨hbegun.stages, hbegun.saves, hbegun.machine, hbegun.times⟩

/-- A request that goes on saves nothing, and plans a save if it edits a document that is being
saved. -/
theorem goOn_saves (s : Session) (p : Pending) (e : TalkEnd) :
    s.Quiet (s.goOn p e) ∨ ∃ o, s.Resaves p.ticket p.settings.saveDelay o (s.goOn p e) := by
  let x := s.proceed p e
  have hnoted : s.Quiet (s.note p.ticket.name x.effects) := (Quiet.refl s).note _ _
  simp only [goOn]
  split
  · exact .inl (hnoted.close (by simp))
  · rename_i o _
    rcases finish_saves (s.note p.ticket.name x.effects) p.ticket p.settings.saveDelay o with h | h
    · exact .inl (hnoted.trans h)
    · obtain ⟨live, d, he⟩ := h.edits
      have hstages := h.stages
      rw [stages_note] at hstages
      exact .inr ⟨o, h.saving, ⟨live, d, he.before, he.proposed, he.other, he.replaced, he.after⟩,
        hstages, h.saves, h.machine, h.times⟩

/-! ## Saves that take place -/

/-- A save takes place: the document is saved as it is then, and whether or not that goes well
nothing else changes.  An error of the operating system is logged. -/
structure SavedBy (s : Session) (d : DeferredSave) (doc : OpenDocument) (s' : Session) : Prop where
  aside : ∃ documents history, s' = { s with
    machine := { s.machine with files := (doc.save s.machine.files s.machine.cwd).1 }
    documents, history }
  document : ∀ name, s'.document? name =
    if name = d.document then
      some ((doc.save s.machine.files s.machine.cwd).2.toOption.getD doc)
    else s.document? name
  whole : ∀ f emptied bytes, doc = .file f →
    s.machine.files.write s.machine.cwd f.path [] = .ok emptied →
    f.encoding.encode doc.text = .ok bytes → s'.machine.files.read s.machine.cwd f.path = .ok bytes
  counted : ∀ b, doc = .buffer b → b.saveFailure = none →
    s'.document? d.document = some (.buffer { b with saves := b.saves + 1 })
  swallowed : ∀ e, (doc.save s.machine.files s.machine.cwd).2 = .error (.system e) →
    s'.history = s.history ++
      [.effect d.who (.log ((savedRecord doc.path (some e)).forRequest d.id))]

/-- What a save that has come does to the session: it writes to the files, and then notes what
came of that. -/
theorem saveNow_eq (s : Session) (d : DeferredSave) {doc : OpenDocument}
    (hdoc : s.document? d.document = some doc) :
    let after := { s with machine := { s.machine with
      files := (doc.save s.machine.files s.machine.cwd).1 } }
    s.saveNow d = match (doc.save s.machine.files s.machine.cwd).2 with
      | .ok saved => (after.withDocument d.document saved).note d.who
        [.log ((savedRecord doc.path none).forRequest d.id)]
      | .error (.system e) => after.note d.who
        [.log ((savedRecord doc.path (some e)).forRequest d.id)]
      | .error _ => after := by
  unfold saveNow
  generalize s.document? d.document = found at hdoc
  cases hdoc
  rfl

theorem saveNow_saved (s : Session) (d : DeferredSave) {doc : OpenDocument}
    (hdoc : s.document? d.document = some doc) : s.SavedBy d doc (s.saveNow d) := by
  let after := { s with machine := { s.machine with
    files := (doc.save s.machine.files s.machine.cwd).1 } }
  have hsave := saveNow_eq s d hdoc
  have hafter : after.document? d.document = some doc := hdoc
  have hdocument : ∀ name, (s.saveNow d).document? name =
      if name = d.document then
        some ((doc.save s.machine.files s.machine.cwd).2.toOption.getD doc)
      else s.document? name := by
    intro name
    rw [hsave]
    cases (doc.save s.machine.files s.machine.cwd).2 with
    | ok saved =>
      refine (document?_withDocument after d.document name saved).trans ?_
      split
      · rename_i hname
        rw [hname, hafter]
        rfl
      · rfl
    | error f => cases f <;> exact document?_same hdoc name
  -- Whatever comes of the save, it touches documents, files and the history only.
  have haside : ∃ documents history, s.saveNow d = { after with documents, history } := by
    rw [hsave]
    cases (doc.save s.machine.files s.machine.cwd).2 with
    | ok saved => exact ⟨_, _, rfl⟩
    | error f => cases f <;> exact ⟨_, _, rfl⟩
  refine ⟨haside, hdocument, ?whole, ?counted, ?swallowed⟩
  case whole =>
    rintro f emptied bytes rfl hopen hencode
    obtain ⟨documents, history, hsame⟩ := haside
    rw [hsame]
    exact (TextFile.write_encodable hopen hencode).2
  case counted =>
    rintro b rfl hwilling
    rw [hdocument, if_pos rfl]
    simp only [OpenDocument.save, hwilling]
    rfl
  case swallowed =>
    intro e he
    rw [hsave, he]
    rfl

/-! ## One turn -/

/-- What an event does by itself plans no save, and takes none away that is planned. -/
theorem planned_handle (s : Session) (e : Event) :
    resavers (s.handle e).stages = resavers s.stages ∧
      caused (s.handle e).saves = caused s.saves := by
  -- A session that goes on quietly has the same plan.
  have quiet {s' : Session} (h : s.Quiet s') :
      resavers s'.stages = resavers s.stages ∧ caused s'.saves = caused s.saves := by
    obtain ⟨k, hk, hnone⟩ := h.stages
    rw [hk, resavers_append, hnone, List.append_nil, h.saves]
    exact ⟨rfl, rfl⟩
  cases e with
  | request name task document child =>
    simp only [Session.handle]
    split
    · exact quiet (s.launch_quiet name task document _ child)
    · exact quiet (.refl s)
  | cancel name =>
    simp only [Session.handle, cancel]
    split
    · rename_i p _
      have hgone : s.Quiet { s with pending := s.pending.eraseP fun p => p.ticket.name == name } :=
        ⟨(Quiet.refl s).stages, rfl, rfl, fun _ => rfl⟩
      split
      · have hkilled := hgone.note p.ticket.name [.process .kill]
        exact quiet ⟨hkilled.stages, hkilled.saves, hkilled.machine, hkilled.times⟩
      · exact quiet (hgone.close (by simp))
    · -- Only saves of the host have names.
      refine ⟨rfl, ?_⟩
      unfold caused
      rw [List.filter_filter]
      refine List.filter_congr fun d _ => ?_
      cases d.name <;> simp
  | saveLater name document delay =>
    refine ⟨rfl, ?_⟩
    show caused (s.saves ++ [_]) = _
    rw [caused_append]
    exact List.append_nil _
  | answer | died | advance => exact ⟨rfl, rfl⟩
  | edit | replace | save | applyFix | settings | sink | issues | files =>
    refine ⟨congrArg resavers (s.handle_same rfl).1, congrArg caused ?_⟩
    simp only [Session.handle]
    repeat' split
    all_goals rfl

end Session

namespace Turn

/-- The save that a turn is, if it is one. -/
def save? (m : Turn) : Option DeferredSave :=
  match m.what with
  | .save d => some d
  | _ => none

end Turn

namespace Session

/-- Whatever happens, the saves that are planned stay, or take place, and one is planned more
exactly where a request edits a document that is being saved. -/
theorem planned_happens {s s' : Session} {a : Happening} (h : s.Happens a s') :
    (resavers s'.stages = resavers s.stages ∧
        (caused ((Turn.save? ⟨s, a, s'⟩).toList ++ s'.saves)).Perm (caused s.saves)) ∨
      ∃ p e o, a = .goOn p e ∧ p ∈ s.pending ∧
        s.Resaves p.ticket p.settings.saveDelay o s' := by
  cases h with
  | event e =>
    obtain ⟨hstages, hsaves⟩ := s.planned_handle e
    refine .inl ⟨hstages, ?_⟩
    show (caused (s.handle e).saves).Perm _
    rw [hsaves]
  | @save d front rest waits due =>
    refine .inl ⟨congrArg resavers (saveNow_same _ d).1, ?_⟩
    rw [saves_saveNow, waits]
    have hmid : (d :: (front ++ rest)).Perm (front ++ d :: rest) := List.perm_middle.symm
    exact hmid.filter _
  | kill => exact .inl ⟨congrArg resavers (stages_note _ _ _), .refl _⟩
  | @giveUp p front rest waits gone killed =>
    refine .inl ⟨?_, .refl _⟩
    rw [(moves_giveUp { s with pending := front ++ rest } p).stages, resavers_append]
    exact List.append_nil _
  | @goOn p front rest e waits ended =>
    let left := { s with pending := front ++ rest }
    -- A request that goes on either leaves the saves alone or adds its own at the end.
    rcases left.goOn_saves p e with hq | ⟨o, hr⟩
    · left
      obtain ⟨k, hk, hnone⟩ := hq.stages
      rw [hk, resavers_append, hnone, List.append_nil]
      refine ⟨rfl, ?_⟩
      show (caused (left.goOn p e).saves).Perm _
      rw [hq.saves]
    · obtain ⟨live, d, he⟩ := hr.edits
      refine .inr ⟨p, e, o, rfl, by simp [waits], hr.saving, ⟨live, d, ?_⟩, hr.stages, hr.saves,
        hr.machine, hr.times⟩
      exact ⟨he.before, he.proposed, he.other, he.replaced, he.after⟩

theorem opened_happens {s s' : Session} {a : Happening} (h : s.Happens a s') {name : Text}
    (ho : (s.document? name).isSome = true) : (s'.document? name).isSome = true := by
  have counted {s s' : Session} (ho : (s.document? name).isSome = true)
      (ht : (s'.document? name).map (·.timesSaved) = (s.document? name).map (·.timesSaved)) :
      (s'.document? name).isSome = true := by
    have hsome := congrArg Option.isSome ht
    simpa only [Option.isSome_map, ho] using hsome
  have replaced (d : OpenDocument) (other : Text) :
      ((s.withDocument other d).document? name).isSome = true := by
    rw [document?_withDocument]
    split
    · simpa only [Option.isSome_map] using ho
    · exact ho
  -- Documents are never closed: what happens changes one of them at most.
  cases h with
  | @save d front rest waits due =>
    cases hd : s.document? d.document with
    | none =>
      have hsame :
          { s with saves := front ++ rest }.saveNow d = { s with saves := front ++ rest } := by
        unfold saveNow
        have hnone : { s with saves := front ++ rest }.document? d.document = none := hd
        simp only [hnone]
      rw [hsame]
      exact ho
    | some doc =>
      rw [(saveNow_saved { s with saves := front ++ rest } d hd).document name]
      split
      · rfl
      · exact ho
  | kill | giveUp => exact ho
  | @goOn p front rest e waits ended =>
    rcases goOn_saves { s with pending := front ++ rest } p e with hq | ⟨o, hr⟩
    · exact counted ho (hq.times name)
    · exact counted ho (hr.times name)
  | event e =>
    cases e with
    | request who task document child =>
      simp only [Session.handle]
      split
      · exact counted ho ((s.launch_quiet who task document _ child).times name)
      · exact ho
    | cancel who =>
      rw [show s.handle (.cancel who) = s.cancel who from rfl, (s.cancel_same who).2]
      exact ho
    | answer | died | advance | saveLater | settings | sink | files => exact ho
    | edit | replace | save | applyFix | issues =>
      simp only [Session.handle]
      repeat' split
      all_goals first
        | exact ho
        | exact replaced _ _

end Session

/-! ## The plan -/

/-- What a request has done that plans a save: it has begun with some settings and waited, and at
a later turn has edited its document while that is being saved.  The save is due as long after
that as the settings say. -/
inductive Planned (t : Ticket) (due : Float) : List Turn → Prop where
  | edited {m m' : Turn} {ks : List Turn} {p : Pending} {d : OpenDocument} {child : Child}
    {settings : LinterSettings} {e : TalkEnd} {o : Outcome} (own : p.ticket = t)
    (first : m.Starts p d child) (loaded : m.before.loaded = .ok settings)
    (meanwhile : KilledAt p ks) (what : m'.what = .goOn p e)
    (edits : m'.before.Resaves t settings.saveDelay o m'.after)
    (later : due = m'.before.clock + settings.saveDelay) : Planned t due (m :: ks ++ [m'])

/-- The saves that are planned when some turns have led to a session: one for every request
that has edited a document while that is being saved.  They are the ones that have taken place
and the ones that wait. -/
structure Plan (ms : List Turn) (s : Session) (plan : List (Ticket × Float)) : Prop where
  requests : plan.map Prod.fst = resavers s.stages
  distinct : (plan.map Prod.fst).Nodup
  planned : ∀ t due, (t, due) ∈ plan → Planned t due (turnsOf t ms)
  saves : (caused (ms.filterMap Turn.save? ++ s.saves)).Perm
    (plan.map fun (t, due) => t.saveAt due)

namespace Session

section Initial

variable {m₀ : Machine} {h : Handler} {source : SettingsSource}
  {documents : List (Text × OpenDocument)} {ms : List Turn} {s : Session}

theorem planned_next {m : Turn} (v : Accounted (ms ++ [m]) s) {t : Ticket} {due : Float}
    (hp : Planned t due (turnsOf t ms)) :
    m.ticket? ≠ some t ∧ Planned t due (turnsOf t (ms ++ [m])) := by
  have hother : m.ticket? ≠ some t := by
    intro hown
    have hturns := v.turns t
    rw [turnsOf_append_self hown] at hturns
    generalize turnsOf t ms = past at hp hturns
    -- The turn at which it has gone on would be the one at which its child is killed.
    cases hp with
    | @edited n n' ks p d child settings e o own first loaded meanwhile what edits later =>
      have hnot (p' : Pending) (w : WaitEnd) (hkills : n'.Kills p' w) : False := by
        rcases hkills.what with ⟨e', -, hkill⟩ | ⟨name, -, hcancel, -⟩
        · cases what.symm.trans hkill
        · cases what.symm.trans hcancel
      generalize hall : n :: ks ++ [n'] ++ [m] = all at hturns
      cases hturns with
      | none => simp at hall
      | begins first => simp at hall
      | @killed x k p' w _ _ _ _ kills =>
        have hlength := congrArg List.length hall
        simp at hlength
      | @ends x y ks' p' d' child' own' first' meanwhile' last =>
        obtain ⟨hfront, -⟩ := List.append_inj' hall rfl
        obtain ⟨-, hks⟩ := List.cons.inj hfront
        cases meanwhile' with
        | alive => simp at hks
        | @killed k q w same kills killed =>
          obtain rfl : n' = k := by
            have hmem : n' ∈ ks ++ [n'] := by simp
            rw [show ks ++ [n'] = [k] from hks] at hmem
            exact List.mem_singleton.mp hmem
          exact hnot _ _ kills
  refine ⟨hother, ?_⟩
  rw [turnsOf_append_ne hother]
  exact hp

/-- However a session goes on from its beginning, there is a plan of saves. -/
theorem planned_timeline (ht : (initial m₀ h source documents).Timeline ms s) :
    ∃ plan, Plan ms s plan := by
  -- On the turns: a turn leaves the plan as it is, or adds the request that ends at it.
  induction ht with
  | start => exact ⟨[], rfl, List.nodup_nil, by simp, .refl _⟩
  | @next past s s' a before now ih =>
    obtain ⟨plan, v⟩ := ih
    have haccounted := accounted_timeline (before.next now)
    have hsaves (more : List DeferredSave) :
        (past ++ [Turn.mk s a s']).filterMap Turn.save? ++ more =
          past.filterMap Turn.save? ++ ((Turn.mk s a s').save?.toList ++ more) := by
      rw [List.filterMap_append, List.append_assoc]
      cases hsave : (Turn.mk s a s').save? <;> simp [hsave]
    rcases planned_happens now with ⟨hstages, hkept⟩ | ⟨p, e, o, rfl, hp, hresaves⟩
    · refine ⟨plan, v.requests.trans hstages.symm, v.distinct, ?planned, ?saves⟩
      case planned => exact fun t due hmem => (planned_next haccounted (v.planned t due hmem)).2
      case saves =>
        refine List.Perm.trans ?_ v.saves
        rw [hsaves, caused_append, caused_append (past.filterMap Turn.save?) s.saves]
        exact hkept.append_left _
    · obtain ⟨m, ks, d, child, hturns, hstarts, hks⟩ := (accounted_timeline before).waiting p hp
      have hown : Turn.ticket? ⟨s, .goOn p e, s'⟩ = some p.ticket := rfl
      -- A request that is in the plan has ended, so one that waited until now is not in it.
      have hnew : p.ticket ∉ plan.map Prod.fst := by
        intro hmem
        obtain ⟨⟨t, due⟩, hplan, rfl⟩ := List.mem_map.mp hmem
        exact (planned_next haccounted (v.planned _ due hplan)).1 hown
      have hadds : resavers s'.stages = resavers s.stages ++ [p.ticket] := by
        rw [hresaves.stages, resavers_append]
        simp [resavers, List.filterMap_cons, Stage.resaver?, hresaves.saving]
      refine ⟨plan ++ [(p.ticket, s.clock + p.settings.saveDelay)], ?requests, ?distinct, ?planned,
        ?saves⟩
      case requests =>
        rw [List.map_append, v.requests, hadds]
        rfl
      case distinct =>
        rw [List.map_append]
        refine List.nodup_append.mpr ⟨v.distinct, by simp, ?_⟩
        intro t ht u hu he
        have hsame : t = p.ticket := he.trans (List.mem_singleton.mp hu)
        exact hnew (hsame ▸ ht)
      case planned =>
        intro t due hmem
        rcases List.mem_append.mp hmem with hmem | hmem
        · exact (planned_next haccounted (v.planned t due hmem)).2
        · obtain ⟨rfl, rfl⟩ := Prod.mk.inj (List.mem_singleton.mp hmem)
          rw [turnsOf_append_self hown, hturns]
          exact .edited rfl hstarts (Request.loaded_of_waiting hstarts.waits) hks rfl hresaves rfl
      case saves =>
        rw [hsaves, hresaves.saves, List.map_append]
        show (caused (past.filterMap Turn.save? ++ (s.saves ++ [_]))).Perm _
        rw [← List.append_assoc, caused_append]
        exact v.saves.append (.refl _)

/-- A save that a request has caused and that is to come has been planned. -/
theorem resaver_of_waiting (ht : (initial m₀ h source documents).Timeline ms s) {d : DeferredSave}
    (hd : d ∈ s.saves) (hcaused : d.name = none) :
    ∃ t, t ∈ resavers s.stages ∧ Planned t d.due (turnsOf t ms) ∧ d = t.saveAt d.due := by
  obtain ⟨plan, v⟩ := planned_timeline ht
  have hmem : d ∈ caused (ms.filterMap Turn.save? ++ s.saves) := by
    refine List.mem_filter.mpr ⟨List.mem_append_right _ hd, ?_⟩
    rw [hcaused]
    rfl
  obtain ⟨⟨t, due⟩, hplan, rfl⟩ := List.mem_map.mp (v.saves.mem_iff.mp hmem)
  exact ⟨t, v.requests ▸ List.mem_map_of_mem hplan, v.planned t due hplan, rfl⟩

theorem Timeline.opened {s s' : Session} (ht : s.Timeline ms s') {name : Text}
    (ho : (s.document? name).isSome = true) : (s'.document? name).isSome = true := by
  induction ht with
  | start => exact ho
  | next _ now ih => exact opened_happens now ih

theorem opened_of_planned (ht : (initial m₀ h source documents).Timeline ms s) {t : Ticket}
    {due : Float} (hp : Planned t due (turnsOf t ms)) :
    ∃ doc, s.document? t.document = some doc := by
  generalize hturns : turnsOf t ms = turns at hp
  cases hp with
  | @edited m m' ks _ _ _ _ _ o own first loaded meanwhile what edits later =>
    have hm : m' ∈ ms := (List.mem_filter.mp (hturns ▸ by simp : m' ∈ turnsOf t ms)).1
    obtain ⟨earlier, rest, rfl, -, -, hafter⟩ := ht.mem hm
    obtain ⟨live, d, he⟩ := edits.edits
    exact Option.isSome_iff_exists.mp (hafter.opened (by rw [he.after]; rfl))

end Initial

end Session

/-- A save that a request has planned takes place at a turn: it is due, the request has ended,
and the document is saved as it is then. -/
structure Turn.Saves (m : Turn) (d : DeferredSave) : Prop where
  due : m.before.hasCome d.due = true
  ended : ∃ t, t ∈ resavers m.before.stages ∧ d = t.saveAt d.due
  saved : ∃ front rest doc, m.before.saves = front ++ d :: rest ∧
    m.before.document? d.document = some doc ∧
    { m.before with saves := front ++ rest }.SavedBy d doc m.after

namespace Session

theorem unsaved_happens {s s' : Session} {a : Happening} (h : s.Happens a s') {t : Ticket}
    (hown : Turn.ticket? ⟨s, a, s'⟩ = some t) :
    s'.machine = s.machine ∧
      ∀ name, (s'.document? name).map (·.timesSaved) = (s.document? name).map (·.timesSaved) := by
  cases h with
  | save => cases hown
  | kill | giveUp => exact ⟨rfl, fun _ => rfl⟩
  | @goOn p front rest e waits ended =>
    rcases goOn_saves { s with pending := front ++ rest } p e with hq | ⟨o, hr⟩
    · exact ⟨hq.machine, hq.times⟩
    · exact ⟨hr.machine, hr.times⟩
  | event e =>
    cases e with
    | request name task document child =>
      simp only [Session.handle]
      split
      · have hq := s.launch_quiet name task document ‹_› child
        exact ⟨hq.machine, hq.times⟩
      · exact ⟨rfl, fun _ => rfl⟩
    | cancel name =>
      obtain ⟨hmachine, hdocs⟩ := s.cancel_same name
      exact ⟨hmachine, fun other => congrArg (Option.map (·.timesSaved)) (hdocs other)⟩
    | _ => cases hown

/-- A save that takes place and that a request has caused was planned. -/
theorem saves_happens {m₀ : Machine} {h : Handler} {source : SettingsSource}
    {documents : List (Text × OpenDocument)} {ms : List Turn} {s s' : Session}
    (ht : (initial m₀ h source documents).Timeline ms s) {d : DeferredSave}
    (now : s.Happens (.save d) s') (hcaused : d.name = none) :
    Turn.Saves ⟨s, .save d, s'⟩ d := by
  cases now with
  | @save _ front rest waits due =>
    have hd : d ∈ s.saves := by
      rw [waits]
      simp
    obtain ⟨t, hended, hplanned, hsave⟩ := resaver_of_waiting ht hd hcaused
    obtain ⟨doc, hdoc⟩ := opened_of_planned ht hplanned
    have hopened : s.document? d.document = some doc := by
      rw [hsave]
      exact hdoc
    exact ⟨due, ⟨t, hended, hsave⟩, front, rest, doc, waits, hopened, saveNow_saved _ d hopened⟩

/-- However the requests of a session interleave with each other, with what the user does and
with time: each request that edits a document while that is being saved plans one save, as
long after the edit as the settings say that were loaded for it, and nothing else plans one.
The planned saves are those that have taken place and those that wait.  One takes place when
it is due and its request has ended, and saves the document as it is then, whatever comes of
it.  The turns of requests save nothing.

Every run goes on like that, and when it is over no save waits that is due. -/
theorem saves_deferred (m₀ : Machine) (h : Handler) (source : SettingsSource)
    (documents : List (Text × OpenDocument)) :
    let s₀ := initial m₀ h source documents
    (∀ ms s, s₀.Timeline ms s →
      (∃ plan, Plan ms s plan) ∧
      (∀ m ∈ ms, ∀ d, m.what = .save d → d.name = none → m.Saves d) ∧
      ∀ m ∈ ms, ∀ t, m.ticket? = some t → m.after.machine = m.before.machine ∧
        ∀ name, (m.after.document? name).map (·.timesSaved) =
          (m.before.document? name).map (·.timesSaved)) ∧
    ∀ events, (∃ ms, s₀.Timeline ms (s₀.run events) ∧ ms.filterMap Turn.event? = events) ∧
      ∀ d ∈ (s₀.run events).saves, (s₀.run events).hasCome d.due = false := by
  intro s₀
  refine ⟨fun ms s ht => ⟨planned_timeline ht, ?saves, ?requests⟩,
    fun events => ⟨timeline_run s₀ events, ?waits⟩⟩
  case saves =>
    intro m hm d hwhat hcaused
    obtain ⟨earlier, later, rfl, hbefore, hnow, -⟩ := ht.mem hm
    obtain ⟨before, what, after⟩ := m
    subst hwhat
    exact saves_happens hbefore hnow hcaused
  case requests =>
    intro m hm t hown
    obtain ⟨earlier, later, rfl, -, hnow, -⟩ := ht.mem hm
    exact unsaved_happens hnow hown
  case waits =>
    intro d hd
    have hnone : s₀.isDue = false := rfl
    have hsaves := (Bool.or_eq_false_iff.mp (isDue_run hnone events)).1
    simpa using List.any_eq_false.mp hsaves d hd

/-- A fix that is made while its document is saved, and after that the user types: the document
is saved once more, as it is then. -/
theorem saves_deferred_once :
    let machine : Machine :=
      ⟨.ofNodes [([], .directory), (["eslint.config.js"], .file [] false)],
        ⟨.slash, []⟩, [], .alone "/root"⟩
    let documents : List (Text × OpenDocument) :=
      [([], .buffer ⟨⟨.slash, ["a"]⟩, "a", none, none, 0, 0⟩)]
    let report : List UInt8 :=
      [0x5b, 0x7b, 0x22, 0x6d, 0x65, 0x73, 0x73, 0x61, 0x67, 0x65, 0x73, 0x22, 0x3a, 0x5b, 0x5d,
        0x2c, 0x22, 0x6f, 0x75, 0x74, 0x70, 0x75, 0x74, 0x22, 0x3a, 0x22, 0x63, 0x22, 0x7d, 0x5d]
    let child : Child := ⟨none, .output ⟨some 0, report, []⟩, .after 0, false, false⟩
    let events : List Event := [.request [] (.fix true) [] child, .edit [] "d", .advance 1]
    let s₀ := initial machine .none (.given (.ok .defaults)) documents
    let s := s₀.run events
    s.saves.length = 0 ∧
      (s.document? []).map (fun d => (d.text, d.timesSaved)) = some (("d" : Text), 1) ∧
      ∃ ms plan, s₀.Timeline ms s ∧ ms.filterMap Turn.event? = events ∧ Plan ms s plan ∧
        plan.length = 1 := by
  intro machine documents report child events s₀ s
  obtain ⟨hturns, hruns⟩ := saves_deferred machine .none (.given (.ok .defaults)) documents
  obtain ⟨⟨ms, ht, hevents⟩, -⟩ := hruns events
  obtain ⟨⟨plan, hplan⟩, -⟩ := hturns ms s ht
  have hone : (resavers s.stages).length = 1 := by decide +kernel
  have hlength : plan.length = 1 := by
    rw [← hone, ← hplan.requests, List.length_map]
  exact ⟨by decide +kernel, by decide +kernel, ms, plan, ht, hevents, hplan, hlength⟩

end Session
end EditorLint
