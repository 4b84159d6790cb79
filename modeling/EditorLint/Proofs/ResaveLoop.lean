import EditorLint.Proofs.DeferredSaves

/-!
# Saves that are fixed again

When a document is saved the host calls a hook, which has the linter fix the document.  If that
changes it, the document is saved again a little later, and the hook is called once more.  This
goes on for one round at most (`resaving_stops`), provided that what the linter proposes is a
function of the text that it is given, which leaves its own results alone, and that all runs
succeed and nobody else edits the document.

The hooks may overlap, and the saves may come at any time when they are due.  What carries the
proof is that a hook that waits has given the linter either the text from the beginning or the
text that is there (`Given`).  So the first hook that ends puts in place what the linter makes of
the text, and any other one finds that there already.
-/

namespace EditorLint

/-- How a request has ended, if a stage says that. -/
def Stage.ending? : Stage → Option Completion
  | .ended _ c => some c
  | _ => none

/-- How the requests have ended, in their order. -/
def endings (h : List Stage) : List Completion := h.filterMap Stage.ending?

@[simp] theorem endings_append (h k : List Stage) : endings (h ++ k) = endings h ++ endings k :=
  List.filterMap_append

/-- How often the body of a document has been replaced, as far as it counts that. -/
def OpenDocument.timesEdited : OpenDocument → Nat
  | buffer b => b.edits
  | file _ => 0

/-! ## Documents that stay as they are -/

namespace OpenDocument

/-- Documents with the same text, of which both have been edited as often, and both can be
edited. -/
structure Alike (d d' : OpenDocument) : Prop where
  text : d'.text = d.text
  edits : d'.timesEdited = d.timesEdited
  accepts : d'.accepts = d.accepts

theorem Alike.refl (d : OpenDocument) : d.Alike d := ⟨rfl, rfl, rfl⟩

theorem alike_save (d : OpenDocument) (fs : FileSystem) (cwd : Path) :
    d.Alike ((d.save fs cwd).2.toOption.getD d) := by
  cases d with
  | buffer b =>
    simp only [save]
    cases b.saveFailure <;> exact ⟨rfl, rfl, rfl⟩
  | file f =>
    simp only [save]
    cases (f.save cwd fs).2 <;> exact ⟨rfl, rfl, rfl⟩

theorem edited_once {d d' : OpenDocument} {text : Text} (h : d.replaceText text = .ok d') :
    d'.text = text ∧ d'.timesEdited ≤ d.timesEdited + 1 ∧ d'.accepts = d.accepts := by
  cases d with
  | buffer b =>
    unfold replaceText at h
    dsimp only at h
    split at h
    · cases h
    · cases h
      exact ⟨rfl, Nat.le_refl _, rfl⟩
  | file f =>
    cases h
    exact ⟨rfl, Nat.le_succ _, rfl⟩

end OpenDocument

/-! ## What happens in a loop -/

section Loop

variable (F : Text → Option Text) (document : Text)

/-- The text that there is when the linter has fixed a text. -/
def fixedText (t : Text) : Text := (F t).getD t

/-- The run of a request succeeds: the child answers without a complaint, with a report that can
be read and proposes what `F` makes of the text that it was given. -/
inductive Succeeds (p : Pending) : TalkEnd → Prop where
  | replied (input : Text) (output : ProcessOutput) (diagnostics : List Diagnostic)
    (given : p.talk.invocation.input = some input)
    (silent : output.stderr = [])
    (read : (Report.read (Utf8.decodeReplacing output.stdout)).result =
      .ok (.readable diagnostics (F input))) : Succeeds p (.replied (.output output))

/-- Whether an event is no request and edits no document of a name. -/
def Event.isAside (e : Event) : Bool :=
  match e with
  | .answer .. | .died .. | .advance .. | .save .. | .saveLater .. | .settings .. | .sink ..
  | .issues .. | .files .. => true
  | .edit name _ | .replace name _ | .applyFix name _ => name != document
  | .request .. | .cancel .. => false

/-- What happens at a turn of the loop: the hook is called, with a configuration there and a
linter that can be started; a run succeeds; a document is saved that was to be saved; or
something that concerns neither a hook nor the text. -/
inductive InLoop (m : Turn) : Prop where
  | hook (name : Text) (child : Child) (d : OpenDocument) (settings : LinterSettings)
    (what : m.what = .event (.request name .willSave document child))
    (opened : m.before.document? document = some d) (loaded : m.before.loaded = .ok settings)
    (enabled : settings.fixOnSave = true)
    (ready : Request.Ready m.before.machine settings d.path d.text child)
  | answered (p : Pending) (e : TalkEnd) (what : m.what = .goOn p e) (succeeds : Succeeds F p e)
  | saved (d : DeferredSave) (what : m.what = .save d)
  | aside (e : Event) (what : m.what = .event e) (harmless : e.isAside document = true)

/-- Whether a turn is a call of the hook, or of another request. -/
def Turn.isRequest (m : Turn) : Bool :=
  match m.what with
  | .event (.request ..) => true
  | _ => false

/-! ## How far a loop has got -/

/-- A hook that waits has given the linter a text of the document. -/
structure Given (texts : Text → Prop) (p : Pending) : Prop where
  task : p.ticket.task = .willSave
  document : p.ticket.document = document
  input : ∃ t, texts t ∧ p.talk.invocation.input = some t

/-- How far a loop has got that began with a document `d₀`: no hook has ended, and the document
is as it was.  Or some hooks have ended: the first one has put in place what the linter makes of
the text, if that is another text, and planned a save; any other one has changed nothing. -/
inductive Stand (d₀ d : OpenDocument) (h : List Stage) : Prop where
  | begun (endings : endings h = []) (resavers : resavers h = []) (text : d.text = d₀.text)
    (edits : d.timesEdited = d₀.timesEdited)
  | settled (n : Nat) (endings : endings h =
      .edited (decide (fixedText F d₀.text ≠ d₀.text)) :: List.replicate n (.edited false))
    (resavers : (resavers h).length = if fixedText F d₀.text = d₀.text then 0 else 1)
    (text : d.text = fixedText F d₀.text)
    (edits : d.timesEdited ≤ d₀.timesEdited + if fixedText F d₀.text = d₀.text then 0 else 1)

/-- What is the case all along a loop. -/
structure Looping (d₀ d : OpenDocument) (s : Session) : Prop where
  opened : s.document? document = some d
  accepts : d.accepts = true
  stand : Stand F d₀ d s.stages
  given : ∀ p ∈ s.pending, Given document (fun t => t = d₀.text ∨ t = d.text) p
  resavers : ∀ t ∈ resavers s.stages, t.document = document

end Loop

/-! ## One turn of a loop -/

section Turns

variable {F : Text → Option Text} {document : Text} {d₀ d d' : OpenDocument}

theorem fixedText_of_none {t : Text} (h : F t = none) : fixedText F t = t := by
  unfold fixedText
  rw [h]
  rfl

theorem fixedText_of_some {t u : Text} (h : F t = some u) : fixedText F t = u := by
  unfold fixedText
  rw [h]
  rfl

theorem leaves_fixed (hF : ∀ t u v, F t = some u → F u = some v → v = u) (t : Text) :
    ∀ v, F (fixedText F t) = some v → v = fixedText F t := by
  intro v hv
  cases ht : F t with
  | none =>
    rw [fixedText_of_none ht, ht] at hv
    cases hv
  | some u =>
    rw [fixedText_of_some ht] at hv ⊢
    exact hF t u v ht hv

namespace OpenDocument

theorem applyFix_own (ha : d.accepts = true) : ∃ x, d.applyFix (F d.text) = .ok x ∧
    x.isSome = decide (fixedText F d.text ≠ d.text) ∧ (x.getD d).text = fixedText F d.text ∧
    (x.getD d).timesEdited ≤ d.timesEdited + (if fixedText F d.text = d.text then 0 else 1) ∧
    (x.getD d).accepts = true := by
  cases hF : F d.text with
  | none =>
    rw [fixedText_of_none hF]
    exact ⟨none, rfl, by simp, rfl, Nat.le_add_right _ _, ha⟩
  | some u =>
    rw [fixedText_of_some hF]
    by_cases hsame : u = d.text
    · exact ⟨none, by simp [applyFix, hsame], by simp [hsame], hsame.symm, Nat.le_add_right _ _, ha⟩
    · obtain ⟨d', hreplaced⟩ := d.replaceText_of_accepts ha u
      obtain ⟨htext, hedits, haccepts⟩ := edited_once hreplaced
      rw [if_neg hsame]
      refine ⟨some d', ?_, by simp [hsame], htext, hedits, haccepts.trans ha⟩
      simp only [applyFix, hsame, if_false, hreplaced]
      rfl

theorem applyFix_there {fix : Option Text} (h : ∀ v, fix = some v → v = d.text) :
    d.applyFix fix = .ok none := by
  cases fix with
  | none => rfl
  | some v => simp [applyFix, h v rfl]

end OpenDocument

theorem Fix.amend_of_applyFix {h : Handler} {live : OpenDocument} {o : Outcome}
    {x : Option OpenDocument} (hx : live.applyFix o.fix = .ok x) :
    (amend h live o).result = .ok x := by
  unfold amend
  rw [hx]
  cases x <;> rfl

namespace Stand

variable {h k : List Stage}

theorem quiet (v : Stand F d₀ d h) (hk : endings k = []) (hnone : resavers k = [])
    (halike : d.Alike d') : Stand F d₀ d' (h ++ k) := by
  cases v with
  | begun ends saves text edits =>
    exact .begun (by simp [ends, hk]) (by simp [saves, hnone]) (halike.text.trans text)
      (halike.edits.trans edits)
  | settled n ends saves text edits =>
    refine .settled n (by simp [ends, hk]) (by simp [saves, hnone]) (halike.text.trans text) ?_
    rw [halike.edits]
    exact edits

theorem fixed (v : Stand F d₀ d h) {t : Ticket} (ht : t ∈ resavers h) :
    d.text = fixedText F d₀.text := by
  cases v with
  | begun ends saves =>
    rw [saves] at ht
    cases ht
  | settled n ends saves text => exact text

theorem resavers_le (v : Stand F d₀ d h) : (resavers h).length ≤ 1 := by
  cases v with
  | begun ends saves => simp [saves]
  | settled n ends saves =>
    rw [saves]
    split <;> omega

end Stand

namespace Session

variable {s s' : Session}

/-- A hook whose run succeeds ends, and the document gets what the linter proposes. -/
theorem goOn_succeeds {p : Pending} {e : TalkEnd} (hs : Succeeds F p e)
    (htask : p.ticket.task = .willSave) {live : OpenDocument}
    (hd : s.document? p.ticket.document = some live) {t : Text}
    (hinput : p.talk.invocation.input = some t) {x : Option OpenDocument}
    (hx : live.applyFix (F t) = .ok x) :
    ∃ o, s.Moves (s.goOn p e) [.found p.ticket o, .ended p.ticket (.edited x.isSome)] ∧
      ∀ other, (s.goOn p e).document? other =
        if other = p.ticket.document then some (x.getD live) else s.document? other := by
  obtain ⟨input, output, diagnostics, given, silent, read⟩ := hs
  obtain rfl : input = t := Option.some.inj (given.symm.trans hinput)
  let o : Outcome := .ofReport diagnostics (F input) (some p.talk.config)
  have hproceed : (Request.proceed s.handler p.ticket.path p.talk
      (.replied (.output output))).result = .ok o :=
    Request.proceed_of_resume (Runner.resume_readable p.talk silent read)
  let noted := s.note p.ticket.name (s.proceed p (.replied (.output output))).effects
  have hgo : s.goOn p (.replied (.output output)) = noted.finish p.ticket p.settings.saveDelay o := by
    simp only [goOn, result_proceed]
    rw [hproceed]
  have hfix : p.ticket.task.isFix = true := by rw [htask]; rfl
  have hfixed : live.applyFix o.fix = .ok x := by
    rw [show o.fix = F input from Outcome.fix_ofReport _ _ _]
    exact hx
  have hlive : noted.document? p.ticket.document = some live := hd
  obtain ⟨hmoves, hdocs⟩ := finish_fix noted p.ticket p.settings.saveDelay o hfix hlive
    (Fix.amend_of_applyFix hfixed)
  have hnoted : s.Moves noted [] := (Moves.refl s).note _ _
  rw [hgo]
  exact ⟨o, hnoted.trans hmoves, hdocs⟩

theorem aside_handle (s : Session) {e : Event} (he : e.isAside document = true)
    (hd : s.document? document = some d) :
    (s.handle e).stages = s.stages ∧ (s.handle e).pending.length = s.pending.length ∧
      ∃ d', (s.handle e).document? document = some d' ∧ d.Alike d' := by
  have other {s : Session} {name : Text} (hname : (name != document) = true)
      (hd : s.document? document = some d) (d' : OpenDocument) :
      (s.withDocument name d').document? document = some d := by
    have hne : ¬document = name := fun h => by simp [h] at hname
    rw [document?_withDocument, if_neg hne, hd]
  cases e with
  | request | cancel => cases he
  | answer | died => exact ⟨rfl, List.length_map _, d, hd, .refl d⟩
  | advance | saveLater | settings | sink | files => exact ⟨rfl, rfl, d, hd, .refl d⟩
  | edit | replace | applyFix | issues =>
    refine ⟨(s.handle_same rfl).1, ?_, d, ?_, .refl d⟩ <;> simp only [Session.handle] <;>
      repeat' split
    all_goals first
      | rfl
      | exact hd
      | exact other he hd _
  | save name =>
    -- A save gives the document its number of saves, and keeps its text.
    refine ⟨(s.handle_same rfl).1, ?_, ?_⟩ <;> simp only [Session.handle]
    · repeat' split
      all_goals rfl
    · cases hname : s.document? name with
      | none => exact ⟨d, hd, .refl d⟩
      | some old =>
        have hsaved := old.alike_save s.machine.files s.machine.cwd
        dsimp only
        cases hresult : (old.save s.machine.files s.machine.cwd).2 with
        | error f => exact ⟨d, hd, .refl d⟩
        | ok saved =>
          rw [hresult] at hsaved
          by_cases hown : document = name
          · subst hown
            obtain rfl := Option.some.inj (hname.symm.trans hd)
            refine ⟨saved, ?_, hsaved⟩
            dsimp only
            rw [document?_withDocument, if_pos rfl]
            show (s.document? document).map _ = _
            rw [hd]
            rfl
          · refine ⟨d, ?_, .refl d⟩
            dsimp only
            rw [document?_withDocument, if_neg hown]
            exact hd

end Session

namespace Looping

variable {s s' : Session}

/-- A session goes on in which no hook ends and the document stays as it is. -/
theorem quiet (v : Looping F document d₀ d s) {k : List Stage} (hstages : s'.stages = s.stages ++ k)
    (hends : endings k = []) (hsaves : EditorLint.resavers k = [])
    (hopened : s'.document? document = some d') (halike : d.Alike d')
    (hgiven : ∀ p ∈ s'.pending, Given document (fun t => t = d₀.text ∨ t = d.text) p) :
    Looping F document d₀ d' s' := by
  refine ⟨hopened, halike.accepts.trans v.accepts, ?_, ?_, ?_⟩
  · rw [hstages]
    exact v.stand.quiet hends hsaves halike
  · rw [halike.text]
    exact hgiven
  · rw [hstages, resavers_append, hsaves, List.append_nil]
    exact v.resavers

/-- A hook that is called waits, with the text that is there given to the linter. -/
theorem hook (v : Looping F document d₀ d s) (name : Text) (child : Child)
    {settings : LinterSettings} (hloaded : s.loaded = .ok settings)
    (henabled : settings.fixOnSave = true)
    (hready : Request.Ready s.machine settings d.path d.text child) :
    let s' := s.launch name .willSave document d child
    Looping F document d₀ d s' ∧ endings s'.stages = endings s.stages ∧
      s'.pending.length = s.pending.length + 1 := by
  intro s'
  obtain ⟨hbegins, -, hdocs⟩ :=
    s.launch_ready name .willSave document child rfl (fun _ => henabled) hloaded hready
  cases hbegins with
  | ends unready => exact absurd hready unready
  | waits _ p effects ticket given history fed pending =>
    have hstages : s'.stages = s.stages ++ [.began (s.ticketFor name .willSave document d.path)] := by
      unfold Session.stages
      rw [history, List.filterMap_append]
      -- The effects of the start are no stages.
      have hnone : (effects.map (Entry.effect name)).filterMap Entry.stage? = [] := by
        simp [List.filterMap_eq_nil_iff, Entry.stage?]
      rw [List.filterMap_cons]
      show _ ++ (_ :: (effects.map (Entry.effect name)).filterMap Entry.stage?) = _
      rw [hnone]
    refine ⟨v.quiet hstages rfl rfl ?_ (.refl d) fun q hq => ?_, ?_, ?_⟩
    · exact (congrArg (List.lookup document) hdocs).trans v.opened
    · rw [pending] at hq
      rcases List.mem_append.mp hq with hq | hq
      · exact v.given q hq
      · obtain rfl := List.mem_singleton.mp hq
        exact ⟨congrArg Ticket.task ticket, congrArg Ticket.document ticket, d.text, .inr rfl, given⟩
    · rw [hstages, endings_append]
      exact List.append_nil _
    · rw [pending, List.length_append]
      rfl

/-- A hook that ends plans a save if it has edited the document. -/
theorem resavers_end {t : Ticket} (htask : t.task = .willSave) (o : Outcome) (b : Bool) :
    EditorLint.resavers [.found t o, .ended t (.edited b)] = if b then [t] else [] := by
  cases b <;> simp [EditorLint.resavers, List.filterMap_cons, Stage.resaver?, htask]

theorem answered (hF : ∀ t u v, F t = some u → F u = some v → v = u)
    (v : Looping F document d₀ d s) {p : Pending}
    (hp : Given document (fun t => t = d₀.text ∨ t = d.text) p) {e : TalkEnd}
    (hs : Succeeds F p e) :
    ∃ d' b, Looping F document d₀ d' (s.goOn p e) ∧
      endings (s.goOn p e).stages = endings s.stages ++ [.edited b] := by
  obtain ⟨htask, hdocument, t, ht, hinput⟩ := hp
  have hopened : s.document? p.ticket.document = some d := hdocument ▸ v.opened
  -- Whatever the proposal does to the document, the rest follows.
  have ended {x : Option OpenDocument} (hx : d.applyFix (F t) = .ok x)
      (haccepts : (x.getD d).accepts = true)
      (hstand : ∀ o, Stand F d₀ (x.getD d)
        (s.stages ++ [.found p.ticket o, .ended p.ticket (.edited x.isSome)]))
      (htexts : ∀ t, t = d₀.text ∨ t = d.text → t = d₀.text ∨ t = (x.getD d).text) :
      ∃ d' b, Looping F document d₀ d' (s.goOn p e) ∧
        endings (s.goOn p e).stages = endings s.stages ++ [.edited b] := by
    obtain ⟨o, hmoves, hdocs⟩ := Session.goOn_succeeds hs htask hopened hinput hx
    refine ⟨x.getD d, x.isSome, ⟨?_, haccepts, ?_, ?_, ?_⟩, ?_⟩
    · rw [hdocs, hdocument, if_pos rfl]
    · rw [hmoves.stages]
      exact hstand o
    · intro q hq
      rw [Session.pending_goOn] at hq
      obtain ⟨htask, hdocument, t, ht, hinput⟩ := v.given q hq
      exact ⟨htask, hdocument, t, htexts t ht, hinput⟩
    · intro u hu
      rw [hmoves.stages, resavers_append, resavers_end htask] at hu
      rcases List.mem_append.mp hu with hu | hu
      · exact v.resavers u hu
      · split at hu
        · rw [List.mem_singleton.mp hu, hdocument]
        · cases hu
    · rw [hmoves.stages, endings_append]
      rfl
  cases v.stand with
  | begun ends saves text edits =>
    -- Nothing has been edited, so the linter was given the text that is there.
    obtain rfl : t = d.text := ht.elim (fun h => h.trans text.symm) id
    obtain ⟨x, hx, hsome, hfixed, hedits, haccepts⟩ := OpenDocument.applyFix_own (F := F) v.accepts
    rw [text] at hsome hfixed hedits
    refine ended hx haccepts (fun o => ?_) fun u hu => .inl (hu.elim id fun h => h.trans text)
    refine .settled 0 ?_ ?_ hfixed (edits ▸ hedits)
    · rw [endings_append, ends, hsome]
      rfl
    · rw [resavers_append, saves, resavers_end htask, hsome]
      by_cases hsame : fixedText F d₀.text = d₀.text <;> simp [hsame]
  | settled n ends saves text edits =>
    -- The text is fixed, and the linter makes it of both texts that it may have been given.
    have hthere : ∀ u, F t = some u → u = d.text := by
      intro u hu
      rw [text]
      rcases ht with rfl | rfl
      · exact (fixedText_of_some hu).symm
      · rw [text] at hu
        exact leaves_fixed hF _ u hu
    refine ended (OpenDocument.applyFix_there hthere) v.accepts (fun o => ?_) fun u hu => hu
    refine .settled (n + 1) ?_ ?_ text edits
    · rw [endings_append, ends, List.replicate_succ']
      rfl
    · rw [resavers_append, resavers_end htask]
      exact (congrArg List.length (List.append_nil _)).trans saves

theorem saved (v : Looping F document d₀ d s) (x : DeferredSave) :
    ∃ d', Looping F document d₀ d' (s.saveNow x) := by
  have hstages : (s.saveNow x).stages = s.stages ++ [] := by
    rw [List.append_nil]
    exact (Session.saveNow_same s x).1
  have hgiven : ∀ p ∈ (s.saveNow x).pending,
      Given document (fun t => t = d₀.text ∨ t = d.text) p := by
    rw [Session.pending_saveNow]
    exact v.given
  cases hx : s.document? x.document with
  | none =>
    have hsame : s.saveNow x = s := by
      unfold Session.saveNow
      simp only [hx]
    exact ⟨d, hsame.symm ▸ v⟩
  | some doc =>
    have hdocs := (Session.saveNow_saved s x hx).document
    -- Only a save of this document may leave another one there, and that has the same text.
    by_cases hown : document = x.document
    · obtain rfl : doc = d := Option.some.inj (hx.symm.trans (hown ▸ v.opened))
      refine ⟨_, v.quiet hstages rfl rfl ?_ (doc.alike_save s.machine.files s.machine.cwd) hgiven⟩
      rw [hdocs, if_pos hown]
    · refine ⟨d, v.quiet hstages rfl rfl ?_ (.refl d) hgiven⟩
      rw [hdocs, if_neg hown]
      exact v.opened

/-- What happens in a loop keeps it one.  A request that is called is one more that waits or has
ended, and none is lost. -/
theorem happens (hF : ∀ t u v, F t = some u → F u = some v → v = u)
    (v : Looping F document d₀ d s) {a : Happening} (now : s.Happens a s')
    (hin : InLoop F document ⟨s, a, s'⟩) :
    ∃ d', Looping F document d₀ d' s' ∧ (endings s'.stages).length + s'.pending.length =
      (endings s.stages).length + s.pending.length +
        if Turn.isRequest ⟨s, a, s'⟩ then 1 else 0 := by
  cases now with
  | event e =>
    cases hin with
    | hook name child live settings what opened loaded enabled ready =>
      cases what
      obtain rfl : live = d := Option.some.inj (opened.symm.trans v.opened)
      obtain ⟨hlooping, hends, hpending⟩ := v.hook name child loaded enabled ready
      have hhandle : s.handle (.request name .willSave document child) =
          s.launch name .willSave document live child := by
        simp only [Session.handle, v.opened]
      rw [hhandle]
      refine ⟨live, hlooping, ?_⟩
      rw [hends, hpending]
      rfl
    | answered p e what => cases what
    | saved d what => cases what
    | aside e what harmless =>
      cases what
      obtain ⟨hstages, hpending, d', hopened, halike⟩ := s.aside_handle harmless v.opened
      refine ⟨d', v.quiet (by rw [hstages, List.append_nil]) rfl rfl hopened halike fun p hp => ?_, ?_⟩
      · rcases s.pending_handle e hp with ⟨q, hq, hticket, -, htalk⟩ | ⟨⟨name, child, he⟩, -⟩
        · obtain ⟨htask, hdocument, t, ht, hinput⟩ := v.given q hq
          exact ⟨hticket ▸ htask, hticket ▸ hdocument, t, ht, htalk ▸ hinput⟩
        · rw [he] at harmless
          cases harmless
      · rw [hstages, hpending]
        cases e <;> first | rfl | cases harmless
  | @save x front rest waits due =>
    -- A save that comes is not one that still waits, and the loop does not depend on those.
    obtain ⟨d', hlooping⟩ := Looping.saved
      (s := { s with saves := front ++ rest }) ⟨v.opened, v.accepts, v.stand, v.given, v.resavers⟩ x
    refine ⟨d', hlooping, ?_⟩
    rw [(Session.saveNow_same _ x).1, Session.pending_saveNow]
    rfl
  | kill | giveUp =>
    cases hin with
    | hook _ _ _ _ what => cases what
    | answered _ _ what => cases what
    | saved _ what => cases what
    | aside _ what => cases what
  | @goOn p front rest e waits ended =>
    cases hin with
    | hook _ _ _ _ what => cases what
    | saved d what => cases what
    | aside e what => cases what
    | answered p e what succeeds =>
      cases what
      have hp : p ∈ s.pending := by simp [waits]
      have hkept : ∀ q ∈ front ++ rest, q ∈ s.pending := by
        intro q hq
        rw [waits]
        rcases List.mem_append.mp hq with hq | hq
        · exact List.mem_append_left _ hq
        · exact List.mem_append_right _ (List.mem_cons_of_mem p hq)
      -- The request that goes on no longer waits when it ends, so the others are counted without
      -- it.
      obtain ⟨d', b, hlooping, hends⟩ := Looping.answered hF
        (s := { s with pending := front ++ rest })
        ⟨v.opened, v.accepts, v.stand, fun q hq => v.given q (hkept q hq), v.resavers⟩
        (v.given p hp) succeeds
      refine ⟨d', hlooping, ?_⟩
      rw [hends, Session.pending_goOn, waits, List.length_append, List.length_append,
        List.length_append]
      show (endings s.stages).length + 1 + (front.length + rest.length) =
        (endings s.stages).length + (front.length + (rest.length + 1)) + 0
      omega

end Looping

end Turns

/-! ## Whole loops -/

namespace Session

section Initial

variable {F : Text → Option Text} {m₀ : Machine} {h : Handler} {source : SettingsSource}
  {documents : List (Text × OpenDocument)} {document : Text} {d₀ : OpenDocument}
  {ms : List Turn} {s : Session}

theorem looping_timeline (hF : ∀ t u v, F t = some u → F u = some v → v = u)
    (hopen : documents.lookup document = some d₀) (haccepts : d₀.accepts = true)
    (ht : (initial m₀ h source documents).Timeline ms s) (hin : ∀ m ∈ ms, InLoop F document m) :
    ∃ d, Looping F document d₀ d s ∧
      (endings s.stages).length + s.pending.length = ms.countP Turn.isRequest := by
  induction ht with
  | start =>
    refine ⟨d₀, ⟨hopen, haccepts, .begun rfl rfl rfl rfl, ?_, ?_⟩, rfl⟩
    · exact fun p hp => nomatch hp
    · exact fun t ht => nomatch ht
  | @next past s s' a before now ih =>
    obtain ⟨d, hlooping, hcount⟩ := ih fun m hm => hin m (List.mem_append_left _ hm)
    obtain ⟨d', hlooping', hcount'⟩ := hlooping.happens hF now (hin _ (by simp))
    refine ⟨d', hlooping', ?_⟩
    rw [hcount', hcount, List.countP_append, List.countP_singleton]

theorem Timeline.resavers {s s' : Session} (ht : s.Timeline ms s') {t : Ticket}
    (hmem : t ∈ resavers s.stages) : t ∈ EditorLint.resavers s'.stages := by
  obtain ⟨x, hx, hresaver⟩ := List.mem_filterMap.mp hmem
  exact List.mem_filterMap.mpr ⟨x, ht.stages hx, hresaver⟩

/-- Hooks that fix a document, and the saves that they cause, come to a stop.  Let what the linter
proposes be a function of the text that it is given, which leaves its own results alone, let every
run succeed, and let nobody else edit the document.

However often the hook is called, however the calls overlap, and whenever the saves take place:
every hook that has been called waits or has ended.  The first one that ends puts in place what
the linter makes of the text; if that is the same text, no document is edited and no save is
planned, and otherwise one is.  All that end later change nothing (`Stand`).  So at most one save
is ever planned, and when it takes place, it saves the text that stays.  If all hooks but the
first are called for such a save, there are two of them at most. -/
theorem resaving_stops (hF : ∀ t u v, F t = some u → F u = some v → v = u)
    (hopen : documents.lookup document = some d₀) (haccepts : d₀.accepts = true)
    (ht : (initial m₀ h source documents).Timeline ms s) (hin : ∀ m ∈ ms, InLoop F document m) :
    let resaves := caused (ms.filterMap Turn.save? ++ s.saves)
    ∃ d, s.document? document = some d ∧ Stand F d₀ d s.stages ∧
      (endings s.stages).length + s.pending.length = ms.countP Turn.isRequest ∧
      (∃ plan, Plan ms s plan ∧ plan.length ≤ 1) ∧ resaves.length ≤ 1 ∧
      (∀ m ∈ ms, ∀ x, m.what = .save x → x.name = none → m.Saves x ∧ x.document = document ∧
        ∃ doc, m.before.document? document = some doc ∧ doc.text = fixedText F d₀.text ∧
          d.text = doc.text) ∧
      (ms.countP Turn.isRequest ≤ 1 + resaves.length → ms.countP Turn.isRequest ≤ 2) := by
  intro resaves
  obtain ⟨d, hlooping, hcount⟩ := looping_timeline hF hopen haccepts ht hin
  obtain ⟨plan, hplan⟩ := planned_timeline ht
  have hlength : plan.length = (EditorLint.resavers s.stages).length := by
    rw [← hplan.requests, List.length_map]
  have hresaves : resaves.length = plan.length := by
    have hcounted : (plan.map fun x => x.1.saveAt x.2).length = plan.length := List.length_map _
    exact hplan.saves.length_eq.trans hcounted
  have hone : plan.length ≤ 1 := hlength ▸ hlooping.stand.resavers_le
  refine ⟨d, hlooping.opened, hlooping.stand, hcount, ⟨plan, hplan, hone⟩, hresaves ▸ hone, ?saves,
    fun h => by omega⟩
  case saves =>
    intro m hm x hwhat hcaused
    obtain ⟨earlier, later, rfl, hbefore, hnow, hafter⟩ := ht.mem hm
    obtain ⟨before, what, after⟩ := m
    subst hwhat
    obtain ⟨doc, hloop, -⟩ := looping_timeline hF hopen haccepts hbefore
      fun m hm => hin m (List.mem_append_left _ hm)
    -- The request that planned the save ended before, and so the text was fixed by then.
    have hsaves := saves_happens hbefore hnow hcaused
    obtain ⟨t, hresaver, hx⟩ := hsaves.ended
    have hown : x.document = document := by
      rw [hx]
      exact hloop.resavers t hresaver
    have hfixed := hloop.stand.fixed hresaver
    have hkept : t ∈ EditorLint.resavers s.stages :=
      hafter.resavers ((Timeline.one hnow).resavers hresaver)
    exact ⟨hsaves, hown, doc, hloop.opened, hfixed,
      (hlooping.stand.fixed hkept).trans hfixed.symm⟩

end Initial

/-! ## Two rounds -/

/-- What the linter writes that makes `c` of every text. -/
def fixedOutput : ProcessOutput :=
  ⟨some 0, [0x5b, 0x7b, 0x22, 0x6d, 0x65, 0x73, 0x73, 0x61, 0x67, 0x65, 0x73, 0x22, 0x3a, 0x5b, 0x5d,
    0x2c, 0x22, 0x6f, 0x75, 0x74, 0x70, 0x75, 0x74, 0x22, 0x3a, 0x22, 0x63, 0x22, 0x7d, 0x5d], []⟩

/-- A call of the hook for the document without a name. -/
def hookCall : Event := .request [] .willSave [] ⟨none, .output fixedOutput, .after 0, false, false⟩

def fixingSettings : LinterSettings := { LinterSettings.defaults with fixOnSave := true }

/-- A session with a document that has the text `a`. -/
def unfixed : Session :=
  initial ⟨.ofNodes [([], .directory), (["eslint.config.js"], .file [] false)],
    ⟨.slash, []⟩, [], .alone "/root"⟩ .none
    (.given (.ok fixingSettings)) [([], .buffer ⟨⟨.slash, ["a"]⟩, "a", none, none, 0, 0⟩)]

/-- The session after the only hook that waits has been answered. -/
def answered (s : Session) : Session :=
  match s.pending with
  | [p] => { s with pending := [] }.goOn p (.replied (.output fixedOutput))
  | _ => s

def callable (s : Session) : Bool :=
  (s.document? []).any fun d => (Utf8.encode d.text).toOption.isSome &&
    (Search.locateBy s.machine.probe s.machine.cwd d.path.parent
      (Search.spec fixingSettings.configNames fixingSettings.maxAscent)).toOption.join.isSome

/-- Whether one hook waits, and is answered now. -/
def answerable (s : Session) : Bool :=
  match s.pending with
  | [p] => p.talk.invocation.input.isSome && p.killed.isNone &&
    match p.ending? s.clock with
    | some (.replied (.output o)) => o == fixedOutput
    | _ => false
  | _ => false

theorem inLoop_call {s : Session} (hloaded : s.loaded = .ok fixingSettings)
    (hcallable : s.callable = true) (F : Text → Option Text) :
    InLoop F [] ⟨s, .event hookCall, s.handle hookCall⟩ := by
  obtain ⟨d, hd, hready⟩ := (Option.any_eq_true _ _).mp hcallable
  obtain ⟨hencoded, hlocated⟩ := (Bool.and_eq_true _ _).mp hready
  obtain ⟨bytes, hbytes⟩ := Option.isSome_iff_exists.mp hencoded
  obtain ⟨config, hconfig⟩ := Option.isSome_iff_exists.mp hlocated
  refine .hook [] _ d fixingSettings rfl hd hloaded rfl ⟨⟨config, ?_⟩, rfl, bytes, ?_⟩
  · exact ok_of_toOption (Option.join_eq_some_iff.mp hconfig)
  · exact ok_of_toOption hbytes

theorem inLoop_answered {s : Session} (h : s.answerable = true) :
    ∃ p, s.Happens (.goOn p (.replied (.output fixedOutput))) s.answered ∧
      InLoop (fun _ => some "c") []
        ⟨s, .goOn p (.replied (.output fixedOutput)), s.answered⟩ := by
  -- The report is read once and for all, whatever the session is.
  have hreport : ((Report.read (Utf8.decodeReplacing fixedOutput.stdout)).result.toOption.any fun
      | .readable _ fix => fix == some (Text.ofString "c")
      | .unreadable _ => false) = true := by decide +kernel
  unfold answerable at h
  split at h
  · rename_i p hp
    obtain ⟨hboth, hended⟩ := (Bool.and_eq_true _ _).mp h
    obtain ⟨hgiven, hkilled⟩ := (Bool.and_eq_true _ _).mp hboth
    have halive : p.killed = none := Option.isNone_iff_eq_none.mp hkilled
    obtain ⟨input, hinput⟩ := Option.isSome_iff_exists.mp hgiven
    obtain ⟨r, hr, hfix⟩ := (Option.any_eq_true _ _).mp hreport
    have hnext : s.answered = { s with pending := [] }.goOn p (.replied (.output fixedOutput)) := by
      unfold answered
      simp only [hp]
    rw [hnext]
    refine ⟨p, @Happens.goOn s p [] [] _ hp ?_ (.inr ⟨halive, rfl⟩), ?_⟩
    · split at hended
      · rename_i o ho
        unfold Pending.over?
        rw [halive]
        dsimp only
        rw [ho, beq_iff_eq.mp hended]
        rfl
      · cases hended
    · cases r with
      | unreadable reason => cases hfix
      | readable diagnostics fix =>
        refine .answered p _ rfl (.replied input _ diagnostics hinput (by decide +kernel) ?_)
        rw [ok_of_toOption hr, beq_iff_eq.mp hfix]
  · cases h

/-- The linter makes `c` of every text.  A document with the text `a` is fixed when the hook is
called, the hook is called once more and changes nothing, and then the document is saved. -/
theorem resaving_stops_twice :
    let F : Text → Option Text := fun _ => some "c"
    let d₀ : OpenDocument := .buffer ⟨⟨.slash, ["a"]⟩, "a", none, none, 0, 0⟩
    ∃ ms s d, unfixed.Timeline ms s ∧ (∀ m ∈ ms, InLoop F [] m) ∧ ms.countP Turn.isRequest = 2 ∧
      s.pending = [] ∧ (caused (ms.filterMap Turn.save?)).length = 1 ∧
      s.document? [] = some d ∧ Stand F d₀ d s.stages ∧ d.text = Text.ofString "c" := by
  intro F d₀
  let source : SettingsSource := .given (.ok fixingSettings)
  let called := unfixed.handle hookCall
  let fixed := called.answered
  let ready := fixed.handle (.settings source)
  let again := ready.handle hookCall
  let left := again.answered
  let later := left.handle (.advance 1)
  have hall : (unfixed.callable && called.answerable && ready.callable && again.answerable &&
      later.pending.isEmpty && later.saves.length == 1 &&
      later.saves.all fun x => later.hasCome x.due && x.name.isNone) = true := by decide +kernel
  simp only [Bool.and_eq_true, beq_iff_eq, List.isEmpty_iff] at hall
  obtain ⟨⟨⟨⟨⟨⟨hcallable, hanswer⟩, hcallable'⟩, hanswer'⟩, hquiet⟩, hone⟩, hdue⟩ := hall
  have hcall : unfixed.Happens (.event hookCall) called := .event hookCall
  have hinCall : InLoop F [] ⟨unfixed, .event hookCall, called⟩ := inLoop_call rfl hcallable F
  have hset : fixed.Happens (.event (.settings source)) ready := .event _
  have hinSet : InLoop F [] ⟨fixed, .event (.settings source), ready⟩ := .aside _ rfl rfl
  have hcall' : ready.Happens (.event hookCall) again := .event hookCall
  have hinCall' : InLoop F [] ⟨ready, .event hookCall, again⟩ := inLoop_call rfl hcallable' F
  have hwait : left.Happens (.event (.advance 1)) later := .event _
  have hinWait : InLoop F [] ⟨left, .event (.advance 1), later⟩ := .aside _ rfl rfl
  let e : TalkEnd := .replied (.output fixedOutput)
  obtain ⟨p, hgoes, hinGoes⟩ : ∃ p, called.Happens (.goOn p e) fixed ∧
      InLoop F [] ⟨called, .goOn p e, fixed⟩ := inLoop_answered hanswer
  obtain ⟨q, hgoes', hinGoes'⟩ : ∃ q, again.Happens (.goOn q e) left ∧
      InLoop F [] ⟨again, .goOn q e, left⟩ := inLoop_answered hanswer'
  -- From here on only what has been said of the sessions counts, and they are not computed again.
  clear_value later left again ready fixed called
  obtain ⟨x, hx⟩ := List.length_eq_one_iff.mp hone
  obtain ⟨hcome, hnone⟩ := (Bool.and_eq_true _ _).mp
    (List.all_eq_true.mp hdue x (hx ▸ List.mem_singleton_self x))
  let saved := { later with saves := [] }.saveNow x
  have hsave : later.Happens (.save x) saved := @Happens.save later x [] [] hx hcome
  have hnow : saved.pending = [] := (pending_saveNow _ x).trans hquiet
  let ms : List Turn := [⟨unfixed, .event hookCall, called⟩, ⟨called, .goOn p e, fixed⟩,
    ⟨fixed, .event (.settings source), ready⟩, ⟨ready, .event hookCall, again⟩,
    ⟨again, .goOn q e, left⟩, ⟨left, .event (.advance 1), later⟩, ⟨later, .save x, saved⟩]
  have ht : unfixed.Timeline ms saved :=
    .next ((((((Timeline.one hcall).next hgoes).next hset).next hcall').next hgoes').next hwait)
      hsave
  have hin : ∀ m ∈ ms, InLoop F [] m := by
    simp only [ms, List.forall_mem_cons]
    exact ⟨hinCall, hinGoes, hinSet, hinCall', hinGoes', hinWait, .saved x rfl,
      List.forall_mem_nil _⟩
  have hF : ∀ t u v, F t = some u → F u = some v → v = u := by
    intro t u v hu hv
    exact Option.some.inj (hv.symm.trans hu)
  have hopen : [(([] : Text), d₀)].lookup [] = some d₀ := rfl
  have hlast : ⟨later, .save x, saved⟩ ∈ ms := by simp [ms]
  clear_value saved
  obtain ⟨d, hd, hstand, -, -, -, hsaves, -⟩ := resaving_stops hF hopen rfl ht hin
  obtain ⟨-, -, doc, -, hdoc, htext⟩ := hsaves _ hlast x rfl (Option.isNone_iff_eq_none.mp hnone)
  refine ⟨ms, saved, d, ht, hin, rfl, hnow, ?_, hd, hstand, htext.trans hdoc⟩
  · exact congrArg List.length (List.filter_eq_self.mpr fun y hy => by
      rw [List.mem_singleton.mp hy]
      exact hnone)

end Session

end EditorLint
