import EditorLint.Proofs.Course

/-!
# Fixes and the text they replace

A fix gives the linter the text that its document has when it begins.  What the linter
proposes is compared with the text that the document has when the linter has answered, and
replaces that.  So what was typed in between is lost, unless the proposal is that very
text, there is no proposal, or the document cannot be changed (`fix_replaces_live_text`).
-/

namespace EditorLint

/-! ## The text given to the linter -/

theorem Runner.start_waiting {h : Handler} {settings : LinterSettings} {config file : Path}
    {mode : RunMode} {text : Option Text} {child : Child} {t : Runner.Talk}
    (hw : (Runner.start h settings config file mode text child).result = .ok (.waiting t)) :
    t.invocation.input = text := by
  unfold Runner.start at hw
  obtain ⟨_, -, hw⟩ := Action.result_bind hw
  obtain ⟨refused, -, hw⟩ := Action.result_bind hw
  cases refused with
  | some outcome => simp at hw
  | none =>
    obtain ⟨_, -, hw⟩ := Action.result_bind hw
    simp only [Action.result_pure, Except.ok.injEq, Progress.waiting.injEq] at hw
    rw [← hw]
    rfl

namespace Request

section Launch

variable {h : Handler} {m : Machine} {s : LinterSettings} {path : Path} {mode : RunMode}
  {given : Option Text} {child : Child}

theorem launch_unsearched {f : Failure} (search : located m s path = .error f) :
    launch h m s path mode given child = ⟨[], .error f⟩ := by
  unfold launch
  rw [search]
  rfl

theorem launch_unlocated (search : located m s path = .ok none) :
    launch h m s path mode given child =
      ⟨[.log (.plain .debug logger "lint_config_not_found" [pathField path])],
        .ok (.done (.empty none))⟩ := by
  unfold launch
  rw [search]
  rfl

theorem launch_located {config : Path} (search : located m s path = .ok (some config)) :
    launch h m s path mode given child = Runner.start h s config path mode given child := by
  unfold launch
  rw [search]
  rfl

end Launch

theorem launch_waiting {h : Handler} {m : Machine} {s : LinterSettings} {path : Path}
    {mode : RunMode} {text : Option Text} {child : Child} {t : Runner.Talk}
    (hw : (launch h m s path mode text child).result = .ok (.waiting t)) :
    t.invocation.input = text := by
  unfold launch at hw
  obtain ⟨found, -, hw⟩ := Action.result_bind hw
  cases found with
  | none =>
    obtain ⟨_, -, hw⟩ := Action.result_bind hw
    simp at hw
  | some config => exact Runner.start_waiting hw

/-- A fix that waits for its child has given it the text of the document. -/
theorem begin_waiting {h : Handler} {m : Machine} {loaded : Except Failure LinterSettings}
    {task : Task} {path : Path} {text : Text} {child : Child} {s : LinterSettings}
    {t : Runner.Talk}
    (hw : (begin h m loaded task path text child).result = .ok (.waiting (s, t))) :
    t.invocation.input = input task text := by
  unfold begin at hw
  obtain ⟨known, -, hw⟩ := Action.result_bind hw
  cases known with
  | none => simp at hw
  | some s' =>
    dsimp only at hw
    split at hw
    · simp at hw
    · obtain ⟨progress, hp, hw⟩ := Action.result_bind hw
      cases progress with
      | done o => simp at hw
      | waiting t' =>
        simp only [Action.result_pure, Except.ok.injEq, Progress.waiting.injEq,
          Prod.mk.injEq] at hw
        rw [← hw.2]
        rcases Action.result_recover hp with hl | ⟨f, -, hr⟩
        · exact launch_waiting hl
        · obtain ⟨o, -, hr⟩ := Action.result_bind hr
          simp at hr

/-- A request that waits has the settings that were loaded when it began. -/
theorem loaded_of_waiting {h : Handler} {m : Machine}
    {loaded : Except Failure LinterSettings} {task : Task} {path : Path} {text : Text}
    {child : Child} {s : LinterSettings} {t : Runner.Talk}
    (hw : (begin h m loaded task path text child).result = .ok (.waiting (s, t))) :
    loaded = .ok s := by
  unfold begin at hw
  obtain ⟨known, hknown, hw⟩ := Action.result_bind hw
  cases known with
  | none => cases hw
  | some s' =>
    have hloaded : loaded = .ok s' := by
      unfold settings at hknown
      split at hknown
      · cases hknown
        rfl
      · obtain ⟨_, -, hknown⟩ := Action.result_bind hknown
        obtain ⟨_, -, hknown⟩ := Action.result_bind hknown
        cases hknown
      · cases hknown
    dsimp only at hw
    split at hw
    · cases hw
    · obtain ⟨progress, -, hw⟩ := Action.result_bind hw
      cases progress with
      | done o => cases hw
      | waiting t' =>
        cases hw
        exact hloaded

end Request

/-! ## Where a waiting request comes from -/

namespace Session

/-- A waiting request that an event has asked for: a fix has given the linter the text that
the document had then. -/
structure AskedBy (s : Session) (e : Event) (p : Pending) : Prop where
  event : ∃ name child, e = .request name p.ticket.task p.ticket.document child
  input : ∃ d, s.document? p.ticket.document = some d ∧
    p.talk.invocation.input = if p.ticket.task.isFix then some d.text else none

theorem AskedBy.same {s : Session} {e : Event} {p q : Pending} (h : s.AskedBy e q)
    (hs : SameRequest q p) : s.AskedBy e p where
  event := hs.ticket ▸ h.event
  input := hs.ticket ▸ hs.talk ▸ h.input

theorem pending_handle (s : Session) (e : Event) {p : Pending} (hp : p ∈ (s.handle e).pending) :
    (∃ q ∈ s.pending, SameRequest q p) ∨ s.AskedBy e p := by
  have old : p ∈ s.pending → (∃ q ∈ s.pending, SameRequest q p) ∨ s.AskedBy e p := fun h =>
    .inl ⟨p, h, .refl p⟩
  cases e with
  | request name task document child =>
    simp only [Session.handle] at hp
    split at hp
    · rename_i d hd
      rcases pending_enter _ _ _ _ hp with hp | ⟨ht, -, hw⟩
      · exact old hp
      · have hin := Request.begin_waiting hw
        refine .inr ⟨⟨name, child, ?_⟩, d, ?_, ?_⟩
        · rw [ht]
          rfl
        · rw [ht]
          exact hd
        · rw [ht]
          exact hin
    · exact old hp
  | answer name child =>
    obtain ⟨q, hq, rfl⟩ := List.mem_map.mp hp
    exact .inl ⟨q, hq, (same_heard _ _ _ q).1⟩
  | died name =>
    obtain ⟨q, hq, rfl⟩ := List.mem_map.mp hp
    exact .inl ⟨q, hq, (same_buried _ q).1⟩
  | cancel name =>
    simp only [Session.handle, Session.cancel] at hp
    split at hp
    · rename_i q hq
      split at hp
      · rcases List.mem_append.mp hp with hp | hp
        · exact old (List.mem_of_mem_eraseP hp)
        · rw [List.mem_singleton.mp hp]
          exact .inl ⟨q, List.mem_of_find?_eq_some hq, rfl, rfl, rfl⟩
      · exact old (List.mem_of_mem_eraseP hp)
    · exact old hp
  | advance | saveLater | settings | sink | files => exact old hp
  | edit | replace | save | applyFix | issues =>
    apply old
    simp only [Session.handle] at hp
    revert hp
    repeat' split
    all_goals exact id

/-- What comes due by itself only kills children and takes waiting requests away. -/
theorem pending_settled (s : Session) {p : Pending} (hp : p ∈ s.settled.pending) :
    ∃ q ∈ s.pending, SameRequest q p := by
  have k : Settles fun ps _ => ∀ q ∈ ps, ∃ q' ∈ s.pending, SameRequest q' q := {
    perm := fun h hq q hm => hq q (h.mem_iff.mpr hm)
    aside := fun _ _ _ hq => hq
    kill := fun w hq q hm => by
      rcases List.mem_cons.mp hm with rfl | hm
      · obtain ⟨q', hq', hs⟩ := hq _ List.mem_cons_self
        exact ⟨q', hq', hs.trans ⟨rfl, rfl, rfl⟩⟩
      · exact hq q (List.mem_cons_of_mem _ hm)
    goOn := fun _ hq q hm => hq q (List.mem_cons_of_mem _ hm)
    giveUp := fun hq q hm => hq q (List.mem_cons_of_mem _ hm)
    saveNow := fun _ hq => hq }
  exact k.settled (fun q hq => ⟨q, hq, .refl q⟩) p hp

/-- Every request that waits after a run has waited before it, or an event of the run asked
for it. -/
theorem pending_run (events : List Event) (s : Session) {p : Pending}
    (hp : p ∈ (s.run events).pending) :
    (∃ q ∈ s.pending, SameRequest q p) ∨
      ∃ earlier e later, events = earlier ++ e :: later ∧ (s.run earlier).AskedBy e p := by
  -- On the events from the front: what waits after the rest waited after the first event, and
  -- so before it, unless that event asked for it.
  induction events generalizing s with
  | nil => exact .inl ⟨p, hp, .refl p⟩
  | cons e rest ih =>
    rcases ih (s.step e) hp with ⟨q, hq, hs⟩ | ⟨earlier, e', later, rfl, h⟩
    · obtain ⟨r, hr, hs'⟩ := pending_settled _ hq
      rcases pending_handle s e hr with ⟨r', hr', hs''⟩ | h
      · exact .inl ⟨r', hr', hs''.trans (hs'.trans hs)⟩
      · exact .inr ⟨[], e, rest, rfl, h.same (hs'.trans hs)⟩
    · exact .inr ⟨e :: earlier, e', later, rfl, h⟩

end Session

/-! ## The text at the end of a fix -/

def OpenDocument.accepts : OpenDocument → Bool
  | buffer b => b.replaceFailure.isNone
  | file _ => true

/-- What becomes of the text of a document when a fix proposes a text, or nothing: it stays,
or a document that accepts it gets the proposed text where that is another one. -/
inductive Settled (live : OpenDocument) (proposed : Option Text) (text : Text) : Prop where
  | kept (same : text = live.text)
    (why : proposed = none ∨ proposed = some live.text ∨ live.accepts = false)
  | replaced (accepted : live.accepts = true) (fix : proposed = some text)
    (other : text ≠ live.text)

namespace OpenDocument

def after (live : OpenDocument) : Except Failure (Option OpenDocument) → OpenDocument
  | .ok (some d) => d
  | .ok none | .error _ => live

theorem settled_applyFix (live : OpenDocument) (proposed : Option Text) :
    Settled live proposed (live.after (live.applyFix proposed)).text := by
  unfold applyFix
  cases proposed with
  | none => exact .kept rfl (.inl rfl)
  | some text =>
    dsimp only
    by_cases hsame : text = live.text
    · rw [if_pos hsame]
      exact .kept rfl (.inr (.inl (by rw [hsame])))
    · rw [if_neg hsame]
      cases live with
      | file d => exact .replaced rfl rfl hsame
      | buffer b =>
        cases hb : b.replaceFailure with
        | none =>
          simp only [replaceText, hb]
          exact .replaced (by simp [accepts, hb]) rfl hsame
        | some f =>
          simp only [replaceText, hb]
          exact .kept rfl (.inr (.inr (by simp [accepts, hb])))

end OpenDocument

/-- Whatever the host says to a refusal, the document stays as it is then. -/
theorem Fix.after_amend (h : Handler) (live : OpenDocument) (o : Outcome) :
    live.after (Fix.amend h live o).result = live.after (live.applyFix o.fix) := by
  have hrefused : ∀ x : Action Unit,
      live.after (x >>= fun _ => pure none : Action (Option OpenDocument)).result = live := by
    intro x
    have hb : (x >>= fun _ => pure none : Action (Option OpenDocument)) =
        x.bind fun _ => pure none := rfl
    rw [hb, Action.bind]
    split <;> rfl
  unfold Fix.amend
  cases live.applyFix o.fix with
  | error f => exact hrefused _
  | ok fixed => cases fixed <;> rfl

namespace Session

theorem document?_withDocument (s : Session) (name other : Text) (d : OpenDocument) :
    (s.withDocument name d).document? other =
      if other = name then (s.document? other).map fun _ => d else s.document? other := by
  unfold document? withDocument
  induction s.documents with
  | nil => simp
  | cons x rest ih =>
    obtain ⟨n, old⟩ := x
    simp only [List.map_cons, List.lookup_cons]
    cases hn : other == n with
    | true =>
      have : n = other := (eq_of_beq hn).symm
      subst this
      by_cases h : n = name <;> simp [h]
    | false => exact ih

/-- A session with the same documents, of which one may be another one. -/
theorem document?_same {s : Session} {name : Text} {live : OpenDocument}
    (hd : s.document? name = some live) (other : Text) :
    s.document? other = if other = name then some live else s.document? other := by
  split
  · rename_i h
    rw [h, hd]
  · rfl

theorem document?_closeFix (s : Session) (t : Ticket) (delay : Float) {live : OpenDocument}
    (hd : s.document? t.document = some live) (x : Except Failure (Option OpenDocument))
    (other : Text) :
    (s.closeFix t delay x).document? other =
      if other = t.document then some (live.after x) else s.document? other := by
  cases x with
  | error f => exact document?_same hd other
  | ok changed =>
    cases changed with
    | none => exact document?_same hd other
    | some d =>
      have hw := s.document?_withDocument t.document other d
      refine hw.trans ?_
      split
      · rename_i h
        rw [h, hd]
        rfl
      · rfl

/-- What a linter that has answered proposes for a document. -/
def proposal (s : Session) (p : Pending) (e : TalkEnd) : Option Text :=
  match (Request.proceed s.handler p.ticket.path p.talk e).result with
  | .ok o => o.fix
  | .error _ => none

theorem document?_amend (s : Session) (t : Ticket) (delay : Float) (o : Outcome)
    {live : OpenDocument} (hd : s.document? t.document = some live) :
    ∃ d, Settled live o.fix d.text ∧
      ∀ other, (s.amend t delay o).document? other =
        if other = t.document then some d else s.document? other := by
  refine ⟨live.after (live.applyFix o.fix), live.settled_applyFix o.fix, fun other => ?_⟩
  rw [← Fix.after_amend s.handler live o]
  simp only [amend, hd]
  exact document?_closeFix (s.note t.name _) t delay hd _ other

/-- A fix that goes on changes at most its own document, and that as it is at that moment. -/
theorem document?_goOn (s : Session) (p : Pending) (e : TalkEnd)
    (hfix : p.ticket.task.isFix = true) {live : OpenDocument}
    (hd : s.document? p.ticket.document = some live) :
    ∃ d, Settled live (s.proposal p e) d.text ∧
      ∀ other, (s.goOn p e).document? other =
        if other = p.ticket.document then some d else s.document? other := by
  simp only [goOn, proposal, result_proceed]
  cases (Request.proceed s.handler p.ticket.path p.talk e).result with
  | error f => exact ⟨live, .kept rfl (.inl rfl), document?_same hd⟩
  | ok o =>
    cases ht : p.ticket.task with
    | fix | willSave =>
      simp only [finish, ht]
      exact document?_amend _ p.ticket _ o hd
    | diagnose | provideIssues | refresh => simp [ht, Task.isFix] at hfix

/-- In every run, a fix that waits has been asked for, and has given the linter the text that its
document had then.  Whatever has happened until it goes on: its document keeps the text that
it has at that moment, or has the proposed text instead.  The text given to the linter
plays no part in that, and no other document changes. -/
theorem fix_replaces_live_text (m : Machine) (h : Handler) (source : SettingsSource)
    (documents : List (Text × OpenDocument)) (events : List Event) :
    (∀ p ∈ ((initial m h source documents).run events).pending, p.ticket.task.isFix = true →
      ∃ earlier name child later d,
        events = earlier ++ .request name p.ticket.task p.ticket.document child :: later ∧
        ((initial m h source documents).run earlier).document? p.ticket.document = some d ∧
        p.talk.invocation.input = some d.text) ∧
    ∀ (s : Session) (p : Pending) (e : TalkEnd) (live : OpenDocument),
      p.ticket.task.isFix = true → s.document? p.ticket.document = some live →
        ∃ d, Settled live (s.proposal p e) d.text ∧
          ∀ other, (s.goOn p e).document? other =
            if other = p.ticket.document then some d else s.document? other := by
  constructor
  · intro p hp hfix
    rcases pending_run events _ hp with ⟨q, hq, -⟩ | ⟨earlier, e, later, he, hasked⟩
    · simp [initial] at hq
    · obtain ⟨name, child, rfl⟩ := hasked.event
      obtain ⟨d, hd, hin⟩ := hasked.input
      rw [if_pos hfix] at hin
      exact ⟨earlier, name, child, later, d, he, hd, hin⟩
  · intro s p e live hfix hd
    exact document?_goOn s p e hfix hd

/-- What is typed while the linter works on an older text is lost: it is given `a`, `b` is
typed, and it answers with a report that proposes `c`. -/
theorem fix_discards_edit :
    let machine : Machine :=
      ⟨.ofNodes [([], .directory), (["eslint.config.js"], .file [] false)],
        ⟨.slash, []⟩, [], .alone "/root"⟩
    let document : OpenDocument := .buffer ⟨⟨.slash, ["a"]⟩, "a", none, none, 0, 0⟩
    let child : Child := ⟨none, .output ⟨none, [], []⟩, .onRequest, false, false⟩
    let report : List UInt8 :=
      [0x5b, 0x7b, 0x22, 0x6d, 0x65, 0x73, 0x73, 0x61, 0x67, 0x65, 0x73, 0x22, 0x3a, 0x5b, 0x5d,
        0x2c, 0x22, 0x6f, 0x75, 0x74, 0x70, 0x75, 0x74, 0x22, 0x3a, 0x22, 0x63, 0x22, 0x7d, 0x5d]
    let answer : TalkEnd := .replied (.output ⟨some 0, report, []⟩)
    let s := ((initial machine .none (.given (.ok .defaults)) [([], document)]).handle
      (.request [] (.fix false) [] child)).handle (.edit [] "b")
    s.pending.map (·.talk.invocation.input) = [some ("a" : Text)] ∧
      (s.document? []).map (·.text) = some ("b" : Text) ∧
      s.pending.map (fun p => ((s.goOn p answer).document? []).map (·.text)) =
        [some ("c" : Text)] := by
  decide +kernel

end Session

end EditorLint
