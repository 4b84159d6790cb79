import EditorLint.Proofs.Course
import EditorLint.Proofs.Sequencer
import EditorLint.Proofs.Stages

/-!
# The newest refresh wins

Refresh requests for one path run side by side and their linters answer in any order.
`refresh_newest_wins` says what comes of them in every run of a session in which nothing
but refresh requests touches what is on show.

Each refresh takes one of six courses (`RefreshCourse`).  It publishes in one of them only,
and then once: its run came to diagnostics, and no newer refresh for the path had begun by
then.  One that has not ended waits, and can do nothing else yet.  The publications for a path
come in the order in which their requests began, and the last of them is on show.

The sequencer forgets a path when its newest refresh is over, so its table alone does not
tell that an older one is stale.  What carries the proof is `Sequenced`: while the newest
refresh for a path waits, the table has its token, and the table never has a token below
that of a refresh that has begun.
-/

namespace EditorLint

/-- The stages that a refresh has come to, where `h` is everything that happened and the
requests `w` wait. -/
inductive RefreshCourse (w : List Ticket) (h : List Stage) (t : Ticket) : List Stage → Prop where
  | waiting (waits : t ∈ w) : RefreshCourse w h t [.began t]
  | cancelled : RefreshCourse w h t [.began t, .ended t .cancelled]
  | failed (f : Failure) : RefreshCourse w h t [.began t, .ended t (.failed f)]
  | stale (o : Outcome) (overtaken : Overtaken h t o) :
    RefreshCourse w h t [.began t, .found t o, .ended t (.outcome (.stale o.config))]
  | published (o : Outcome) (newest : ¬Overtaken h t o) (shows : Session.isPublished o = true) :
    RefreshCourse w h t
      [.began t, .found t o, .published t o.diagnostics, .ended t (.outcome o)]
  | unpublished (o : Outcome) (newest : ¬Overtaken h t o) (shows : Session.isPublished o = false) :
    RefreshCourse w h t [.began t, .found t o, .ended t (.outcome o)]

theorem RefreshCourse.append {w w' : List Ticket} {h k c : List Stage} {t : Ticket}
    (hc : RefreshCourse w h t c) (hw : t ∈ w → t ∈ w') (hk : ∀ x ∈ k, x.ticket ≠ t) :
    RefreshCourse w' (h ++ k) t c := by
  have same : ∀ o, Overtaken (h ++ k) t o ↔ Overtaken h t o := fun o =>
    overtaken_append fun hm => hk _ hm rfl
  cases hc with
  | waiting waits => exact .waiting (hw waits)
  | cancelled => exact .cancelled
  | failed f => exact .failed f
  | stale o ho => exact .stale o ((same o).mpr ho)
  | published o ho hs => exact .published o (mt (same o).mp ho) hs
  | unpublished o ho hs => exact .unpublished o (mt (same o).mp ho) hs

theorem RefreshCourse.mono {w w' : List Ticket} {h c : List Stage} {t : Ticket}
    (hc : RefreshCourse w h t c) (hw : t ∈ w → t ∈ w') : RefreshCourse w' h t c := by
  simpa using hc.append (k := []) hw (by simp)

/-! ## What holds between two steps -/

/-- What the stages of the requests, the sequencer and the issues on show have to do with
each other while the refresh requests `w` wait, where `before` was on show at first. -/
structure Sequenced (before : IssueStore) (w : List Ticket) (h : List Stage)
    (q : Sequencer Path) (issues : IssueStore) : Prop where
  ordered : (refreshes h).Pairwise fun t u => t.token < u.token
  counted : ∀ t ∈ refreshes h, t.token ≤ q.counter
  newest : ∀ p k, q.latest? p = some k → ∀ t ∈ refreshes h, t.path = p → t.token ≤ k
  current : ∀ t ∈ w, (∀ u ∈ refreshes h, u.path = t.path → u.token ≤ t.token) →
    q.latest? t.path = some t.token
  distinct : w.Nodup
  waiting : ∀ t ∈ w, t ∈ refreshes h ∧ course t h = [.began t]
  known : ∀ x ∈ h, x.ticket.task = .refresh → x.ticket ∈ refreshes h
  courses : ∀ t ∈ refreshes h, RefreshCourse w h t (course t h)
  publishers : ∀ t ds, Stage.published t ds ∈ h → t.task = .refresh
  shownInOrder : ∀ p, (shown p h).Pairwise fun a b => a.1.token < b.1.token
  onShow : ∀ p, issues.get p = ((shown p h).getLast?.map (·.2)).getD (before.get p)

namespace Sequenced

variable {before issues issues' : IssueStore} {w : List Ticket} {h k : List Stage}
  {q q' : Sequencer Path} {t : Ticket}

theorem empty (before : IssueStore) : Sequenced before [] [] .empty before where
  ordered := List.Pairwise.nil
  counted := by simp [refreshes]
  newest := by simp [refreshes]
  current := by simp
  distinct := List.nodup_nil
  waiting := by simp
  known := by simp
  courses := by simp [refreshes]
  publishers := by simp
  shownInOrder := by simp [shown]
  onShow := by simp [shown]

theorem perm {w' : List Ticket} (hw : w.Perm w') (v : Sequenced before w h q issues) :
    Sequenced before w' h q issues :=
  { v with
    current := fun t ht => v.current t (hw.mem_iff.mpr ht)
    distinct := hw.nodup_iff.mp v.distinct
    waiting := fun t ht => v.waiting t (hw.mem_iff.mpr ht)
    courses := fun t ht => (v.courses t ht).mono hw.mem_iff.mp }

theorem others (hk : ∀ x ∈ k, x.ticket.task ≠ .refresh ∧ ∀ p, x.shown? p = none)
    (v : Sequenced before w h q issues) : Sequenced before w (h ++ k) q issues := by
  have hr : refreshes k = [] := by
    refine List.filterMap_eq_nil_iff.mpr fun x hx => ?_
    have := (hk x hx).1
    cases x <;> simp_all [Stage.refresh?, Stage.ticket]
  have hs : ∀ p, shown p k = [] := fun p =>
    List.filterMap_eq_nil_iff.mpr fun x hx => (hk x hx).2 p
  have ho : ∀ t ∈ refreshes h, ∀ x ∈ k, x.ticket ≠ t := fun t ht x hx he =>
    (hk x hx).1 (he ▸ (mem_refreshes.mp ht).2)
  -- Nothing that the stages `k` add is a refresh: every clause reads the history as it was.
  have hm : refreshes (h ++ k) = refreshes h := by simp [hr]
  have hc : ∀ t ∈ refreshes h, course t (h ++ k) = course t h := fun t ht =>
    course_append_of_none (ho t ht) h
  constructor
  case ordered => exact hm ▸ v.ordered
  case counted => exact hm ▸ v.counted
  case newest => exact hm ▸ v.newest
  case current => exact hm ▸ v.current
  case distinct => exact v.distinct
  case waiting =>
    intro t ht
    obtain ⟨hb, hw⟩ := v.waiting t ht
    exact ⟨hm ▸ hb, (hc t hb).trans hw⟩
  case known =>
    intro x hx ht
    rcases List.mem_append.mp hx with hx | hx
    · exact hm ▸ v.known x hx ht
    · exact absurd ht (hk x hx).1
  case courses =>
    intro t ht
    rw [hm] at ht
    rw [hc t ht]
    exact (v.courses t ht).append id (ho t ht)
  case publishers =>
    intro t ds hx
    rcases List.mem_append.mp hx with hx | hx
    · exact v.publishers t ds hx
    · have := (hk _ hx).2 t.path
      simp [Stage.shown?] at this
  case shownInOrder =>
    intro p
    simpa [hs] using v.shownInOrder p
  case onShow =>
    intro p
    simpa [hs] using v.onShow p

theorem refreshes_began (ht : t.task = .refresh) (h : List Stage) :
    refreshes (h ++ [.began t]) = refreshes h ++ [t] := by
  simp [refreshes, Stage.refresh?, ht]

section Begins

variable (hn : t.token = q.counter + 1) (v : Sequenced before w h q issues)
include hn v

theorem fresh : t ∉ refreshes h := by
  intro hmem
  have := v.counted t hmem
  omega

/-- The table has no token below that of a refresh, also of the one that begins. -/
theorem newest_begin {p : Path} {k : Nat} (hl : (q.begin t.path).2.latest? p = some k)
    {u : Ticket} (hu : u ∈ refreshes h ++ [t]) (hp : u.path = p) : u.token ≤ k := by
  rw [List.mem_append, List.mem_singleton] at hu
  rw [Sequencer.latest?_begin] at hl
  split at hl
  · have hn' : q.counter + 1 = k := Option.some.inj hl
    rcases hu with hu | rfl
    · have := v.counted u hu
      omega
    · omega
  · rename_i hne
    rcases hu with hu | rfl
    · exact v.newest p k hl u hu hp
    · simp [hp] at hne

/-- The table has the token of the newest refresh for a path, be it the one that begins or one
that waits. -/
theorem current_begin {u : Ticket} (hu : u ∈ t :: w)
    (hmax : ∀ x ∈ refreshes h ++ [t], x.path = u.path → x.token ≤ u.token) :
    (q.begin t.path).2.latest? u.path = some u.token := by
  rw [Sequencer.latest?_begin]
  rcases List.mem_cons.mp hu with rfl | hu
  · simp [hn]
  · -- The newest for its path has another path, as `t` is newer than everything before it.
    have hne : t.path ≠ u.path := fun he => by
      have hle := hmax t (by simp) he
      have := v.counted u (v.waiting u hu).1
      omega
    rw [if_neg (by simpa using hne)]
    exact v.current u hu fun x hx => hmax x (List.mem_append_left _ hx)

end Begins

theorem begins (ht : t.task = .refresh) (hn : t.token = q.counter + 1)
    (v : Sequenced before w h q issues) :
    Sequenced before (t :: w) (h ++ [.began t]) (q.begin t.path).2 issues := by
  have hm := refreshes_began ht h
  -- The new token is greater than all before, so that no stage of the history is one of `t`.
  have hnew := v.fresh hn
  have hnone : ∀ x ∈ h, x.ticket ≠ t := fun x hx he => hnew (he ▸ v.known x hx (he ▸ ht))
  have hother : ∀ u ∈ refreshes h, ∀ x ∈ [Stage.began t], x.ticket ≠ u := by
    intro u hu x hx he
    obtain rfl := List.mem_singleton.mp hx
    have he : t = u := he
    exact hnew (he ▸ hu)
  have hcourse : course t (h ++ [.began t]) = [.began t] := by
    rw [course_append, course_of_none hnone, course_of_all (by simp [Stage.ticket])]
    rfl
  have hkept : ∀ u ∈ refreshes h, course u (h ++ [.began t]) = course u h := fun u hu =>
    course_append_of_none (hother u hu) h
  have hs : ∀ p, shown p [Stage.began t] = [] := fun p => rfl
  constructor
  case ordered =>
    rw [hm, List.pairwise_append]
    refine ⟨v.ordered, List.pairwise_singleton _ _, ?_⟩
    intro u hu x hx
    obtain rfl := List.mem_singleton.mp hx
    have := v.counted u hu
    omega
  case counted =>
    intro u hu
    rw [hm, List.mem_append, List.mem_singleton] at hu
    rw [Sequencer.counter_begin]
    rcases hu with hu | rfl
    · have := v.counted u hu
      omega
    · omega
  case newest =>
    intro p k hl u hu
    exact v.newest_begin hn hl (hm ▸ hu)
  case current =>
    intro u hu hmax
    exact v.current_begin hn hu (hm ▸ hmax)
  case distinct => exact List.nodup_cons.mpr ⟨fun hw => hnew (v.waiting t hw).1, v.distinct⟩
  case waiting =>
    intro u hu
    rw [hm]
    rcases List.mem_cons.mp hu with rfl | hu
    · exact ⟨by simp, hcourse⟩
    · obtain ⟨hb, hc⟩ := v.waiting u hu
      exact ⟨List.mem_append_left _ hb, (hkept u hb).trans hc⟩
  case known =>
    intro x hx hr
    rw [hm]
    rcases List.mem_append.mp hx with hx | hx
    · exact List.mem_append_left _ (v.known x hx hr)
    · obtain rfl := List.mem_singleton.mp hx
      simp [Stage.ticket]
  case courses =>
    intro u hu
    rw [hm, List.mem_append, List.mem_singleton] at hu
    rcases hu with hu | rfl
    · rw [hkept u hu]
      exact (v.courses u hu).append (List.mem_cons_of_mem t) (hother u hu)
    · rw [hcourse]
      exact .waiting List.mem_cons_self
  case publishers =>
    intro u ds hx
    exact v.publishers u ds (by simpa using hx)
  case shownInOrder =>
    intro p
    simpa [hs] using v.shownInOrder p
  case onShow =>
    intro p
    simpa [hs] using v.onShow p

/-- A waiting refresh comes to its end with the stages `k`.  The sequencer forgets at most
this refresh. -/
theorem ends (own : ∀ x ∈ k, x.ticket = t) (hr : refreshes k = [])
    (hc : RefreshCourse w (h ++ k) t (.began t :: k)) (hn : q'.counter = q.counter)
    (hl : ∀ p, q'.latest? p = q.latest? p ∨ q.latest? p = some t.token ∧ q'.latest? p = none)
    (hs : ∀ p, (shown p (h ++ k)).Pairwise fun a b => a.1.token < b.1.token)
    (hi : ∀ p, issues'.get p = ((shown p (h ++ k)).getLast?.map (·.2)).getD (before.get p))
    (v : Sequenced before (t :: w) h q issues) : Sequenced before w (h ++ k) q' issues' := by
  obtain ⟨htw, hdistinct⟩ := List.nodup_cons.mp v.distinct
  obtain ⟨ht, hwait⟩ := v.waiting t List.mem_cons_self
  have hm : refreshes (h ++ k) = refreshes h := by simp [hr]
  have hother : ∀ u : Ticket, u ≠ t → ∀ x ∈ k, x.ticket ≠ u := fun u hu x hx he =>
    hu (he.symm.trans (own x hx))
  -- Only the course of `t` goes on; the other refreshes stand where they stood.
  have hkept : ∀ u : Ticket, u ≠ t → course u (h ++ k) = course u h := fun u hu =>
    course_append_of_none (hother u hu) h
  constructor
  case ordered => exact hm ▸ v.ordered
  case counted =>
    rw [hm, hn]
    exact v.counted
  case newest =>
    intro p n hp u hu
    rw [hm] at hu
    rcases hl p with he | ⟨-, he⟩
    · exact v.newest p n (he ▸ hp) u hu
    · simp [he] at hp
  case current =>
    intro u hu hmax
    rw [hm] at hmax
    have hcur := v.current u (List.mem_cons_of_mem t hu) hmax
    rcases hl u.path with he | ⟨he, -⟩
    · rw [he]
      exact hcur
    · -- The entry that goes is that of `t`, and no other request has its token.
      have htok : u.token = t.token := Option.some.inj (hcur.symm.trans he)
      have hut := eq_of_token v.ordered (v.waiting u (List.mem_cons_of_mem t hu)).1 ht htok
      exact absurd (hut ▸ hu) htw
  case distinct => exact hdistinct
  case waiting =>
    intro u hu
    obtain ⟨hb, hw⟩ := v.waiting u (List.mem_cons_of_mem t hu)
    exact ⟨hm ▸ hb, (hkept u fun he => htw (he ▸ hu)).trans hw⟩
  case known =>
    intro x hx hx'
    rw [hm]
    rcases List.mem_append.mp hx with hx | hx
    · exact v.known x hx hx'
    · exact own x hx ▸ ht
  case courses =>
    intro u hu
    rw [hm] at hu
    by_cases hut : u = t
    · subst hut
      rw [course_append, hwait, course_of_all own]
      exact hc
    · rw [hkept u hut]
      exact (v.courses u hu).append (fun hw => (List.mem_cons.mp hw).resolve_left hut)
        (hother u hut)
  case publishers =>
    intro u ds hx
    rcases List.mem_append.mp hx with hx | hx
    · exact v.publishers u ds hx
    · have : u = t := own _ hx
      exact this ▸ (mem_refreshes.mp ht).2
  case shownInOrder => exact hs
  case onShow => exact hi

theorem ends_silently (own : ∀ x ∈ k, x.ticket = t) (hr : refreshes k = [])
    (hc : RefreshCourse w (h ++ k) t (.began t :: k)) (hn : q'.counter = q.counter)
    (hl : ∀ p, q'.latest? p = q.latest? p ∨ q.latest? p = some t.token ∧ q'.latest? p = none)
    (hs : ∀ p, shown p k = []) (v : Sequenced before (t :: w) h q issues) :
    Sequenced before w (h ++ k) q' issues := by
  refine v.ends own hr hc hn hl ?_ ?_
  · intro p
    simpa [hs] using v.shownInOrder p
  · intro p
    simpa [hs] using v.onShow p

/-- The table has the token of a waiting refresh as long as no newer one has begun. -/
theorem isCurrent_iff_newest (v : Sequenced before (t :: w) h q issues) (o : Outcome) :
    q.isCurrent t.path t.token = true ↔ ¬Overtaken (h ++ [.found t o]) t o := by
  have ht := (v.waiting t List.mem_cons_self).1
  rw [Sequencer.isCurrent_iff, overtaken_iff v.ordered ht]
  constructor
  · rintro hl ⟨u, hu, hp, hlt⟩
    have := v.newest t.path t.token hl u hu hp
    omega
  · intro hnew
    refine v.current t List.mem_cons_self fun u hu hp => ?_
    have : ¬t.token < u.token := fun hlt => hnew ⟨u, hu, hp, hlt⟩
    omega

/-- What comes after the outcome of a run in its own course does not overtake it. -/
theorem overtaken_iff_not_current (v : Sequenced before (t :: w) h q issues) {o : Outcome}
    (hk : Stage.found t o ∉ k) :
    Overtaken (h ++ .found t o :: k) t o ↔ q.isCurrent t.path t.token = false := by
  have hcut : h ++ .found t o :: k = (h ++ [.found t o]) ++ k := by simp
  rw [hcut, overtaken_append hk, ← Bool.not_eq_true, v.isCurrent_iff_newest o, Classical.not_not]

/-- What the sequencer remembers after the newest refresh for a path is over. -/
theorem latest?_finish_current (hc : q.isCurrent t.path t.token = true) (p : Path) :
    (q.finish t.path t.token).latest? p = q.latest? p ∨
      q.latest? p = some t.token ∧ (q.finish t.path t.token).latest? p = none := by
  have hl := (q.isCurrent_iff t.path t.token).mp hc
  rw [Sequencer.latest?_finish q hl p]
  by_cases hp : t.path = p
  · exact .inr ⟨hp ▸ hl, by simp [hp]⟩
  · exact .inl (by simp [hp])

theorem stale (o : Outcome) (hc : q.isCurrent t.path t.token = false)
    (v : Sequenced before (t :: w) h q issues) :
    Sequenced before w (h ++ [.found t o, .ended t (.outcome (.stale o.config))]) q issues := by
  refine v.ends_silently ?_ rfl (.stale o ?_) rfl (fun _ => .inl rfl) (fun _ => rfl)
  · simp [Stage.ticket]
  · exact (v.overtaken_iff_not_current (by simp)).mpr hc

theorem unpublished (o : Outcome) (hc : q.isCurrent t.path t.token = true)
    (hs : Session.isPublished o = false) (v : Sequenced before (t :: w) h q issues) :
    Sequenced before w (h ++ [.found t o, .ended t (.outcome o)]) (q.finish t.path t.token)
      issues := by
  refine v.ends_silently ?_ rfl (.unpublished o ?_ hs) (q.counter_finish t.path t.token)
    (latest?_finish_current hc) (fun _ => rfl)
  · simp [Stage.ticket]
  · rw [v.overtaken_iff_not_current (by simp), hc]
    simp

theorem shown_older (hc : q.isCurrent t.path t.token = true)
    (v : Sequenced before (t :: w) h q issues) {a : Ticket × List Diagnostic}
    (ha : a ∈ shown t.path h) : a.1.token < t.token := by
  obtain ⟨hp, hpath⟩ := mem_shown.mp ha
  obtain ⟨ht, hwait⟩ := v.waiting t List.mem_cons_self
  have hr : a.1 ∈ refreshes h := v.known _ hp (v.publishers _ _ hp)
  have hle := v.newest _ _ ((q.isCurrent_iff _ _).mp hc) a.1 hr hpath
  have hne : a.1.token ≠ t.token := fun he => by
    have hat := eq_of_token v.ordered hr ht he
    have hm : Stage.published a.1 a.2 ∈ course t h :=
      List.mem_filter.mpr ⟨hp, decide_eq_true hat⟩
    simp [hwait] at hm
  omega

theorem published (o : Outcome) (hc : q.isCurrent t.path t.token = true)
    (hs : Session.isPublished o = true) (v : Sequenced before (t :: w) h q issues) :
    Sequenced before w
      (h ++ [.found t o, .published t o.diagnostics, .ended t (.outcome o)])
      (q.finish t.path t.token) (issues.set t.path o.diagnostics) := by
  have hshown : ∀ p, shown p
      (h ++ [.found t o, .published t o.diagnostics, .ended t (.outcome o)]) =
        shown p h ++ if t.path = p then [(t, o.diagnostics)] else [] := by
    intro p
    rw [shown_append]
    by_cases hp : t.path = p <;> simp [shown, List.filterMap_cons, Stage.shown?, hp]
  refine v.ends ?_ rfl (.published o ?_ hs) (q.counter_finish t.path t.token)
    (latest?_finish_current hc) ?_ ?_
  · simp [Stage.ticket]
  · rw [v.overtaken_iff_not_current (by simp), hc]
    simp
  · intro p
    rw [hshown p]
    by_cases hp : t.path = p
    · subst hp
      rw [if_pos rfl, List.pairwise_append]
      refine ⟨v.shownInOrder _, List.pairwise_singleton _ _, fun a ha b hb => ?_⟩
      rw [List.mem_singleton.mp hb]
      exact v.shown_older hc ha
    · simpa [hp] using v.shownInOrder p
  · intro p
    rw [hshown p, IssueStore.get_set]
    by_cases hp : t.path = p
    · simp [hp]
    · simpa [hp] using v.onShow p

end Sequenced

/-- Whether an event leaves the sink and what is on show to the requests. -/
def Event.leavesSink : Event → Bool
  | .sink _ | .issues _ _ => false
  | _ => true

namespace Session

theorem finish_stale (s : Session) {t : Ticket} (delay : Float) (o : Outcome)
    (ht : t.task = .refresh) (hc : s.sequencer.isCurrent t.path t.token = false) :
    s.Adds (s.finish t delay o) [.found t o, .ended t (.outcome (.stale o.config))] := by
  have hcur : (s.mark (.found t o)).sequencer.isCurrent t.path t.token = false := hc
  simp only [finish, ht, publish, hcur, Bool.false_eq_true, if_false]
  exact (((Adds.refl s).mark _).note t.name (staleCompletion t o).effects).close t _

/-- A refresh that no newer one has overtaken and that has nothing to publish ends so. -/
theorem finish_unpublished (s : Session) {t : Ticket} (delay : Float) (o : Outcome)
    (ht : t.task = .refresh) (hc : s.sequencer.isCurrent t.path t.token = true)
    (hs : isPublished o = false) :
    Adds { s with sequencer := s.sequencer.finish t.path t.token } (s.finish t delay o)
      [.found t o, .ended t (.outcome o)] := by
  have hcur : (s.mark (.found t o)).sequencer.isCurrent t.path t.token = true := hc
  simp only [finish, ht, publish, hcur, if_true, publishCurrent, hs]
  exact ((Adds.refl _).mark _).close t _

theorem publishCurrent_published (s : Session) (t : Ticket) {o : Outcome}
    (hs : isPublished o = true) (hf : s.sinkFailure = none) :
    s.publishCurrent t o = (s.exhibit t o.diagnostics).close t (.outcome o) := by
  simp only [publishCurrent, hs, hf]

theorem finish_published (s : Session) {t : Ticket} (delay : Float) (o : Outcome)
    (ht : t.task = .refresh) (hc : s.sequencer.isCurrent t.path t.token = true)
    (hs : isPublished o = true) (hf : s.sinkFailure = none) :
    let issues := s.issues.set t.path o.diagnostics
    Adds { s with sequencer := s.sequencer.finish t.path t.token, issues } (s.finish t delay o)
      [.found t o, .published t o.diagnostics, .ended t (.outcome o)] := by
  have hcur : (s.mark (.found t o)).sequencer.isCurrent t.path t.token = true := hc
  have hend : s.finish t delay o =
      ({ s.mark (.found t o) with
        sequencer := s.sequencer.finish t.path t.token }.exhibit t o.diagnostics).close t
          (.outcome o) := by
    simp only [finish, ht, publish, hcur, if_true]
    exact publishCurrent_published _ t hs hf
  rw [hend]
  exact (((Adds.refl _).mark _).mark _).close t _

/-- What holds of a session while the requests `ts` wait and the sink takes everything. -/
structure InSequence (before : IssueStore) (ts : List Ticket) (s : Session) : Prop where
  sink : s.sinkFailure = none
  sequenced : Sequenced before (ts.filter (·.task = .refresh)) s.stages s.sequencer s.issues

namespace InSequence

variable {before : IssueStore} {ts : List Ticket} {s s' : Session} {t : Ticket}

/-- A session in which the sequencer and the issues are as they are when `t` is over. -/
theorem of_adds {s₀ : Session} {k : List Stage} (ha : s₀.Adds s' k)
    (sink : s₀.sinkFailure = none)
    (v : Sequenced before (ts.filter (·.task = .refresh)) (s₀.stages ++ k) s₀.sequencer s₀.issues) :
    s'.InSequence before ts where
  sink := ha.sinkFailure.trans sink
  sequenced := by
    rw [ha.stages, ha.sequencer, ha.issues]
    exact v

theorem perm {ts' : List Ticket} (h : ts.Perm ts') (v : s.InSequence before ts) :
    s.InSequence before ts' :=
  ⟨v.sink, v.sequenced.perm (h.filter _)⟩

theorem others {k : List Stage} (h : s.Adds s' k)
    (hk : ∀ x ∈ k, x.ticket.task ≠ .refresh ∧ ∀ p, x.shown? p = none)
    (v : s.InSequence before ts) : s'.InSequence before ts :=
  of_adds h v.sink (v.sequenced.others hk)

theorem quietly (h : s.Adds s' []) (v : s.InSequence before ts) : s'.InSequence before ts :=
  v.others h (by simp)

theorem note (who : Text) (es : List Effect) (v : s.InSequence before ts) :
    (s.note who es).InSequence before ts :=
  v.quietly ((Adds.refl s).note who es)

theorem refreshing (ht : t.task = .refresh) (v : s.InSequence before (t :: ts)) :
    Sequenced before (t :: ts.filter (·.task = .refresh)) s.stages s.sequencer s.issues := by
  simpa [List.filter_cons, ht] using v.sequenced

theorem rest (ht : t.task ≠ .refresh) (v : s.InSequence before (t :: ts)) :
    s.InSequence before ts :=
  ⟨v.sink, by simpa [List.filter_cons, ht] using v.sequenced⟩

theorem breaks {c : Completion} (hc : c = .cancelled ∨ ∃ f, c = .failed f)
    (v : s.InSequence before (t :: ts)) : (s.close t c).InSequence before ts := by
  have ha := (Adds.refl s).close t c
  by_cases ht : t.task = .refresh
  · refine of_adds ha v.sink ?_
    refine (v.refreshing ht).ends_silently ?_ rfl ?_ rfl (fun _ => .inl rfl) (fun _ => rfl)
    · simp [Stage.ticket]
    · rcases hc with rfl | ⟨f, rfl⟩
      · exact .cancelled
      · exact .failed f
  · exact (v.rest ht).others ha (by simp [Stage.ticket, Stage.shown?, ht])

theorem finish (delay : Float) (o : Outcome) (v : s.InSequence before (t :: ts)) :
    (s.finish t delay o).InSequence before ts := by
  by_cases ht : t.task = .refresh
  · have w := v.refreshing ht
    cases hc : s.sequencer.isCurrent t.path t.token with
    | false => exact of_adds (finish_stale s delay o ht hc) v.sink (w.stale o hc)
    | true =>
      cases hs : isPublished o with
      | false => exact of_adds (finish_unpublished s delay o ht hc hs) v.sink (w.unpublished o hc hs)
      | true =>
        exact of_adds (finish_published s delay o ht hc hs v.sink) v.sink (w.published o hc hs)
  · obtain ⟨c, ha⟩ := (Adds.refl s).finish delay o ht
    exact (v.rest ht).others ha (by simp [Stage.ticket, Stage.shown?, ht])

theorem admits (name : Text) (task : Task) (document : Text) (path : Path)
    (v : s.InSequence before ts) :
    let t := s.ticketFor name task document path
    (s.admitted t).InSequence before (t :: ts) := by
  intro t
  have ha : Adds { s with sequencer := (s.tokenFor task path).2, requests := s.requests + 1 }
      (s.admitted t) [.began t] := (Adds.refl _).mark _
  refine of_adds ha v.sink ?_
  by_cases ht : task = .refresh
  · have hseq : (s.tokenFor task path).2 = (s.sequencer.begin path).2 := by
      rw [tokenFor, if_pos ht]
    have htoken : t.token = s.sequencer.counter + 1 := by
      simp [t, ticketFor, tokenFor, ht]
    have hf : (t :: ts).filter (·.task = .refresh) = t :: ts.filter (·.task = .refresh) := by
      simp [t, ticketFor, ht]
    rw [hf, hseq]
    exact v.sequenced.begins ht htoken
  · have hseq : (s.tokenFor task path).2 = s.sequencer := by
      rw [tokenFor, if_neg ht]
    have hf : (t :: ts).filter (·.task = .refresh) = ts.filter (·.task = .refresh) := by
      simp [t, ticketFor, ht]
    rw [hf, hseq]
    refine v.sequenced.others ?_
    simpa [Stage.ticket, Stage.shown?, t, ticketFor] using ht

theorem enters (child : Child)
    (x : Except Failure (Progress (LinterSettings × Runner.Talk) Outcome))
    (v : s.InSequence before (t :: ts)) :
    ∃ qs, (s.enter t child x).pending = s.pending ++ qs ∧
      (s.enter t child x).InSequence before (ts ++ qs.map (·.ticket)) := by
  unfold enter
  split
  · rename_i f
    exact ⟨[], by simp, by simpa using v.breaks (.inr ⟨f, rfl⟩)⟩
  · rename_i o
    exact ⟨[], by simp, by simpa using v.finish 0 o⟩
  · refine ⟨_, rfl, ?_⟩
    have hp : (t :: ts).Perm (ts ++ [t]) := by
      simpa using (List.perm_append_comm : ([t] ++ ts).Perm (ts ++ [t]))
    exact (v.perm hp).quietly ((Adds.refl s).quietly rfl rfl rfl rfl)

end InSequence

theorem adds_saveNow (s : Session) (d : DeferredSave) : s.Adds (s.saveNow d) [] := by
  unfold saveNow
  split
  · exact Adds.refl s
  · dsimp only
    split
    · refine Adds.note ?_ d.who _
      exact (Adds.refl s).quietly rfl rfl rfl rfl
    · refine Adds.note ?_ d.who _
      exact (Adds.refl s).quietly rfl rfl rfl rfl
    · exact (Adds.refl s).quietly rfl rfl rfl rfl

/-- What the host does by itself concerns neither the requests nor what is on show. -/
theorem adds_handle (s : Session) {e : Event} (he : e.leavesSink = true) (ho : e.ofHost = true) :
    s.Adds (s.handle e) [] := by
  have hs := Adds.refl s
  cases e with
  | sink | issues => simp [Event.leavesSink] at he
  | request | answer | died | cancel | advance | saveLater => simp [Event.ofHost] at ho
  | settings | files => exact hs.quietly rfl rfl rfl rfl
  | edit document text =>
    simp only [Session.handle]
    split
    · exact hs.quietly rfl rfl rfl rfl
    · exact hs
  | replace document text =>
    simp only [Session.handle]
    split
    · split
      · exact hs.quietly rfl rfl rfl rfl
      · exact hs.complete _ _
    · exact hs
  | save document =>
    simp only [Session.handle]
    split
    · split
      · exact hs.quietly rfl rfl rfl rfl
      · refine Adds.complete ?_ _ _
        exact hs.quietly rfl rfl rfl rfl
    · exact hs
  | applyFix document fix =>
    simp only [Session.handle]
    split
    · split
      · refine Adds.complete (Adds.note ?_ _ _) _ _
        exact hs.quietly rfl rfl rfl rfl
      · exact hs.complete _ _
      · exact hs.complete _ _
    · exact hs

theorem kept_inSequence (before : IssueStore) :
    Kept (fun e => e.leavesSink = true) fun ps s => s.InSequence before (ps.map (·.ticket)) where
  perm h v := v.perm (h.map _)
  aside qs ds clock v := ⟨v.sink, v.sequenced⟩
  launch := by
    intro ps s document d name task child hd v
    have va := v.admits name task document d.path
    obtain ⟨qs, hqs, hv⟩ := (va.note name _).enters child _
    refine ⟨qs, hqs, ?_⟩
    rw [List.map_append]
    exact hv
  kill w v := v.note _ _
  goOn := by
    intro ps s p e v
    simp only [Session.goOn]
    split
    · exact (v.note p.ticket.name _).breaks (.inr ⟨_, rfl⟩)
    · exact (v.note p.ticket.name _).finish _ _
  giveUp v := (v.note _ _).breaks (.inl rfl)
  learn f hf v := by
    rw [tickets_map hf]
    exact v
  abandon v := v.breaks (.inl rfl)
  saveNow d v := v.quietly (adds_saveNow _ d)
  host he ho v := v.quietly (adds_handle _ he ho)

/-- An editor in which no request has been made yet, with some issues on show. -/
def showing (m : Machine) (handler : Handler) (source : SettingsSource)
    (documents : List (Text × OpenDocument)) (before : IssueStore) : Session :=
  { Session.initial m handler source documents with issues := before }

/-- In every run of a session in which nothing but refresh requests touches what is on show,
each refresh takes one of its six courses, and one that waits cannot go on yet.  Only refresh
requests publish, those that have published for a path did so in the order in which they began,
and the last of them is on show. -/
theorem refresh_newest_wins (m : Machine) (handler : Handler) (source : SettingsSource)
    (documents : List (Text × OpenDocument)) (before : IssueStore) (events : List Event)
    (he : ∀ e ∈ events, e.leavesSink = true) :
    let s := (showing m handler source documents before).run events
    (∀ t ∈ refreshes s.stages,
        RefreshCourse (s.pending.map (·.ticket)) s.stages t (course t s.stages)) ∧
      s.Rests ∧
      (∀ t ds, .published t ds ∈ s.stages → t ∈ refreshes s.stages) ∧
      (∀ p, (shown p s.stages).Pairwise fun a b => Precedes s.stages a.1 b.1) ∧
      ∀ p, s.issues.get p = ((shown p s.stages).getLast?.map (·.2)).getD (before.get p) := by
  intro s
  let s₀ := showing m handler source documents before
  have first : InSequence before (s₀.pending.map (·.ticket)) s₀ := ⟨rfl, .empty before⟩
  have v := ((kept_inSequence before).run he first).sequenced
  have hmem : ∀ t ds, .published t ds ∈ s.stages → t ∈ refreshes s.stages := fun t ds hp =>
    v.known _ hp (v.publishers t ds hp)
  have hrests : s₀.Rests := fun p hp => by cases hp
  refine ⟨fun t ht => ?_, rests_run hrests events, hmem, fun p => ?_, v.onShow⟩
  · exact (v.courses t ht).mono fun hw => (List.mem_filter.mp hw).1
  · refine (v.shownInOrder p).imp_of_mem fun ha hb hlt => ?_
    exact (precedes_iff v.ordered (hmem _ _ (mem_shown.mp ha).1) (hmem _ _ (mem_shown.mp hb).1)).mpr
      hlt

/-- Of two refresh requests for a path the older one is answered last: what the newer one found
is on show, and the older one is stale. -/
theorem refresh_newest_wins_overtaken :
    let path : Path := ⟨.slash, ["a"]⟩
    let machine : Machine :=
      ⟨.ofNodes [([], .directory), (["eslint.config.js"], .file [] false)], ⟨.slash, []⟩, [],
        .alone "/root"⟩
    let documents : List (Text × OpenDocument) := [([], .buffer ⟨path, [], none, none, 0, 0⟩)]
    let before : IssueStore := ⟨[(path, [⟨[], 1, 1, .error, none, none, none⟩])]⟩
    -- The report is `[{"messages":[{"message":"b","line":1,"column":1}]}]`, and an empty list.
    let found : ProcessOutput := ⟨some 1, Utf8.encodeChars
      "[\x7b\"messages\":[\x7b\"message\":\"b\",\"line\":1,\"column\":1\x7d]\x7d]".toList, []⟩
    let nothing : ProcessOutput := ⟨some 0, [0x5b, 0x5d], []⟩
    let older : Child := ⟨none, .output nothing, .onRequest, false, false⟩
    let newer : Child := ⟨none, .output found, .onRequest, false, false⟩
    let answers (child : Child) : Child := { child with answer := .after 0, exited := true }
    let events : List Event := [.request "a" .refresh [] older, .request "b" .refresh [] newer,
      .answer "b" (answers newer), .answer "a" (answers older)]
    let s := (showing machine .none (.given (.ok .defaults)) documents before).run events
    (∀ e ∈ events, e.leavesSink = true) ∧
      (∀ t ∈ refreshes s.stages,
        RefreshCourse (s.pending.map (·.ticket)) s.stages t (course t s.stages)) ∧
      s.pending.length = 0 ∧
      (refreshes s.stages).map (fun t => (t.name, (course t s.stages).length)) =
        [(Text.ofString "a", 3), (Text.ofString "b", 4)] ∧
      s.issues.get path = [⟨"b", 1, 1, .info, none, none, none⟩] := by
  intro path machine documents before found nothing older newer answers events s
  have he : ∀ e ∈ events, e.leavesSink = true := by simp [events, Event.leavesSink]
  obtain ⟨courses, -, -, -, onShow⟩ := refresh_newest_wins machine .none (.given (.ok .defaults))
    documents before events he
  have hrun : s.pending.length = 0 ∧
      (refreshes s.stages).map (fun t => (t.name, (course t s.stages).length)) =
        [(Text.ofString "a", 3), (Text.ofString "b", 4)] ∧
      (shown path s.stages).getLast?.map (·.2) = some [⟨"b", 1, 1, .info, none, none, none⟩] := by
    decide +kernel
  obtain ⟨hpending, hcourses, hshown⟩ := hrun
  refine ⟨he, courses, hpending, hcourses, ?_⟩
  rw [onShow path, hshown]
  rfl

end Session

end EditorLint
