import EditorLint.Proofs.Containment
import EditorLint.Proofs.Course
import EditorLint.Proofs.Stages

/-!
# The life of a request

Every request of a session begins once and ends at most once (`Life`), and while it has not
ended it waits.  It ends as it should, is cancelled, or fails with a failure that may fail it
(`Handler.Lets`).

Requests are told apart by their identifiers, of which no two requests have the same one.
The invariant is `Living`, which every step of a session keeps (`kept_living`).
-/

namespace EditorLint

/-! ## Identifiers -/

theorem RequestId.ofNumber_injective {n k : Nat} (h : ofNumber n = ofNumber k) : n = k := by
  have value (n : Nat) : ∃ zeros, (ofNumber n).chars? =
      some (List.replicate zeros '0' ++ Nat.toDigits 10 n) := by
    refine ⟨12 - (Text.ofNat n).length, ?_⟩
    have hchars : ofNumber n = Text.ofChars
        (List.replicate (12 - (Text.ofNat n).length) '0' ++ Nat.toDigits 10 n) := by
      simp [ofNumber, Text.padded, Text.ofNat, Text.ofChars]
    rw [hchars, Text.chars?_ofChars]
  have read (zeros : Nat) (n : Nat) :
      Nat.ofDigitChars 10 (List.replicate zeros '0' ++ Nat.toDigits 10 n) 0 = n := by
    induction zeros with
    | zero => simp
    | succ zeros ih => simpa [List.replicate_succ, Nat.ofDigitChars] using ih
  obtain ⟨i, hi⟩ := value n
  obtain ⟨j, hj⟩ := value k
  rw [h] at hi
  have hsame := Option.some.inj (hi.symm.trans hj)
  calc
    n = Nat.ofDigitChars 10 (List.replicate i '0' ++ Nat.toDigits 10 n) 0 := (read i n).symm
    _ = Nat.ofDigitChars 10 (List.replicate j '0' ++ Nat.toDigits 10 k) 0 := by rw [hsame]
    _ = k := read j k

/-! ## Courses -/

/-- Whether a request that is asked for something ends properly so. -/
def Completion.isProper : Task → Completion → Bool
  | .diagnose, .outcome _ | .refresh, .outcome _ => true
  | .provideIssues, .issues _ => true
  | .fix _, .edited _ | .willSave, .edited _ => true
  | _, _ => false

/-- What may fail a request: the host, or what the loading of settings raises besides
faults. -/
def Handler.Lets (h : Handler) (f : Failure) : Prop := h.Raises f ∨ f.isFault = false

/-- How a request may end whose run came to an outcome: properly, or with a failure of some
kind. -/
def Returns (P : Failure → Prop) (task : Task) (c : Completion) : Prop :=
  c.isProper task = true ∨ ∃ f, c = .failed f ∧ P f

/-- How a request may end before its run came to an outcome. -/
def Breaks (P : Failure → Prop) (c : Completion) : Prop :=
  c = .cancelled ∨ ∃ f, c = .failed f ∧ P f

/-- The stages with which a request ends that fails only with failures of some kind. -/
inductive Ending (P : Failure → Prop) (t : Ticket) : List Stage → Prop where
  | broken (c : Completion) (hc : Breaks P c) : Ending P t [.ended t c]
  | ended (o : Outcome) (c : Completion) (hc : Returns P t.task c) :
    Ending P t [.found t o, .ended t c]
  | published (o : Outcome) (ds : List Diagnostic) (c : Completion) (hc : Returns P t.task c) :
    Ending P t [.found t o, .published t ds, .ended t c]

/-- The stages that a request has come to once it has begun: no other one, or those of its
end. -/
inductive Life (P : Failure → Prop) (t : Ticket) : List Stage → Prop where
  | waits : Life P t [.began t]
  | ended (k : List Stage) (hk : Ending P t k) : Life P t (.began t :: k)

namespace Ending

variable {P Q : Failure → Prop} {t : Ticket} {k : List Stage}

theorem mono (hPQ : ∀ f, P f → Q f) (hk : Ending P t k) : Ending Q t k := by
  have failing {c : Completion} : (∃ f, c = .failed f ∧ P f) → ∃ f, c = .failed f ∧ Q f :=
    fun ⟨f, hc, hf⟩ => ⟨f, hc, hPQ f hf⟩
  cases hk with
  | broken c hc => exact .broken c (hc.imp_right failing)
  | ended o c hc => exact .ended o c (hc.imp_right failing)
  | published o ds c hc => exact .published o ds c (hc.imp_right failing)

theorem own (hk : Ending P t k) : ∀ x ∈ k, x.ticket = t := by
  cases hk <;> simp [Stage.ticket]

theorem ends (hk : Ending P t k) : ∃ c, Stage.ended t c ∈ k := by
  cases hk <;> exact ⟨_, by simp; rfl⟩

theorem completion (hk : Ending P t k) {u : Ticket} {c : Completion} (hc : Stage.ended u c ∈ k) :
    u = t ∧ (c.isProper t.task = true ∨ c = .cancelled ∨ ∃ f, c = .failed f ∧ P f) := by
  cases hk with
  | broken c' hc' =>
    simp only [List.mem_singleton, Stage.ended.injEq] at hc
    obtain ⟨rfl, rfl⟩ := hc
    exact ⟨rfl, .inr hc'⟩
  | ended o c' hc' =>
    simp only [List.mem_cons, reduceCtorEq, Stage.ended.injEq, List.not_mem_nil, or_false,
      false_or] at hc
    obtain ⟨rfl, rfl⟩ := hc
    exact ⟨rfl, hc'.imp_right .inr⟩
  | published o ds c' hc' =>
    simp only [List.mem_cons, reduceCtorEq, Stage.ended.injEq, List.not_mem_nil, or_false,
      false_or] at hc
    obtain ⟨rfl, rfl⟩ := hc
    exact ⟨rfl, hc'.imp_right .inr⟩

theorem failed (hk : Ending P t k) {u : Ticket} {f : Failure}
    (hf : Stage.ended u (.failed f) ∈ k) : P f := by
  rcases (hk.completion hf).2 with hproper | hcancelled | ⟨f', he, hP⟩
  · cases htask : t.task <;> simp [htask, Completion.isProper] at hproper
  · cases hcancelled
  · cases he
    exact hP

end Ending

theorem Life.completion {P : Failure → Prop} {t : Ticket} {l : List Stage} (hl : Life P t l)
    {c : Completion} (hc : Stage.ended t c ∈ l) :
    c.isProper t.task = true ∨ c = .cancelled ∨ ∃ f, c = .failed f ∧ P f := by
  cases hl with
  | waits => simp at hc
  | ended k hk =>
    have hend : Stage.ended t c ∈ k := by simpa using hc
    exact (hk.completion hend).2

/-! ## What holds between two steps -/

/-- What the stages of the requests have to do with the requests `w` that wait, where `n`
requests have been made. -/
structure Living (P : Failure → Prop) (w : List Ticket) (n : Nat) (st : List Stage) : Prop where
  numbered : ∀ x ∈ st, ∃ k ≤ n, x.ticket.id = RequestId.ofNumber k
  known : ∀ x ∈ st, .began x.ticket ∈ st
  distinct : w.Nodup
  waiting : ∀ t ∈ w, course t st = [.began t]
  lives : ∀ t, .began t ∈ st → Life P t (course t st)
  accounted : ∀ t, .began t ∈ st → t ∈ w ∨ ∃ c, .ended t c ∈ st

namespace Living

variable {P : Failure → Prop} {w w' : List Ticket} {n : Nat} {st k : List Stage} {t : Ticket}

theorem empty (P : Failure → Prop) (n : Nat) : Living P [] n [] where
  numbered := by simp
  known := by simp
  distinct := List.nodup_nil
  waiting := by simp
  lives := by simp
  accounted := by simp

theorem perm (hw : w.Perm w') (v : Living P w n st) : Living P w' n st :=
  { v with
    distinct := hw.nodup_iff.mp v.distinct
    waiting := fun t ht => v.waiting t (hw.mem_iff.mpr ht)
    accounted := fun t ht => by
      rw [← hw.mem_iff]
      exact v.accounted t ht }

theorem began_of_waiting (v : Living P w n st) (ht : t ∈ w) : Stage.began t ∈ st := by
  have hmem : Stage.began t ∈ course t st := by
    rw [v.waiting t ht]
    exact List.mem_singleton_self _
  exact (List.mem_filter.mp hmem).1

theorem begins (hid : t.id = RequestId.ofNumber (n + 1)) (v : Living P w n st) :
    Living P (t :: w) (n + 1) (st ++ [.began t]) := by
  -- Identifiers are numbers in the order of the requests, so no stage can be one of this request.
  have hfresh : ∀ x ∈ st, x.ticket ≠ t := by
    intro x hx he
    obtain ⟨k, hk, hxid⟩ := v.numbered x hx
    have hsame : k = n + 1 := RequestId.ofNumber_injective (by rw [← hxid, he, hid])
    omega
  have hnew : t ∉ w := fun hw => hfresh _ (v.began_of_waiting hw) rfl
  have hcourse : course t (st ++ [.began t]) = [.began t] := by
    rw [course_append, course_of_none hfresh, course_of_all (by simp [Stage.ticket])]
    rfl
  have hkept : ∀ u, u ≠ t → course u (st ++ [.began t]) = course u st := by
    intro u hu
    refine course_append_of_none ?_ st
    simpa [Stage.ticket] using hu.symm
  have hnot : ∀ u ∈ w, u ≠ t := fun u hu he => hnew (he ▸ hu)
  constructor
  case numbered =>
    intro x hx
    rcases List.mem_append.mp hx with hx | hx
    · obtain ⟨k, hk, hxid⟩ := v.numbered x hx
      exact ⟨k, by omega, hxid⟩
    · rw [List.mem_singleton.mp hx]
      exact ⟨n + 1, by omega, hid⟩
  case known =>
    intro x hx
    rcases List.mem_append.mp hx with hx | hx
    · exact List.mem_append_left _ (v.known x hx)
    · rw [List.mem_singleton.mp hx]
      simp [Stage.ticket]
  case distinct => exact List.nodup_cons.mpr ⟨hnew, v.distinct⟩
  case waiting =>
    intro u hu
    rcases List.mem_cons.mp hu with rfl | hu
    · exact hcourse
    · rw [hkept u (hnot u hu)]
      exact v.waiting u hu
  case lives =>
    intro u hu
    by_cases hut : u = t
    · rw [hut, hcourse]
      exact .waits
    · rw [hkept u hut]
      have hu : .began u ∈ st := by simpa [hut] using hu
      exact v.lives u hu
  -- One that is accounted for stays so, since nothing is taken away from the waiting or the stages.
  case accounted =>
    intro u hu
    by_cases hut : u = t
    · exact .inl (hut ▸ List.mem_cons_self)
    · have hu : .began u ∈ st := by simpa [hut] using hu
      rcases v.accounted u hu with hw | ⟨c, hc⟩
      · exact .inl (List.mem_cons_of_mem t hw)
      · exact .inr ⟨c, List.mem_append_left _ hc⟩

theorem ends (hk : Ending P t k) (v : Living P (t :: w) n st) : Living P w n (st ++ k) := by
  obtain ⟨htw, hdistinct⟩ := List.nodup_cons.mp v.distinct
  have hbegan := v.began_of_waiting (t := t) List.mem_cons_self
  have hcourse : course t (st ++ k) = .began t :: k := by
    rw [course_append, v.waiting t List.mem_cons_self, course_of_all hk.own]
    rfl
  -- All the new stages are those of the request that ends.
  have hkept : ∀ u, u ≠ t → course u (st ++ k) = course u st := by
    intro u hu
    refine course_append_of_none (fun x hx he => hu ?_) st
    rw [← he, hk.own x hx]
  have hold : ∀ u, .began u ∈ st ++ k → .began u ∈ st := by
    intro u hu
    rcases List.mem_append.mp hu with hu | hu
    · exact hu
    · have hut : u = t := hk.own _ hu
      exact hut ▸ hbegan
  constructor
  case numbered =>
    intro x hx
    rcases List.mem_append.mp hx with hx | hx
    · exact v.numbered x hx
    · rw [hk.own x hx]
      exact v.numbered _ hbegan
  case known =>
    intro x hx
    rcases List.mem_append.mp hx with hx | hx
    · exact List.mem_append_left _ (v.known x hx)
    · rw [hk.own x hx]
      exact List.mem_append_left _ hbegan
  case distinct => exact hdistinct
  case waiting =>
    intro u hu
    have hut : u ≠ t := fun he => htw (he ▸ hu)
    rw [hkept u hut]
    exact v.waiting u (List.mem_cons_of_mem t hu)
  case lives =>
    intro u hu
    by_cases hut : u = t
    · rw [hut, hcourse]
      exact .ended k hk
    · rw [hkept u hut]
      exact v.lives u (hold u hu)
  -- The request that no longer waits has ended instead.
  case accounted =>
    intro u hu
    rcases v.accounted u (hold u hu) with hw | ⟨c, hc⟩
    · rcases List.mem_cons.mp hw with rfl | hw
      · obtain ⟨c, hc⟩ := hk.ends
        exact .inr ⟨c, List.mem_append_right _ hc⟩
      · exact .inl hw
    · exact .inr ⟨c, List.mem_append_left _ hc⟩

end Living

/-! ## The steps of a session -/

namespace Session

theorem outcome_of_unpublished {h : Handler} {t : Ticket} {o : Outcome} {f : Failure}
    {c : Completion} (hc : (unpublishedCompletion h t o f).result = .ok c) :
    ∃ o', c = .outcome o' := by
  obtain ⟨_, -, hc⟩ := Action.result_bind hc
  obtain ⟨_, -, hc⟩ := Action.result_bind hc
  cases hc
  exact ⟨_, rfl⟩

theorem raises_of_unpublished {h : Handler} {t : Ticket} {o : Outcome} {f e : Failure}
    (he : (unpublishedCompletion h t o f).result = .error e) : h.Raises e := by
  rcases Action.error_bind he with he | ⟨_, -, he⟩
  · cases he
  · rcases Action.error_bind he with he | ⟨_, -, he⟩
    · exact Handler.raises_of_report he
    · cases he

@[simp] theorem stages_admitted (s : Session) (t : Ticket) :
    (s.admitted t).stages = s.stages ++ [.began t] := by
  simp [admitted, Session.mark, Session.stages, Entry.stage?]

/-- A session goes on with the stages `k`, with the same handler and machine, and without
a new request. -/
structure Moves (s s' : Session) (k : List Stage) : Prop where
  stages : s'.stages = s.stages ++ k
  handler : s'.handler = s.handler
  machine : s'.machine = s.machine
  requests : s'.requests = s.requests

namespace Moves

variable {s s' s'' : Session} {k l : List Stage} {t : Ticket}

theorem trans (h : s.Moves s' k) (h' : s'.Moves s'' l) : s.Moves s'' (k ++ l) where
  stages := by rw [h'.stages, h.stages, List.append_assoc]
  handler := h'.handler.trans h.handler
  machine := h'.machine.trans h.machine
  requests := h'.requests.trans h.requests

theorem refl (s : Session) : s.Moves s [] := ⟨by simp, rfl, rfl, rfl⟩

theorem note (h : s.Moves s' k) (who : Text) (es : List Effect) : s.Moves (s'.note who es) k :=
  ⟨(stages_note s' who es).trans h.stages, h.handler, h.machine, h.requests⟩

theorem mark (h : s.Moves s' k) (x : Stage) : s.Moves (s'.mark x) (k ++ [x]) :=
  h.trans ⟨by simp, rfl, rfl, rfl⟩

theorem close (h : s.Moves s' k) (t : Ticket) (c : Completion) :
    s.Moves (s'.close t c) (k ++ [.ended t c]) :=
  h.trans ⟨by simp, rfl, rfl, rfl⟩

/-- A request ends with an action that fails only because of the host. -/
theorem conclude (h : s.Moves s' k) {a : Action Completion}
    (hok : ∀ c, a.result = .ok c → c.isProper t.task = true)
    (herror : ∀ f, a.result = .error f → s.handler.Raises f) :
    ∃ c, Returns s.handler.Raises t.task c ∧ s.Moves (s'.conclude t a) (k ++ [.ended t c]) := by
  have hn := h.note t.name a.effects
  unfold Session.conclude
  split
  · rename_i c hc
    exact ⟨c, .inl (hok c hc), hn.close t c⟩
  · rename_i f hf
    exact ⟨.failed f, .inr ⟨f, rfl, herror f hf⟩, hn.close t _⟩

/-- A refresh that no newer one has overtaken ends, perhaps after it has published. -/
theorem publishCurrent (h : s.Moves s' k) (ht : t.task = .refresh) (o : Outcome) :
    ∃ l c, (l = [] ∨ ∃ ds, l = [Stage.published t ds]) ∧ Returns s.handler.Raises t.task c ∧
      s.Moves (s'.publishCurrent t o) (k ++ l ++ [.ended t c]) := by
  have hproper (o : Outcome) : (Completion.outcome o).isProper t.task = true := by rw [ht]; rfl
  unfold Session.publishCurrent
  split
  · have hset : s.Moves { s' with issues := s'.issues.set t.path o.diagnostics } k :=
      ⟨h.stages, h.handler, h.machine, h.requests⟩
    have hshown : s.Moves (s'.exhibit t o.diagnostics) (k ++ [.published t o.diagnostics]) :=
      hset.mark _
    exact ⟨[.published t o.diagnostics], .outcome o, .inr ⟨_, rfl⟩, .inl (hproper o),
      hshown.close t _⟩
  · rename_i f _ _
    have hok : ∀ c, (unpublishedCompletion s'.handler t o f).result = .ok c →
        c.isProper t.task = true := by
      intro c hc
      obtain ⟨o', rfl⟩ := outcome_of_unpublished hc
      exact hproper o'
    have herror : ∀ e, (unpublishedCompletion s'.handler t o f).result = .error e →
        s.handler.Raises e := by
      intro e he
      rw [← h.handler]
      exact raises_of_unpublished he
    obtain ⟨c, hc, hm⟩ := h.conclude hok herror
    exact ⟨[], c, .inl rfl, hc, by simpa using hm⟩
  · exact ⟨[], .outcome o, .inl rfl, .inl (hproper o), by simpa using h.close t (.outcome o)⟩

theorem publish (h : s.Moves s' k) (ht : t.task = .refresh) (o : Outcome) :
    ∃ l c, (l = [] ∨ ∃ ds, l = [Stage.published t ds]) ∧ Returns s.handler.Raises t.task c ∧
      s.Moves (s'.publish t o) (k ++ l ++ [.ended t c]) := by
  unfold Session.publish
  split
  · refine publishCurrent ?_ ht o
    exact ⟨h.stages, h.handler, h.machine, h.requests⟩
  · have hstale : (Completion.outcome (.stale o.config)).isProper t.task = true := by rw [ht]; rfl
    refine ⟨[], .outcome (.stale o.config), .inl rfl, .inl hstale, ?_⟩
    rw [List.append_nil]
    exact (h.note t.name (staleCompletion t o).effects).close t _

theorem closeFix (h : s.Moves s' k) (ht : t.task.isFix = true) (delay : Float)
    {x : Except Failure (Option OpenDocument)} (hx : ∀ f, x = .error f → s.handler.Raises f) :
    ∃ c, Returns s.handler.Raises t.task c ∧ s.Moves (s'.closeFix t delay x) (k ++ [.ended t c]) := by
  have hproper (b : Bool) : (Completion.edited b).isProper t.task = true := by
    cases htask : t.task <;> simp_all [Task.isFix, Completion.isProper]
  unfold Session.closeFix
  split
  · exact ⟨_, .inr ⟨_, rfl, hx _ rfl⟩, h.close t _⟩
  · exact ⟨_, .inl (hproper false), h.close t _⟩
  · refine ⟨_, .inl (hproper true), close ?_ t (.edited true)⟩
    exact ⟨h.stages, h.handler, h.machine, h.requests⟩

theorem amend (h : s.Moves s' k) (ht : t.task.isFix = true) (delay : Float) (o : Outcome) :
    ∃ c, Returns s.handler.Raises t.task c ∧ s.Moves (s'.amend t delay o) (k ++ [.ended t c]) := by
  unfold Session.amend
  split
  · have hproper : (Completion.edited false).isProper t.task = true := by
      cases htask : t.task <;> simp_all [Task.isFix, Completion.isProper]
    exact ⟨_, .inl hproper, h.close t _⟩
  · refine (h.note t.name _).closeFix ht delay fun f hf => ?_
    rw [← h.handler]
    exact Fix.raises_of_amend hf

/-- A request whose run came to an outcome ends, and fails only because of the host. -/
theorem finish (h : s.Moves s' k) (t : Ticket) (delay : Float) (o : Outcome) :
    ∃ l, Ending s.handler.Raises t l ∧ s.Moves (s'.finish t delay o) (k ++ l) := by
  have hm := h.mark (.found t o)
  have last (c : Completion) (hc : Returns s.handler.Raises t.task c) {s'' : Session}
      (hs : s.Moves s'' (k ++ [.found t o] ++ [.ended t c])) :
      ∃ l, Ending s.handler.Raises t l ∧ s.Moves s'' (k ++ l) :=
    ⟨_, .ended o c hc, by simpa using hs⟩
  unfold Session.finish
  cases ht : t.task with
  | diagnose => exact last _ (.inl (by rw [ht]; rfl)) (hm.close t _)
  | provideIssues => exact last _ (.inl (by rw [ht]; rfl)) (hm.close t _)
  | refresh =>
    obtain ⟨l, c, rfl | ⟨ds, rfl⟩, hc, hs⟩ := hm.publish ht o
    · exact last c hc (by simpa using hs)
    · exact ⟨_, .published o ds c hc, by simpa using hs⟩
  | fix | willSave =>
    obtain ⟨c, hc, hs⟩ := hm.amend (by rw [ht]; rfl) delay o
    exact last c hc hs

end Moves

theorem moves_goOn (s : Session) (p : Pending) (e : TalkEnd) :
    ∃ k, Ending s.handler.Raises p.ticket k ∧ s.Moves (s.goOn p e) k := by
  simp only [goOn]
  split
  · rename_i f hf
    rw [result_proceed] at hf
    have hraises : s.handler.Raises f := Request.raises_of_proceed hf
    exact ⟨_, .broken _ (.inr ⟨f, rfl, hraises⟩),
      ((Moves.refl s).note p.ticket.name _).close p.ticket _⟩
  · exact ((Moves.refl s).note p.ticket.name _).finish p.ticket _ _

theorem moves_enter {P : Failure → Prop} (s : Session) (t : Ticket) (child : Child)
    {x : Except Failure (Progress (LinterSettings × Runner.Talk) Outcome)}
    (hraises : ∀ f, s.handler.Raises f → P f) (hx : ∀ f, x = .error f → P f) :
    (∃ k, Ending P t k ∧ s.Moves (s.enter t child x) k ∧
        (s.enter t child x).pending = s.pending) ∨
      ∃ p, p.ticket = t ∧ s.Moves (s.enter t child x) [] ∧
        (s.enter t child x).pending = s.pending ++ [p] := by
  unfold enter
  split
  · rename_i f
    exact .inl ⟨_, .broken _ (.inr ⟨f, rfl, hx f rfl⟩), (Moves.refl s).close t _, rfl⟩
  · rename_i o
    obtain ⟨k, hk, hs⟩ := (Moves.refl s).finish t 0 o
    exact .inl ⟨k, hk.mono hraises, hs, pending_finish s t 0 o⟩
  · exact .inr ⟨_, rfl, ⟨(List.append_nil _).symm, rfl, rfl, rfl⟩, rfl⟩

theorem stages_launch {P : Failure → Prop} (s : Session) (name : Text) (task : Task)
    (document : Text) (d : OpenDocument) (child : Child)
    (hraises : ∀ f, s.handler.Raises f → P f)
    (hloaded : ∀ f, s.loaded = .error f → f.isFault = false → P f) :
    let t := s.ticketFor name task document d.path
    let s' := s.launch name task document d child
    s'.handler = s.handler ∧ s'.machine = s.machine ∧
      ((∃ k, Ending P t k ∧ s'.stages = s.stages ++ .began t :: k ∧ s'.pending = s.pending) ∨
        ∃ p, p.ticket = t ∧ s'.stages = s.stages ++ [.began t] ∧
          s'.pending = s.pending ++ [p]) := by
  intro t s'
  let x := (Request.begin s.handler s.machine s.loaded task d.path d.text child).forRequest t.id
  let begun := (s.admitted t).note name x.effects
  have hbegun : begun.stages = s.stages ++ [.began t] := by
    rw [stages_note, stages_admitted]
  have hx : ∀ f, x.result = .error f → P f := by
    intro f hf
    rcases Request.begin_error hf with hr | ⟨hl, hfault⟩
    · exact hraises f hr
    · exact hloaded f hl hfault
  rcases moves_enter begun t child hraises hx with ⟨k, hk, hs, hp⟩ | ⟨p, hp, hs, hpending⟩
  · refine ⟨hs.handler, hs.machine, .inl ⟨k, hk, ?_, hp⟩⟩
    have hstages := hs.stages
    rwa [hbegun, List.append_assoc] at hstages
  · refine ⟨hs.handler, hs.machine, .inr ⟨p, hp, ?_, hpending⟩⟩
    have hstages := hs.stages
    rwa [hbegun, List.append_nil] at hstages

theorem moves_giveUp (s : Session) (p : Pending) :
    s.Moves (s.giveUp p) [.ended p.ticket .cancelled] :=
  ((Moves.refl s).note p.ticket.name _).close p.ticket .cancelled

/-! ## Every run -/

/-- What holds of a session while requests wait. -/
structure IsLiving (h : Handler) (ts : List Ticket) (s : Session) : Prop where
  handler : s.handler = h
  living : Living h.Lets ts s.requests s.stages

namespace IsLiving

variable {h : Handler} {ts : List Ticket} {s s' : Session} {t : Ticket} {k : List Stage}

theorem quietly (hs : s.Moves s' []) (v : s.IsLiving h ts) : s'.IsLiving h ts where
  handler := hs.handler.trans v.handler
  living := by
    rw [hs.stages, hs.requests, List.append_nil]
    exact v.living

theorem ends (hk : Ending h.Lets t k) (hs : s.Moves s' k) (v : s.IsLiving h (t :: ts)) :
    s'.IsLiving h ts where
  handler := hs.handler.trans v.handler
  living := by
    rw [hs.stages, hs.requests]
    exact v.living.ends hk

theorem admits (name : Text) (task : Task) (document : Text) (path : Path)
    (v : s.IsLiving h ts) :
    let t := s.ticketFor name task document path
    (s.admitted t).IsLiving h (t :: ts) where
  handler := v.handler
  living := by
    have hid : (s.ticketFor name task document path).id = RequestId.ofNumber (s.requests + 1) := rfl
    rw [stages_admitted]
    exact v.living.begins hid

end IsLiving

theorem handle_same (s : Session) {e : Event} (he : e.ofHost = true) :
    (s.handle e).stages = s.stages ∧ (s.handle e).handler = s.handler ∧
      (s.handle e).requests = s.requests := by
  cases e with
  | request | answer | died | cancel | advance | saveLater => simp [Event.ofHost] at he
  | settings | sink | files => exact ⟨rfl, rfl, rfl⟩
  | edit | replace | save | applyFix | issues =>
    simp only [Session.handle]
    repeat' split
    all_goals refine ⟨?_, rfl, rfl⟩
    all_goals first
      | rfl
      | simp [withDocument, Session.stages, Session.complete, Session.note, Entry.stage?]

theorem saveNow_same (s : Session) (d : DeferredSave) :
    (s.saveNow d).stages = s.stages ∧ (s.saveNow d).handler = s.handler ∧
      (s.saveNow d).requests = s.requests := by
  unfold saveNow
  split
  · exact ⟨rfl, rfl, rfl⟩
  · dsimp only
    split <;> refine ⟨?_, rfl, rfl⟩
    · exact stages_note _ _ _
    · exact stages_note _ _ _
    · rfl

/-- Every step of a session keeps account of its requests. -/
theorem kept_living (h : Handler) :
    Kept (fun _ => True) fun ps s => s.IsLiving h (ps.map (·.ticket)) where
  perm hp v := ⟨v.handler, v.living.perm (hp.map _)⟩
  aside qs ds clock v := ⟨v.handler, v.living⟩
  launch := by
    intro ps s document d name task child hd v
    let t := s.ticketFor name task document d.path
    let x := (Request.begin s.handler s.machine s.loaded task d.path d.text child).forRequest t.id
    have hv : ((s.admitted t).note name x.effects).IsLiving h (t :: ps.map (·.ticket)) :=
      (v.admits name task document d.path).quietly ((Moves.refl _).note name _)
    have hx : ∀ f, x.result = .error f → s.handler.Lets f := fun f hf =>
      (Request.begin_error hf).imp_right And.right
    rcases moves_enter ((s.admitted t).note name x.effects) t child (fun f => .inl) hx with
      ⟨k, hk, hs, hp⟩ | ⟨p, hp, hs, hpending⟩
    · refine ⟨[], hp.trans (List.append_nil _).symm, ?_⟩
      rw [List.append_nil]
      exact hv.ends (v.handler ▸ hk) hs
    · refine ⟨[p], hpending, ?_⟩
      have hperm : (t :: ps.map (·.ticket)).Perm ((ps ++ [p]).map (·.ticket)) := by
        rw [List.map_append, List.map_singleton, hp]
        exact (List.perm_append_singleton t _).symm
      have hw := hv.quietly hs
      exact ⟨hw.handler, hw.living.perm hperm⟩
  kill {_ s p} _ v := v.quietly ((Moves.refl s).note p.ticket.name _)
  goOn := by
    intro ps s p e v
    obtain ⟨k, hk, hs⟩ := s.moves_goOn p e
    exact v.ends ((v.handler ▸ hk).mono fun f => .inl) hs
  giveUp {_ s p} v := v.ends (.broken .cancelled (.inl rfl)) (s.moves_giveUp p)
  learn := by
    intro ps s f hf v
    rw [tickets_map hf]
    exact v
  abandon {_ s p} v := v.ends (.broken .cancelled (.inl rfl)) ((Moves.refl s).close p.ticket .cancelled)
  saveNow := by
    intro ps s d v
    obtain ⟨hstages, hhandler, hrequests⟩ := s.saveNow_same d
    exact ⟨hhandler.trans v.handler, by rw [hstages, hrequests]; exact v.living⟩
  host := by
    intro ps s e _ ho v
    obtain ⟨hstages, hhandler, hrequests⟩ := s.handle_same ho
    exact ⟨hhandler.trans v.handler, by rw [hstages, hrequests]; exact v.living⟩

theorem living_run (m : Machine) (h : Handler) (source : SettingsSource)
    (documents : List (Text × OpenDocument)) (events : List Event) :
    let s := (initial m h source documents).run events
    Living h.Lets (s.pending.map (·.ticket)) s.requests s.stages := by
  let s₀ := initial m h source documents
  have first : s₀.IsLiving h (s₀.pending.map (·.ticket)) := ⟨rfl, .empty h.Lets 0⟩
  exact ((kept_living h).run (fun _ _ => trivial) first).living

end Session

end EditorLint
