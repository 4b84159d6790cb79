import EditorLint.Session.Step

/-!
# The stages that a session notes

What can be read off the stages that requests have come to: the refresh requests in the
order in which they began, the course of one request, and what was published for a path.

Tokens stand for the order of refresh requests: of two of them the one with the smaller
token began first (`precedes_iff`), so a request was overtaken if one with a larger token
has the same path (`overtaken_iff`).
-/

namespace EditorLint

namespace Stage

def ticket : Stage → Ticket
  | began t | found t _ | published t _ | ended t _ => t

def refresh? : Stage → Option Ticket
  | began t => if t.task = .refresh then some t else none
  | _ => none

/-- What was published for a path, and by which request. -/
def shown? (path : Path) : Stage → Option (Ticket × List Diagnostic)
  | published u ds => if u.path = path then some (u, ds) else none
  | _ => none

end Stage

/-! ## Lists of stages -/

/-- The refresh requests, in the order in which they began. -/
def refreshes (h : List Stage) : List Ticket := h.filterMap Stage.refresh?

def course (t : Ticket) (h : List Stage) : List Stage := h.filter fun x => x.ticket = t

def shown (path : Path) (h : List Stage) : List (Ticket × List Diagnostic) :=
  h.filterMap (Stage.shown? path)

def Precedes (h : List Stage) (t u : Ticket) : Prop :=
  [Stage.began t, Stage.began u].Sublist h

/-- Whether another refresh for the same path began after a refresh and before its run came
to an outcome. -/
def Overtaken (h : List Stage) (t : Ticket) (o : Outcome) : Prop :=
  ∃ u : Ticket, u.task = .refresh ∧ u.path = t.path ∧
    [Stage.began t, Stage.began u, Stage.found t o].Sublist h

section Append

variable (t : Ticket) (path : Path) (h k : List Stage)

@[simp] theorem refreshes_append : refreshes (h ++ k) = refreshes h ++ refreshes k :=
  List.filterMap_append

@[simp] theorem course_append : course t (h ++ k) = course t h ++ course t k :=
  List.filter_append h k

@[simp] theorem shown_append : shown path (h ++ k) = shown path h ++ shown path k :=
  List.filterMap_append

end Append

section Membership

variable {h k : List Stage} {t : Ticket}

theorem mem_refreshes : t ∈ refreshes h ↔ Stage.began t ∈ h ∧ t.task = .refresh := by
  unfold refreshes
  rw [List.mem_filterMap]
  constructor
  · rintro ⟨x, hx, he⟩
    cases x with
    | began u =>
      simp only [Stage.refresh?, Option.ite_none_right_eq_some, Option.some.injEq] at he
      obtain ⟨hu, rfl⟩ := he
      exact ⟨hx, hu⟩
    | _ => simp [Stage.refresh?] at he
  · rintro ⟨hb, ht⟩
    exact ⟨.began t, hb, by simp [Stage.refresh?, ht]⟩

theorem mem_shown {path : Path} {ds : List Diagnostic} :
    (t, ds) ∈ shown path h ↔ Stage.published t ds ∈ h ∧ t.path = path := by
  unfold shown
  rw [List.mem_filterMap]
  constructor
  · rintro ⟨x, hx, he⟩
    cases x with
    | published u ds' =>
      simp only [Stage.shown?, Option.ite_none_right_eq_some, Option.some.injEq,
        Prod.mk.injEq] at he
      obtain ⟨hp, rfl, rfl⟩ := he
      exact ⟨hx, hp⟩
    | _ => simp [Stage.shown?] at he
  · rintro ⟨hp, ht⟩
    exact ⟨.published t ds, hp, by simp [Stage.shown?, ht]⟩

theorem course_of_all (h : ∀ x ∈ k, x.ticket = t) : course t k = k := by
  unfold course
  rw [List.filter_eq_self]
  intro x hx
  exact decide_eq_true (h x hx)

theorem course_of_none (h : ∀ x ∈ k, x.ticket ≠ t) : course t k = [] := by
  unfold course
  rw [List.filter_eq_nil_iff]
  intro x hx
  simpa using h x hx

theorem course_append_of_none (h : ∀ x ∈ k, x.ticket ≠ t) (l : List Stage) :
    course t (l ++ k) = course t l := by
  rw [course_append, course_of_none h, List.append_nil]

/-- The beginnings of the refresh requests stand among the stages in their order. -/
theorem map_began_sublist (h : List Stage) : ((refreshes h).map Stage.began).Sublist h := by
  induction h with
  | nil => exact List.Sublist.refl _
  | cons x rest ih =>
    cases hx : x.refresh? with
    | none =>
      rw [refreshes, List.filterMap_cons_none hx]
      exact ih.cons x
    | some u =>
      have hu : x = .began u := by
        cases x with
        | began v =>
          simp only [Stage.refresh?, Option.ite_none_right_eq_some, Option.some.injEq] at hx
          rw [hx.2]
        | _ => simp [Stage.refresh?] at hx
      rw [refreshes, List.filterMap_cons_some hx, List.map_cons, ← hu]
      exact ih.cons_cons x

end Membership

/-! ## The order of refresh requests -/

theorem pair_sublist {α : Type} {r : α → Nat} {a b : α} {l : List α}
    (hl : l.Pairwise fun x y => r x < r y) (ha : a ∈ l) (hb : b ∈ l) (h : r a < r b) :
    [a, b].Sublist l := by
  induction hl with
  | nil => simp at ha
  | @cons x rest hx _ ih =>
    rcases List.mem_cons.mp ha with rfl | ha'
    · rcases List.mem_cons.mp hb with rfl | hb'
      · omega
      · exact (List.singleton_sublist.mpr hb').cons_cons a
    · rcases List.mem_cons.mp hb with rfl | hb'
      · have := hx a ha'
        omega
      · exact (ih ha' hb').cons x

theorem eq_of_rank {α : Type} {r : α → Nat} {a b : α} {l : List α}
    (hl : l.Pairwise fun x y => r x < r y) (ha : a ∈ l) (hb : b ∈ l) (h : r a = r b) :
    a = b := by
  induction hl with
  | nil => simp at ha
  | @cons x rest hx _ ih =>
    rcases List.mem_cons.mp ha with rfl | ha'
    · rcases List.mem_cons.mp hb with rfl | hb'
      · rfl
      · have := hx b hb'
        omega
    · rcases List.mem_cons.mp hb with rfl | hb'
      · have := hx a ha'
        omega
      · exact ih ha' hb'

section Order

variable {h : List Stage} {t u : Ticket} (ordered : (refreshes h).Pairwise fun t u => t.token < u.token)

include ordered

theorem precedes_iff (ht : t ∈ refreshes h) (hu : u ∈ refreshes h) :
    Precedes h t u ↔ t.token < u.token := by
  constructor
  · intro hs
    have hp : [t, u].Sublist (refreshes h) := by
      have := hs.filterMap Stage.refresh?
      simpa [refreshes, Stage.refresh?, (mem_refreshes.mp ht).2, (mem_refreshes.mp hu).2] using this
    exact List.rel_of_pairwise_cons (ordered.sublist hp) (by simp)
  · intro hlt
    exact ((pair_sublist ordered ht hu hlt).map Stage.began).trans (map_began_sublist h)

theorem eq_of_token (ht : t ∈ refreshes h) (hu : u ∈ refreshes h) (he : t.token = u.token) :
    t = u :=
  eq_of_rank ordered ht hu he

theorem overtaken_iff (ht : t ∈ refreshes h) (o : Outcome) :
    Overtaken (h ++ [.found t o]) t o ↔
      ∃ u ∈ refreshes h, u.path = t.path ∧ t.token < u.token := by
  have hcut : ∀ u : Ticket,
      ([Stage.began t, .began u] ++ [Stage.found t o]).Sublist (h ++ [.found t o]) ↔
        Precedes h t u :=
    fun u => List.append_sublist_append_right [Stage.found t o]
  constructor
  · rintro ⟨u, hu, hp, hs⟩
    have hs := (hcut u).mp hs
    have hmem : u ∈ refreshes h := mem_refreshes.mpr ⟨hs.subset (by simp), hu⟩
    exact ⟨u, hmem, hp, (precedes_iff ordered ht hmem).mp hs⟩
  · rintro ⟨u, hmem, hp, hlt⟩
    exact ⟨u, (mem_refreshes.mp hmem).2, hp,
      (hcut u).mpr ((precedes_iff ordered ht hmem).mpr hlt)⟩

end Order

theorem overtaken_append {h k : List Stage} {t : Ticket} {o : Outcome}
    (hk : Stage.found t o ∉ k) : Overtaken (h ++ k) t o ↔ Overtaken h t o := by
  constructor
  · rintro ⟨u, hu, hp, hs⟩
    refine ⟨u, hu, hp, ?_⟩
    -- What is looked for ends with the outcome, so none of it lies in `k`.
    obtain ⟨l₁, l₂, hl, h₁, h₂⟩ := List.sublist_append_iff.mp hs
    have hnil : l₂ = [] := by
      rcases List.eq_nil_or_concat l₂ with rfl | ⟨front, x, rfl⟩
      · rfl
      · have hlast := congrArg List.getLast? hl
        simp at hlast
        exact absurd (h₂.subset (by simp [← hlast])) hk
    rw [hnil, List.append_nil] at hl
    rw [hl]
    exact h₁
  · rintro ⟨u, hu, hp, hs⟩
    exact ⟨u, hu, hp, hs.trans (List.sublist_append_left h k)⟩

namespace Session

/-! ## The stages of a step -/

section Stages

variable (s : Session) (t : Ticket) (who : Text) (es : List Effect) (c : Completion) (x : Stage)

@[simp] theorem stages_note : (s.note who es).stages = s.stages := by
  have : (es.map (Entry.effect who)).filterMap Entry.stage? = [] := by
    simp [List.filterMap_eq_nil_iff, Entry.stage?]
  simp [stages, note, this]

@[simp] theorem stages_mark : (s.mark x).stages = s.stages ++ [x] := by
  simp [stages, mark, Entry.stage?]

@[simp] theorem stages_complete : (s.complete who c).stages = s.stages := by
  simp [stages, complete, Entry.stage?]

@[simp] theorem stages_close : (s.close t c).stages = s.stages ++ [.ended t c] := by
  simp [close]

end Stages

/-- A session goes on with the stages `k`, and leaves the sequencer and what is on show as
they are. -/
structure Adds (s s' : Session) (k : List Stage) : Prop where
  stages : s'.stages = s.stages ++ k
  sequencer : s'.sequencer = s.sequencer
  issues : s'.issues = s.issues
  sinkFailure : s'.sinkFailure = s.sinkFailure

namespace Adds

variable {s s' s'' : Session} {k l : List Stage} {t : Ticket}

theorem trans (h : s.Adds s' k) (h' : s'.Adds s'' l) : s.Adds s'' (k ++ l) where
  stages := by rw [h'.stages, h.stages, List.append_assoc]
  sequencer := h'.sequencer.trans h.sequencer
  issues := h'.issues.trans h.issues
  sinkFailure := h'.sinkFailure.trans h.sinkFailure

theorem refl (s : Session) : s.Adds s [] := ⟨by simp, rfl, rfl, rfl⟩

/-- What happens then is no stage, and concerns neither the sequencer nor what is on show. -/
theorem quietly (h : s.Adds s' k) (stages : s''.stages = s'.stages)
    (sequencer : s''.sequencer = s'.sequencer) (issues : s''.issues = s'.issues)
    (sink : s''.sinkFailure = s'.sinkFailure) : s.Adds s'' k :=
  ⟨stages.trans h.stages, sequencer.trans h.sequencer, issues.trans h.issues,
    sink.trans h.sinkFailure⟩

theorem note (h : s.Adds s' k) (who : Text) (es : List Effect) : s.Adds (s'.note who es) k :=
  h.quietly (stages_note s' who es) rfl rfl rfl

theorem complete (h : s.Adds s' k) (who : Text) (c : Completion) :
    s.Adds (s'.complete who c) k :=
  h.quietly (stages_complete s' who c) rfl rfl rfl

theorem mark (h : s.Adds s' k) (x : Stage) : s.Adds (s'.mark x) (k ++ [x]) :=
  h.trans ⟨by simp, rfl, rfl, rfl⟩

theorem close (h : s.Adds s' k) (t : Ticket) (c : Completion) :
    s.Adds (s'.close t c) (k ++ [.ended t c]) :=
  h.trans ⟨by simp, rfl, rfl, rfl⟩

theorem conclude (h : s.Adds s' k) (t : Ticket) (a : Action Completion) :
    ∃ c, s.Adds (s'.conclude t a) (k ++ [.ended t c]) := by
  have hn := h.note t.name a.effects
  unfold Session.conclude
  split
  · exact ⟨_, hn.close t _⟩
  · exact ⟨_, hn.close t _⟩

theorem closeFix (h : s.Adds s' k) (t : Ticket) (delay : Float)
    (x : Except Failure (Option OpenDocument)) :
    ∃ c, s.Adds (s'.closeFix t delay x) (k ++ [.ended t c]) := by
  simp only [Session.closeFix]
  split
  · exact ⟨_, h.close t _⟩
  · exact ⟨_, h.close t _⟩
  · refine ⟨.edited true, close ?_ t (.edited true)⟩
    exact h.quietly rfl rfl rfl rfl

theorem amend (h : s.Adds s' k) (t : Ticket) (delay : Float) (o : Outcome) :
    ∃ c, s.Adds (s'.amend t delay o) (k ++ [.ended t c]) := by
  unfold Session.amend
  split
  · exact ⟨_, h.close t _⟩
  · exact (h.note t.name _).closeFix t delay _

theorem finish (h : s.Adds s' k) (delay : Float) (o : Outcome) (ht : t.task ≠ .refresh) :
    ∃ c, s.Adds (s'.finish t delay o) (k ++ [.found t o] ++ [.ended t c]) := by
  have hm := h.mark (.found t o)
  simp only [Session.finish]
  split
  · exact ⟨_, hm.close t _⟩
  · exact ⟨_, hm.close t _⟩
  · exact absurd ‹t.task = .refresh› ht
  · exact hm.amend t delay o
  · exact hm.amend t delay o

end Adds

end Session

end EditorLint
