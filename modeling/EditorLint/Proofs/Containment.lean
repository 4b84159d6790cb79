import EditorLint.Fix

/-!
# What gets out of a request

Almost nothing that goes wrong in a request gets out of it.  Only two parties can make one
fail: the host, by what its callback raises when it is told of a fault (`Handler.Raises`),
and the loading of the settings, by a failure that is no fault (`Request.begin_error`).
Whatever the search, the child, its report or the document do ends in an outcome.
-/

namespace EditorLint

namespace Action

variable {α β : Type}

theorem error_bind {x : Action α} {f : α → Action β} {e : Failure}
    (h : (x >>= f).result = .error e) :
    x.result = .error e ∨ ∃ a, x.result = .ok a ∧ (f a).result = .error e := by
  have hb : (bind x f).result = .error e := h
  unfold bind at hb
  split at hb
  · rename_i a ha
    exact .inr ⟨a, ha, hb⟩
  · rename_i e' he'
    cases hb
    exact .inl he'

theorem error_recover {x : Action α} {f : Failure → Action α} {e : Failure}
    (h : (x.recover f).result = .error e) :
    ∃ e', x.result = .error e' ∧ (f e').result = .error e := by
  unfold recover at h
  split at h
  · rename_i a ha
    rw [ha] at h
    cases h
  · rename_i e' he'
    exact ⟨e', he', h⟩

theorem result_bind_error {x : Action α} {e : Failure} (h : x.result = .error e)
    (f : α → Action β) : (x >>= f).result = .error e := by
  show (bind x f).result = .error e
  unfold bind
  rw [h]

end Action

/-! ## The host -/

namespace Handler

variable {h : Handler} {f : Failure}

/-- Whether the host raises a failure when it is told of some fault. -/
def Raises (h : Handler) (f : Failure) : Prop :=
  ∃ callback fault, h.callback = some callback ∧ callback fault = some f

def Calm (h : Handler) : Prop := ∀ f, ¬h.Raises f

theorem calm_none : Handler.none.Calm := by
  rintro f ⟨callback, fault, hc, -⟩
  cases hc

theorem calm_recording : Handler.recording.Calm := by
  rintro f ⟨callback, fault, hc, hf⟩
  cases hc
  cases hf

theorem raises_of_call {callback : Fault → Option Failure} {fault : Fault}
    (hc : h.callback = some callback) (hf : (call callback fault).result = .error f) :
    h.Raises f := by
  refine ⟨callback, fault, hc, ?_⟩
  unfold call at hf
  rcases Action.error_bind hf with hf | ⟨_, -, hf⟩
  · cases hf
  · split at hf
    · cases hf
    · rename_i f' hf'
      cases hf
      exact hf'

theorem raises_of_report {fault : Fault} (hf : (h.report fault).result = .error f) :
    h.Raises f := by
  unfold report at hf
  split at hf
  · cases hf
  · rename_i callback hc
    exact raises_of_call hc hf

end Handler

/-! ## Requests -/

/-- Whether a failure is one of the library's own faults. -/
def Failure.isFault : Failure → Bool
  | .fault _ => true
  | _ => false

namespace Request

variable {h : Handler} {e : Failure}

/-- The loading of settings fails a request only with what is no fault. -/
theorem settings_error {loaded : Except Failure LinterSettings}
    (hs : (settings h loaded).result = .error e) :
    h.Raises e ∨ loaded = .error e ∧ e.isFault = false := by
  unfold settings at hs
  split at hs
  · cases hs
  · rcases Action.error_bind hs with hs | ⟨_, -, hs⟩
    · cases hs
    · rcases Action.error_bind hs with hs | ⟨_, -, hs⟩
      · exact .inl (Handler.raises_of_report hs)
      · cases hs
  · rename_i f hno
    obtain rfl : f = e := Except.error.inj hs
    refine .inr ⟨rfl, ?_⟩
    cases f with
    | fault fault => exact (hno fault rfl).elim
    | _ => rfl

theorem settings_of_error {loaded : Except Failure LinterSettings} (hl : loaded = .error e)
    (he : e.isFault = false) : (settings h loaded).result = .error e := by
  subst hl
  unfold settings
  cases e with
  | fault f => cases he
  | _ => rfl

theorem raises_of_unforeseen {path : Path} {f : Failure}
    (hu : (unforeseen h path f).result = .error e) : h.Raises e := by
  unfold unforeseen at hu
  rcases Action.error_bind hu with hu | ⟨_, -, hu⟩
  · cases hu
  · rcases Action.error_bind hu with hu | ⟨_, -, hu⟩
    · exact Handler.raises_of_report hu
    · cases hu

/-- A request that fails before the wait does so because of the host, or because its settings
cannot be loaded for a reason that is no fault. -/
theorem begin_error {m : Machine} {loaded : Except Failure LinterSettings} {task : Task}
    {path : Path} {text : Text} {child : Child}
    (hb : (begin h m loaded task path text child).result = .error e) :
    h.Raises e ∨ loaded = .error e ∧ e.isFault = false := by
  unfold begin at hb
  rcases Action.error_bind hb with hb | ⟨known, -, hb⟩
  · exact settings_error hb
  · left
    cases known with
    | none => cases hb
    | some s =>
      dsimp only at hb
      split at hb
      · cases hb
      · rcases Action.error_bind hb with hb | ⟨progress, -, hb⟩
        · obtain ⟨f, -, hb⟩ := Action.error_recover hb
          rcases Action.error_bind hb with hb | ⟨_, -, hb⟩
          · exact raises_of_unforeseen hb
          · cases hb
        · cases progress <;> cases hb

/-- A request whose settings cannot be loaded for a reason that is no fault fails with it. -/
theorem begin_of_error {m : Machine} {loaded : Except Failure LinterSettings} {task : Task}
    {path : Path} {text : Text} {child : Child} (hl : loaded = .error e)
    (he : e.isFault = false) :
    (begin h m loaded task path text child).result = .error e :=
  Action.result_bind_error (settings_of_error hl he) _

/-- A request that fails after the wait does so because of the host. -/
theorem raises_of_proceed {path : Path} {t : Runner.Talk} {end' : TalkEnd}
    (hp : (proceed h path t end').result = .error e) : h.Raises e := by
  obtain ⟨f, -, hp⟩ := Action.error_recover hp
  exact raises_of_unforeseen hp

end Request

/-- A document that refuses to be changed fails a fix only because of the host. -/
theorem Fix.raises_of_amend {h : Handler} {d : OpenDocument} {o : Outcome} {e : Failure}
    (ha : (Fix.amend h d o).result = .error e) : h.Raises e := by
  unfold Fix.amend at ha
  split at ha
  · rcases Action.error_bind ha with ha | ⟨_, -, ha⟩
    · unfold Fix.refused at ha
      rcases Action.error_bind ha with ha | ⟨_, -, ha⟩
      · cases ha
      · exact Handler.raises_of_report ha
    · cases ha
  · cases ha
  · rcases Action.error_bind ha with ha | ⟨_, -, ha⟩ <;> cases ha

end EditorLint
