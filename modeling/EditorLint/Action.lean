import EditorLint.Log.Record
import EditorLint.Process

/-!
# Actions

An action has effects and ends with a result or a failure: it logs, it deals with child
processes or fails to start one, and it reports faults to the host.  The effects of an
action stand whether or not it fails, in the order in which they came about.

Embedded is how functions log, deal with children and call `on_error` on the way to a value or
an exception: `try` is `recover`, and a handler that raises fails the action.
-/

namespace EditorLint

/-- Something that an action does to the world outside.  Where a child cannot be started there
is no process, and so no process event. -/
inductive Effect where
  | log (r : Log.Record)
  | process (e : ProcessEvent)
  | refused (command : List Text) (cwd : Path) (piped : Bool)
  | report (f : Fault)

namespace Effect

/-- The effect as one of a request: what is logged carries the identifier. -/
def forRequest (id : Text) : Effect → Effect
  | log r => log (r.forRequest (some id))
  | e => e

def records (es : List Effect) : List Log.Record :=
  es.filterMap fun
    | log r => some r
    | _ => none

def processes (es : List Effect) : List ProcessEvent :=
  es.filterMap fun
    | process e => some e
    | _ => none

/-- The attempt to start a child that an effect is, whether or not it succeeds. -/
def attempt? : Effect → Option Attempt
  | process (.spawn command cwd piped) | refused command cwd piped => some ⟨command, cwd, piped⟩
  | _ => none

/-- The attempts to start a child among some effects. -/
def attempts (es : List Effect) : List Attempt := es.filterMap attempt?

def reports (es : List Effect) : List Fault :=
  es.filterMap fun
    | report f => some f
    | _ => none

theorem processes_forRequest (id : Text) (es : List Effect) :
    processes (es.map (forRequest id)) = processes es := by
  unfold processes
  rw [List.filterMap_map]
  congr 1
  funext e
  cases e <;> rfl

theorem attempts_forRequest (id : Text) (es : List Effect) :
    attempts (es.map (forRequest id)) = attempts es := by
  unfold attempts
  rw [List.filterMap_map]
  congr 1
  funext e
  cases e <;> rfl

theorem processes_append (es es' : List Effect) :
    processes (es ++ es') = processes es ++ processes es' := List.filterMap_append

theorem attempts_append (es es' : List Effect) :
    attempts (es ++ es') = attempts es ++ attempts es' := List.filterMap_append

end Effect

/-- What an action does, and what it ends with. -/
structure Action (α : Type) where
  effects : List Effect
  result : Except Failure α

namespace Action

/-- The second action after the first, unless that failed. -/
def bind {α β : Type} (x : Action α) (f : α → Action β) : Action β :=
  match x.result with
  | .ok a => ⟨x.effects ++ (f a).effects, (f a).result⟩
  | .error e => ⟨x.effects, .error e⟩

instance : Monad Action where
  pure a := ⟨[], .ok a⟩
  bind := bind

def emit (e : Effect) : Action Unit := ⟨[e], .ok ()⟩

def log (r : Log.Record) : Action Unit := emit (.log r)

def fail {α : Type} (f : Failure) : Action α := ⟨[], .error f⟩

def ofExcept {α : Type} (r : Except Failure α) : Action α := ⟨[], r⟩

def ofLogged {α : Type} (x : Logged α) : Action α := ⟨x.records.map .log, x.result⟩

/-- The action, with another one after it if it fails. -/
def recover {α : Type} (x : Action α) (f : Failure → Action α) : Action α :=
  match x.result with
  | .ok _ => x
  | .error e => ⟨x.effects ++ (f e).effects, (f e).result⟩

def forRequest {α : Type} (id : Text) (x : Action α) : Action α :=
  ⟨x.effects.map (Effect.forRequest id), x.result⟩

@[simp] theorem result_pure {α : Type} (a : α) : (pure a : Action α).result = .ok a := rfl

@[simp] theorem result_forRequest {α : Type} (id : Text) (x : Action α) :
    (x.forRequest id).result = x.result := rfl

/-- An action that does not fail has two parts that do not fail. -/
theorem result_bind {α β : Type} {x : Action α} {f : α → Action β} {b : β}
    (h : (x >>= f).result = .ok b) : ∃ a, x.result = .ok a ∧ (f a).result = .ok b := by
  have hb : (bind x f).result = .ok b := h
  unfold bind at hb
  split at hb
  · rename_i a ha
    exact ⟨a, ha, hb⟩
  · simp at hb

/-- A recovered action that does not fail did not fail before, or its recovery did not. -/
theorem result_recover {α : Type} {x : Action α} {f : Failure → Action α} {a : α}
    (h : (x.recover f).result = .ok a) :
    x.result = .ok a ∨ ∃ e, x.result = .error e ∧ (f e).result = .ok a := by
  unfold recover at h
  split at h
  · exact .inl h
  · rename_i e he
    exact .inr ⟨e, he, h⟩

end Action

/-- What the host wants to be told about faults: nothing, or every fault, in which case
telling may itself fail. -/
structure Handler where
  callback : Option (Fault → Option Failure)

namespace Handler

def none : Handler := ⟨.none⟩

/-- The host is told, and takes it well. -/
def recording : Handler := ⟨some fun _ => .none⟩

def call (callback : Fault → Option Failure) (f : Fault) : Action Unit := do
  Action.emit (.report f)
  match callback f with
  | .none => return
  | some failure => Action.fail failure

/-- Tells the host about a fault, if it wants to know. -/
def report (h : Handler) (f : Fault) : Action Unit :=
  match h.callback with
  | .none => pure ()
  | some callback => call callback f

end Handler

end EditorLint
