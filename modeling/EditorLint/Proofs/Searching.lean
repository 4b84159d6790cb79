import EditorLint.Proofs.Paths
import EditorLint.Search

/-!
# What a search finds

A search goes up from a directory and probes the names there.  What it finds is there, and it
is the folded path of what was probed (`of_locateBy`).  How the directory is spelled makes no
difference (`locateBy_congr`).
-/

namespace EditorLint.Search

/-- What is found in a directory is there, under one of the names. -/
theorem of_inDirectory {probe : Path → Except Failure Bool} {directory hit : Path}
    {names : List Text} (h : inDirectory probe directory names = .ok (some hit)) :
    probe hit = .ok true ∧ ∃ name, hit = directory.child name := by
  induction names with
  | nil => cases h
  | cons name rest ih =>
    obtain ⟨there, hprobe, h⟩ := bind_eq_ok.mp h
    cases there with
    | true =>
      cases h
      exact ⟨hprobe, name, rfl⟩
    | false => exact ih h

/-- What is found from a directory upward is there, and its path is absolute and written if that
of the directory is. -/
theorem of_upward {probe : Path → Except Failure Bool} {names : List Text} {levels : Nat}
    {directory hit : Path} (absolute : directory.isAbsolute = true) (written : directory.IsWritten)
    (h : upward probe names levels directory = .ok (some hit)) :
    probe hit = .ok true ∧ hit.isAbsolute = true ∧ hit.IsWritten := by
  induction levels generalizing directory with
  | zero => cases h
  | succ levels ih =>
    obtain ⟨found, hfound, h⟩ := bind_eq_ok.mp h
    cases found with
    | some p =>
      cases h
      obtain ⟨hprobe, name, rfl⟩ := of_inDirectory hfound
      exact ⟨hprobe, Path.isAbsolute_join absolute _, written.join (Path.isWritten_ofText name)⟩
    | none =>
      dsimp only at h
      split at h
      · cases h
      · have habove : directory.parent.isAbsolute = true := absolute
        exact ih habove written.parent h

/-- A configuration that is found is the folded path of a file that is there. -/
theorem of_locateBy {probe : Path → Except Failure Bool} {cwd start config : Path}
    {spec : SearchSpec} (absolute : cwd.isAbsolute = true) (written : cwd.IsWritten)
    (hstart : start.IsWritten) (h : locateBy probe cwd start spec = .ok (some config)) :
    ∃ hit, probe hit = .ok true ∧ hit.IsWritten ∧ config = hit.normalize := by
  obtain ⟨found, hfound, h⟩ := bind_eq_ok.mp h
  cases found with
  | none => cases h
  | some hit =>
    have hdirectory : (cwd.resolveLexically start).isAbsolute = true :=
      Path.isAbsolute_join absolute start
    obtain ⟨hprobe, habsolute, hwritten⟩ :=
      of_upward hdirectory (written.join hstart).normalize hfound
    refine ⟨hit, hprobe, hwritten, ?_⟩
    have hconfig := Except.ok.inj h
    rw [← Option.some.inj hconfig]
    exact congrArg Path.normalize (Path.join_of_isAbsolute habsolute cwd)

/-- A search depends on the directory that it starts from, not on how that is spelled. -/
theorem locateBy_congr {probe : Path → Except Failure Bool} {cwd start start' : Path}
    {spec : SearchSpec} (h : cwd.join start = cwd.join start') :
    locateBy probe cwd start spec = locateBy probe cwd start' spec := by
  unfold locateBy locate Path.resolveLexically
  rw [h]

end EditorLint.Search
