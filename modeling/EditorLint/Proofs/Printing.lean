import EditorLint.Proofs.Commands
import EditorLint.Proofs.Growth

/-!
# Printing

A line can be printed exactly where there is no lone surrogate in it (`run_print`,
`failure_of_print`): styles, which are left out, have none, so what is left of a line can be
encoded only if the whole line can.  Several lines come out one after the other, or else one
that cannot be printed ends the command (`run_printAll`, `failure_of_printAll`).
-/

namespace EditorLint

/-! ## Whole texts -/

namespace Text

def IsWhole (t : Text) : Prop := ∀ c ∈ t, c.isScalar = true

instance (t : Text) : Decidable t.IsWhole := inferInstanceAs (Decidable (∀ c ∈ t, _))

theorem isWhole_ofChars (cs : List Char) : IsWhole (ofChars cs) := by
  intro c hc
  obtain ⟨c, -, rfl⟩ := List.mem_map.mp hc
  rfl

theorem isWhole_append {s t : Text} : IsWhole (s ++ t) ↔ s.IsWhole ∧ t.IsWhole :=
  List.forall_mem_append

theorem isWhole_take_styleLength (t : Text) : IsWhole (t.take t.styleLength) := by
  have hnone (t : Text) : IsWhole (t.take 0) := fun c hc => nomatch hc
  unfold styleLength
  split
  · rename_i rest
    dsimp only
    split
    · rename_i hletter
      obtain ⟨letter, hhead, hletter⟩ := (Option.any_eq_true _ _).mp hletter
      obtain ⟨after, hafter⟩ := List.head?_eq_some_iff.mp hhead
      have hscalar : letter.isScalar = true := by
        cases letter with
        | scalar c => rfl
        | surrogate n => cases hletter
      -- The code ends with the letter behind its parameters.
      have hrest : rest = (rest.takeWhile Code.isParameter ++ [letter]) ++ after := by
        rw [List.append_assoc, List.singleton_append, ← hafter, List.takeWhile_append_dropWhile]
      have htake : rest.take ((rest.takeWhile Code.isParameter).length + 1) =
          rest.takeWhile Code.isParameter ++ [letter] := by
        have hlength : (rest.takeWhile Code.isParameter).length + 1 =
            (rest.takeWhile Code.isParameter ++ [letter]).length := by
          rw [List.length_append, List.length_singleton]
        rw [hlength]
        exact List.prefix_iff_eq_take.mp ⟨after, hrest.symm⟩ |>.symm
      rintro c (_ | ⟨_, _ | ⟨_, hc⟩⟩)
      · rfl
      · rfl
      · rw [htake] at hc
        obtain hc | hc := List.mem_append.mp hc
        · cases c with
          | scalar c => rfl
          | surrogate n => cases List.all_eq_true.mp List.all_takeWhile _ hc
        · rw [List.mem_singleton.mp hc]
          exact hscalar
    · exact hnone _
  · exact hnone _

/-- What is left of a text after `skip` codes is whole only if all of that is. -/
theorem isWhole_drop_of_unstyledFrom (skip : Nat) (t : Text) (h : IsWhole (unstyledFrom skip t)) :
    IsWhole (t.drop skip) := by
  fun_induction unstyledFrom skip t with
  | case1 skip => simpa using h
  | case2 skip c rest ih => exact ih h
  | case3 c rest _ ih =>
    obtain ⟨hc, hrest⟩ := List.forall_mem_cons.mp h
    exact List.forall_mem_cons.mpr ⟨hc, ih hrest⟩
  | case4 c rest n hlength ih =>
    have hstyle := isWhole_take_styleLength (c :: rest)
    rw [hlength] at hstyle
    have hall := isWhole_append.mpr ⟨hstyle, ih h⟩
    rwa [← List.drop_succ_cons (a := c), List.take_append_drop] at hall

theorem isWhole_unstyled (t : Text) : t.unstyled.IsWhole ↔ t.IsWhole :=
  ⟨isWhole_drop_of_unstyledFrom 0 t, fun h c hc => h c (unstyled_subset t hc)⟩

end Text

/-! ## Lines -/

def Text.printed (line : Text) : List Char := line.unstyled.shown ++ ['\n']

namespace Terminal

def shows (t : Terminal) (cs : List Char) : Terminal := { t with stdout := t.stdout ++ cs }

@[simp] theorem shows_nil (t : Terminal) : t.shows [] = t := by
  unfold shows
  rw [List.append_nil]

@[simp] theorem shows_shows (t : Terminal) (cs ds : List Char) :
    (t.shows cs).shows ds = t.shows (cs ++ ds) := by
  unfold shows
  rw [List.append_assoc]

end Terminal

namespace Command

variable {α : Type}

theorem run_print {line : Text} (h : line.IsWhole) (t : Terminal) :
    t.run (print line) = (.ok (), t.shows line.printed) := by
  obtain ⟨cs, hcs⟩ := Text.exists_ofChars ((Text.isWhole_unstyled line).mpr h)
  have hline : line.unstyled ++ Text.ofString "\n" = Text.ofChars (cs ++ ['\n']) := by
    rw [hcs]
    exact List.map_append.symm
  unfold print Text.printed
  rw [hline, Utf8.encode_ofChars, Text.shown_ofChars, hcs, Text.shown_ofChars]
  rfl

theorem failure_of_print {line : Text} (h : ¬line.IsWhole) (t : Terminal) :
    ∃ f, t.run (print line) = (.error (.failure f), t) := by
  unfold print
  cases hline : Utf8.encode (line.unstyled ++ Text.ofString "\n") with
  | ok bytes =>
    have hwhole : (line.unstyled ++ Text.ofString "\n").IsWhole := Utf8.scalars_of_encode hline
    exact absurd ((Text.isWhole_unstyled line).mp (Text.isWhole_append.mp hwhole).1) h
  | error fault => exact ⟨_, rfl⟩

theorem run_printAll {f : α → Text} {as : List α} (h : ∀ a ∈ as, (f a).IsWhole) (t : Terminal) :
    t.run (as.forM fun a => print (f a)) = (.ok (), t.shows (as.flatMap fun a => (f a).printed)) := by
  induction as generalizing t with
  | nil =>
    rw [List.flatMap_nil, Terminal.shows_nil]
    rfl
  | cons a as ih =>
    obtain ⟨ha, has⟩ := List.forall_mem_cons.mp h
    show t.run (print (f a) >>= fun _ => as.forM fun a => print (f a)) = _
    rw [run_bind, run_print ha]
    dsimp only
    rw [ih has, Terminal.shows_shows, List.flatMap_cons]

theorem failure_of_printAll {f : α → Text} {as : List α} (h : ¬∀ a ∈ as, (f a).IsWhole)
    (t : Terminal) : ∃ e t', t.run (as.forM fun a => print (f a)) = (.error (.failure e), t') := by
  induction as generalizing t with
  | nil => exact absurd (fun a ha => nomatch ha) h
  | cons a as ih =>
    show ∃ e t', t.run (print (f a) >>= fun _ => as.forM fun a => print (f a)) = (_, t')
    rw [run_bind]
    by_cases ha : (f a).IsWhole
    · rw [run_print ha]
      exact ih (fun has => h (List.forall_mem_cons.mpr ⟨ha, has⟩)) _
    · obtain ⟨e, he⟩ := failure_of_print ha t
      rw [he]
      exact ⟨e, t, rfl⟩

end Command

end EditorLint
