import EditorLint.Path

/-!
# Paths and their texts

A path that was read from a text has parts without slashes, none of them empty or a single
dot, and whatever is made of such paths by joining, going up and folding has such parts again.
Such a path is what its own text reads as (`ofText_text`), so that nothing is lost where it is
printed or handed on as a word of a command line.
-/

namespace EditorLint

namespace Text

variable {p : Code → Bool} {t : Text}

theorem splitOn_undivided (h : ∀ c ∈ t, p c = false) : splitOn p t = [t] := by
  induction t with
  | nil => rfl
  | cons c t ih =>
    obtain ⟨hc, ht⟩ := List.forall_mem_cons.mp h
    rw [splitOn, hc, ih ht]
    rfl

theorem splitOn_append (h : ∀ c ∈ t, p c = false) {s : Code} (hs : p s = true) (rest : Text) :
    splitOn p (t ++ s :: rest) = t :: splitOn p rest := by
  induction t with
  | nil =>
    rw [List.nil_append, splitOn, hs]
    rfl
  | cons c t ih =>
    obtain ⟨hc, ht⟩ := List.forall_mem_cons.mp h
    rw [List.cons_append, splitOn, hc, ih ht]
    rfl

/-- The pieces of a text are made of its codes, those that separate them apart. -/
theorem of_mem_splitOn {piece : Text} (h : piece ∈ splitOn p t) :
    ∀ c ∈ piece, c ∈ t ∧ p c = false := by
  induction t generalizing piece with
  | nil =>
    obtain rfl := List.mem_singleton.mp h
    exact fun c hc => absurd hc (List.not_mem_nil)
  | cons d t ih =>
    have later {piece : Text} (h : piece ∈ splitOn p t) :
        ∀ c ∈ piece, c ∈ d :: t ∧ p c = false :=
      fun c hc => ⟨List.mem_cons_of_mem d (ih h c hc).1, (ih h c hc).2⟩
    unfold splitOn at h
    split at h
    · rcases List.mem_cons.mp h with rfl | h
      · exact fun c hc => absurd hc (List.not_mem_nil)
      · exact later h
    · rename_i hd
      have hself : d ∈ d :: t ∧ p d = false := ⟨List.mem_cons_self .., Bool.eq_false_iff.mpr hd⟩
      split at h
      · obtain rfl := List.mem_singleton.mp h
        exact List.forall_mem_singleton.mpr hself
      · rename_i first pieces hpieces
        rcases List.mem_cons.mp h with rfl | h
        · exact List.forall_mem_cons.mpr ⟨hself, later (hpieces ▸ List.mem_cons_self ..)⟩
        · exact later (hpieces ▸ List.mem_cons_of_mem first h)

end Text

namespace Path

/-! ## Parts -/

/-- Whether a text can be a part of a path that was read. -/
structure IsPart (t : Text) : Prop where
  filled : t ≠ []
  named : t.isString "." = false
  undivided : ∀ c ∈ t, c.isChar '/' = false

/-- Whether a path may have been read from a text. -/
def IsWritten (p : Path) : Prop := ∀ part ∈ p.parts, IsPart part

theorem mem_partsOf {t part : Text} :
    part ∈ partsOf t ↔
      part ∈ t.splitOn (Code.isChar '/') ∧ part ≠ [] ∧ part.isString "." = false := by
  unfold partsOf
  rw [List.mem_filter, Bool.and_eq_true, Bool.not_eq_true', Bool.not_eq_true',
    List.isEmpty_eq_false_iff]

theorem isWritten_ofText (t : Text) : (ofText t).IsWritten := by
  intro part hpart
  obtain ⟨hpiece, hfilled, hnamed⟩ := mem_partsOf.mp hpart
  exact ⟨hfilled, hnamed, fun c hc => (Text.of_mem_splitOn hpiece c hc).2⟩

theorem IsWritten.join {p q : Path} (hp : p.IsWritten) (hq : q.IsWritten) :
    (p.join q).IsWritten := by
  unfold Path.join
  split
  · exact hq
  · intro part hpart
    rcases List.mem_append.mp hpart with h | h
    · exact hp part h
    · exact hq part h

theorem IsWritten.parent {p : Path} (hp : p.IsWritten) : p.parent.IsWritten :=
  fun part hpart => hp part (List.dropLast_subset _ hpart)

theorem mem_normalize {p : Path} {part : Text} (h : part ∈ p.normalize.parts) : part ∈ p.parts := by
  have hfold (rooted : Bool) (parts done : List Text)
      (h : part ∈ parts.foldl (foldPart rooted) done) : part ∈ done ∨ part ∈ parts := by
    induction parts generalizing done with
    | nil => exact .inl h
    | cons next parts ih =>
      rcases ih _ h with hdone | hlater
      · have hone : part ∈ done ∨ part = next := by
          unfold foldPart at hdone
          repeat' split at hdone
          · exact absurd hdone List.not_mem_nil
          · exact .inr (List.mem_singleton.mp hdone)
          · exact List.mem_append.mp hdone |>.imp_right List.mem_singleton.mp
          · exact .inl (List.dropLast_subset _ hdone)
          · exact List.mem_append.mp hdone |>.imp_right List.mem_singleton.mp
        rcases hone with hdone | rfl
        · exact .inl hdone
        · exact .inr (List.mem_cons_self ..)
      · exact .inr (List.mem_cons_of_mem next hlater)
  exact (hfold _ p.parts [] h).resolve_left List.not_mem_nil

theorem IsWritten.normalize {p : Path} (hp : p.IsWritten) : p.normalize.IsWritten :=
  fun part hpart => hp part (mem_normalize hpart)

/-! ## Roots -/

theorem isAbsolute_join {p : Path} (hp : p.isAbsolute = true) (q : Path) :
    (p.join q).isAbsolute = true := by
  unfold Path.join
  split
  · assumption
  · exact hp

theorem join_of_isAbsolute {p : Path} (hp : p.isAbsolute = true) (cwd : Path) : cwd.join p = p :=
  if_pos hp

/-- The directory of a path is the same one seen from the working directory, unless the path is
the working directory itself. -/
theorem parent_join {cwd p : Path} (hp : p.isAbsolute = false → p.parts ≠ []) :
    (cwd.join p).parent = cwd.join p.parent := by
  unfold Path.join
  by_cases habsolute : p.isAbsolute = true
  · rw [if_pos habsolute, if_pos (show p.parent.isAbsolute = true from habsolute)]
  · rw [if_neg habsolute, if_neg (show ¬p.parent.isAbsolute = true from habsolute)]
    unfold Path.parent
    rw [List.dropLast_append_of_ne_nil (hp (Bool.eq_false_iff.mpr habsolute))]

/-! ## Texts -/

/-- The codes of a path's text are those of its parts, slashes, and a dot. -/
theorem forall_mem_text_iff {P : Code → Prop} (hslash : P (.scalar '/')) (hdot : P (.scalar '.'))
    (p : Path) : (∀ c ∈ p.text, P c) ↔ ∀ part ∈ p.parts, ∀ c ∈ part, P c := by
  have hjoin (parts : List Text) :
      (∀ c ∈ Text.join "/" parts, P c) ↔ ∀ part ∈ parts, ∀ c ∈ part, P c := by
    induction parts with
    | nil => simp [Text.join]
    | cons part parts ih =>
      cases parts with
      | nil => simp [Text.join]
      | cons next parts =>
        have hline : Text.join "/" (part :: next :: parts) =
            part ++ (.scalar '/' :: Text.join "/" (next :: parts)) := List.append_assoc ..
        rw [hline, List.forall_mem_append, List.forall_mem_cons, ih,
          List.forall_mem_cons (a := part)]
        exact and_congr_right fun _ => and_iff_right hslash
  obtain ⟨root, parts⟩ := p
  have hrooted (front : Text) (hfront : ∀ c ∈ front, P c) :
      (∀ c ∈ front ++ Text.join "/" parts, P c) ↔ ∀ part ∈ parts, ∀ c ∈ part, P c := by
    rw [List.forall_mem_append, hjoin]
    exact and_iff_right hfront
  cases root with
  | slash => exact hrooted "/" (List.forall_mem_singleton.mpr hslash)
  | doubleSlash =>
    exact hrooted "//" (List.forall_mem_cons.mpr ⟨hslash, List.forall_mem_singleton.mpr hslash⟩)
  | relative =>
    cases parts with
    | nil => exact iff_of_true (List.forall_mem_singleton.mpr hdot) (by simp)
    | cons part parts => exact hrooted [] (by simp)

/-- A text that does not begin with a slash is relative, and rooted behind slashes. -/
theorem rootOf_of_head? {t : Text} (h : ∀ c ∈ t.head?, c.isChar '/' = false) :
    rootOf t = .relative ∧ rootOf (.scalar '/' :: t) = .slash ∧
      rootOf (.scalar '/' :: .scalar '/' :: t) = .doubleSlash := by
  cases t with
  | nil => exact ⟨rfl, rfl, rfl⟩
  | cons c t =>
    have hc : c ≠ .scalar '/' := by
      rintro rfl
      cases h _ rfl
    refine ⟨?_, ?_, ?_⟩
    · unfold rootOf
      split <;> simp_all
    · unfold rootOf
      split <;> simp_all
    · unfold rootOf
      split
      · simp_all
      · rfl
      · rename_i tail _ hsecond htail
        exact absurd (List.cons.inj htail).2.symm (hsecond (c :: t))
      · simp_all

theorem partsOf_join {parts : List Text} (h : ∀ part ∈ parts, IsPart part) :
    partsOf (Text.join "/" parts) = parts := by
  have hkept {part : Text} (h : IsPart part) (pieces : List Text) :
      (part :: pieces).filter (fun part => !part.isEmpty && !part.isString ".") =
        part :: pieces.filter fun part => !part.isEmpty && !part.isString "." := by
    refine List.filter_cons_of_pos ?_
    rw [h.named, List.isEmpty_eq_false_iff.mpr h.filled]
    rfl
  unfold partsOf
  induction parts with
  | nil => rfl
  | cons part parts ih =>
    obtain ⟨hpart, hparts⟩ := List.forall_mem_cons.mp h
    cases parts with
    | nil =>
      rw [Text.join, Text.splitOn_undivided hpart.undivided, hkept hpart]
      rfl
    | cons next parts =>
      have hline : Text.join "/" (part :: next :: parts) =
          part ++ (.scalar '/' :: Text.join "/" (next :: parts)) := List.append_assoc ..
      rw [hline, Text.splitOn_append hpart.undivided rfl, hkept hpart, ih hparts]

/-- A written path is what its text reads as. -/
theorem ofText_text {p : Path} (h : p.IsWritten) : ofText p.text = p := by
  obtain ⟨root, parts⟩ := p
  have hparts : partsOf (Text.join "/" parts) = parts := partsOf_join h
  have hskipped (t : Text) : partsOf (.scalar '/' :: t) = partsOf t := rfl
  have hhead : ∀ c ∈ (Text.join "/" parts).head?, c.isChar '/' = false := by
    cases parts with
    | nil => exact fun c hc => by cases hc
    | cons part rest =>
      obtain ⟨hfilled, -, hundivided⟩ := h part (List.mem_cons_self ..)
      obtain ⟨c, word, rfl⟩ := List.exists_cons_of_ne_nil hfilled
      have hfirst : (Text.join "/" ((c :: word) :: rest)).head? = some c := by
        cases rest <;> rfl
      rw [hfirst]
      rintro _ ⟨⟩
      exact hundivided c (List.mem_cons_self ..)
  obtain ⟨hrelative, hslash, hdouble⟩ := rootOf_of_head? hhead
  cases root with
  | slash => exact congr (congrArg Path.mk hslash) ((hskipped _).trans hparts)
  | doubleSlash =>
    exact congr (congrArg Path.mk hdouble) ((hskipped _).trans ((hskipped _).trans hparts))
  | relative =>
    cases parts with
    | nil => rfl
    | cons part parts => exact congr (congrArg Path.mk hrelative) hparts

end Path

end EditorLint
