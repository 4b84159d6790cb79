import EditorLint.Yaml.Lexer
import Mathlib.Data.List.Infix

/-!
# Plain scalars on one line

A text that stands in a document without quotes is read as it is unless something in it
ends it early, begins a comment or is dropped at its end.  `ReadsPlain` says that nothing
does.  Such a text at the end of a line is one plain scalar, and with it the line feeds
and the blanks after it are passed, up to what stands there next.
-/

namespace EditorLint.Yaml

namespace Cursor

theorem rest_forward (c : Cursor) : c.forward.rest = c.rest.drop 1 := by
  unfold forward
  split
  · rename_i h
    rw [h]
    rfl
  · rename_i ch rest h
    rw [h]
    rfl

theorem rest_advance (c : Cursor) (n : Nat) : (c.advance n).rest = c.rest.drop n := by
  induction n generalizing c with
  | zero => rfl
  | succ n ih =>
    rw [advance, ih, rest_forward, List.drop_drop, Nat.add_comm]

/-- A cursor that stands behind some characters of the same line. -/
structure Passes (c : Cursor) (s : List Char) (c' : Cursor) : Prop where
  rest : c.rest = s ++ c'.rest
  size : c'.size = c.size
  line : c'.mark.line = c.mark.line
  index : c'.mark.index = c.mark.index + s.length
  column : c.column ≤ c'.column
  exact : '\uFEFF' ∉ s → c'.column = c.column + s.length

theorem Passes.refl (c : Cursor) : c.Passes [] c :=
  ⟨rfl, rfl, rfl, rfl, Nat.le_refl _, fun _ => rfl⟩

theorem Passes.trans {c c' c'' : Cursor} {s t : List Char} (h : c.Passes s c')
    (h' : c'.Passes t c'') : c.Passes (s ++ t) c'' where
  rest := by rw [h.rest, h'.rest, List.append_assoc]
  size := h'.size.trans h.size
  line := h'.line.trans h.line
  index := by rw [h'.index, h.index, List.length_append, Nat.add_assoc]
  column := Nat.le_trans h.column h'.column
  exact := fun hm => by
    have hs : '\uFEFF' ∉ s := fun hx => hm (List.mem_append_left t hx)
    have ht : '\uFEFF' ∉ t := fun hx => hm (List.mem_append_right s hx)
    rw [h'.exact ht, h.exact hs, List.length_append, Nat.add_assoc]

theorem Passes.fits {c c' : Cursor} {s : List Char} (h : c.Passes s c')
    (hfits : c.rest.length ≤ c.size) : c'.rest.length ≤ c'.size := by
  have hlength := congrArg List.length h.rest
  rw [List.length_append] at hlength
  rw [h.size]
  omega

theorem passes_forward {c : Cursor} {ch : Char} {rest : List Char} (h : c.rest = ch :: rest)
    (hch : isBreak ch = false) : c.Passes [ch] c.forward := by
  have hr : ch ≠ '\r' := by
    rintro rfl
    cases hch
  have hends : endsLine ch = false := (Bool.or_eq_false_iff.mp hch).2
  have hforward : c.forward =
      { c with
        rest := rest
        mark := ⟨c.mark.index + 1, c.mark.line,
          if ch == '\uFEFF' then c.mark.column else c.mark.column + 1⟩ } := by
    unfold forward
    rw [h]
    simp [Mark.after, hends, hr]
  rw [hforward]
  refine ⟨h, rfl, rfl, rfl, ?_, ?_⟩
  · show c.mark.column ≤ if ch == '\uFEFF' then c.mark.column else c.mark.column + 1
    split <;> omega
  · intro hm
    have hne : ch ≠ '\uFEFF' := fun he => hm (he ▸ List.mem_singleton_self ch)
    show (if ch == '\uFEFF' then c.mark.column else c.mark.column + 1) = c.mark.column + 1
    rw [beq_eq_false_iff_ne.mpr hne]
    rfl

theorem passes_advance {c : Cursor} {s rest : List Char} (h : c.rest = s ++ rest)
    (hs : ∀ ch ∈ s, isBreak ch = false) : c.Passes s (c.advance s.length) := by
  induction s generalizing c with
  | nil => exact .refl c
  | cons ch s ih =>
    have hstep := passes_forward h (hs ch List.mem_cons_self)
    have hrest : c.forward.rest = s ++ rest := by
      rw [rest_forward, h]
      rfl
    exact hstep.trans (ih hrest fun x hx => hs x (List.mem_cons_of_mem ch hx))

theorem passes_span {c : Cursor} {p : Char → Bool} {s rest : List Char} (h : c.rest = s ++ rest)
    (hp : ∀ ch ∈ s, p ch = true) (hrest : ∀ ch ∈ rest.head?, p ch = false)
    (hs : ∀ ch ∈ s, isBreak ch = false) :
    ∃ c', c.span p = (s, c') ∧ c.Passes s c' ∧ c'.rest = rest := by
  have htaken : c.rest.takeWhile p = s := by
    rw [h, List.takeWhile_append_of_pos hp]
    cases rest with
    | nil => simp
    | cons ch rest => simp [hrest ch rfl]
  have hpasses := passes_advance h hs
  refine ⟨c.advance s.length, ?_, hpasses, ?_⟩
  · unfold span
    rw [htaken]
  · rw [rest_advance, h, List.drop_left]

/-- A line feed is passed to the beginning of the next line. -/
structure Feeds (c c' : Cursor) : Prop where
  rest : c.rest = '\n' :: c'.rest
  size : c'.size = c.size
  line : c.mark.line < c'.mark.line
  column : c'.column = 0

theorem feeds_lineBreak {c : Cursor} {rest : List Char} (h : c.rest = '\n' :: rest) :
    ∃ c', c.lineBreak = (['\n'], c') ∧ c.Feeds c' ∧ c'.rest = rest := by
  have hpeek : c.peek = '\n' := by simp [peek, peekAt, h]
  have hforward : c.forward =
      { c with rest := rest, mark := ⟨c.mark.index + 1, c.mark.line + 1, 0⟩ } := by
    unfold forward
    rw [h]
    rfl
  refine ⟨c.forward, ?_, ?_, ?_⟩
  · unfold lineBreak
    simp [hpeek]
  · rw [hforward]
    exact ⟨h, rfl, Nat.lt_succ_self _, rfl⟩
  · rw [hforward]

theorem peek_of_rest {c : Cursor} {ch : Char} {rest : List Char} (h : c.rest = ch :: rest) :
    c.peek = ch := by
  simp [peek, peekAt, h]

/-- A line that begins with neither a hyphen nor a point separates no documents. -/
theorem atSeparator_eq_false {c : Cursor} (h : ∀ ch ∈ c.rest.head?, ch ≠ '-' ∧ ch ≠ '.') :
    c.atSeparator = false := by
  unfold atSeparator
  cases hr : c.rest with
  | nil => rfl
  | cons ch rest =>
    rw [hr] at h
    obtain ⟨hminus, hpoint⟩ := h ch rfl
    simp [hminus.symm, hpoint.symm]

end Cursor

/-! ## Plain scalars -/

open Cursor

/-- What comes after the blanks and the line feeds ahead. -/
def Stops (rest : List Char) : Prop := ∀ ch ∈ rest.head?, ch ≠ ' ' ∧ isBreak ch = false

theorem Stops.peek {rest : List Char} (hstop : Stops rest) {c : Cursor} (h : c.rest = rest) :
    (c.peek == ' ') = false ∧ isBreak c.peek = false := by
  cases rest with
  | nil =>
    have hpeek : c.peek = '\x00' := by simp [Cursor.peek, peekAt, h]
    rw [hpeek]
    exact ⟨rfl, rfl⟩
  | cons ch rest =>
    obtain ⟨hblank, hbreak⟩ := hstop ch rfl
    rw [peek_of_rest h]
    exact ⟨beq_eq_false_iff_ne.mpr hblank, hbreak⟩

theorem plainBreaks_blanks {n fuel : Nat} {c : Cursor} {rest : List Char} (hn : n ≤ fuel)
    (h : c.rest = List.replicate n ' ' ++ rest) (hstop : Stops rest) :
    ∃ c', plainBreaks fuel c = (some [], c') ∧ c.Passes (List.replicate n ' ') c' ∧
      c'.rest = rest := by
  induction n generalizing fuel c with
  | zero =>
    refine ⟨c, ?_, .refl c, h⟩
    obtain ⟨hblank, hbreak⟩ := hstop.peek h
    cases fuel with
    | zero => rfl
    | succ fuel => simp [plainBreaks, hblank, hbreak]
  | succ n ih =>
    obtain ⟨fuel, rfl⟩ : ∃ j, fuel = j + 1 := ⟨fuel - 1, by omega⟩
    rw [List.replicate_succ, List.cons_append] at h
    have hstep := passes_forward h rfl
    have hrest : c.forward.rest = List.replicate n ' ' ++ rest := by
      rw [rest_forward, h]
      rfl
    have hfuel : n ≤ fuel := Nat.le_of_succ_le_succ hn
    obtain ⟨c', hc', hpasses, hr⟩ := ih hfuel hrest
    refine ⟨c', ?_, hstep.trans hpasses, hr⟩
    rw [plainBreaks, peek_of_rest h, ← hc']
    rfl

/-- Whether the rest of a document begins like a line that separates documents. -/
def MaySeparate (rest : List Char) : Prop := ∃ ch ∈ rest.head?, ch = '-' ∨ ch = '.'

theorem noSeparator_lines {k n : Nat} {c : Cursor} {rest : List Char}
    (h : c.rest = List.replicate k '\n' ++ (List.replicate n ' ' ++ rest))
    (hsep : n = 0 → ¬MaySeparate rest) : c.atSeparator = false := by
  apply atSeparator_eq_false
  rw [h]
  intro ch hch
  cases k with
  | succ k =>
    obtain rfl := Option.some.inj hch
    exact ⟨by decide, by decide⟩
  | zero =>
    cases n with
    | succ n =>
      obtain rfl := Option.some.inj hch
      exact ⟨by decide, by decide⟩
    | zero =>
      have hnone := hsep rfl
      exact ⟨fun he => hnone ⟨ch, hch, .inl he⟩, fun he => hnone ⟨ch, hch, .inr he⟩⟩

theorem plainBreaks_feeds {k n fuel : Nat} {c : Cursor} {rest : List Char} (hk : k + n ≤ fuel)
    (h : c.rest = List.replicate k '\n' ++ (List.replicate n ' ' ++ rest)) (hstop : Stops rest)
    (hsep : n = 0 → ¬MaySeparate rest) (hcolumn : c.column = 0) :
    ∃ breaks c', plainBreaks fuel c = (some breaks, c') ∧ c'.rest = rest ∧ c'.size = c.size ∧
      c'.column = n ∧ c.mark.line ≤ c'.mark.line := by
  induction k generalizing fuel c with
  | zero =>
    have hfuel : n ≤ fuel := by omega
    obtain ⟨c', hc', hpasses, hr⟩ := plainBreaks_blanks hfuel h hstop
    refine ⟨[], c', hc', hr, hpasses.size, ?_, Nat.le_of_eq hpasses.line.symm⟩
    have hexact := hpasses.exact (by simp)
    rw [hexact, hcolumn, List.length_replicate, Nat.zero_add]
  | succ k ih =>
    obtain ⟨fuel, rfl⟩ : ∃ j, fuel = j + 1 := ⟨fuel - 1, by omega⟩
    rw [List.replicate_succ, List.cons_append] at h
    obtain ⟨c₁, hbreak, hfeeds, hrest⟩ := feeds_lineBreak h
    have hnone : c₁.atSeparator = false := noSeparator_lines hrest hsep
    have hfuel : k + n ≤ fuel := by omega
    obtain ⟨breaks, c', hc', hr, hsize, hcol, hline⟩ := ih hfuel hrest hfeeds.column
    refine ⟨'\n' :: breaks, c', ?_, hr, hsize.trans hfeeds.size, hcol, ?_⟩
    · rw [plainBreaks, peek_of_rest h, hbreak]
      dsimp only
      rw [hnone, hc']
      rfl
    · exact Nat.le_trans (Nat.le_of_lt hfeeds.line) hline

/-- The gap at the end of a line reaches to what follows the empty lines after it. -/
theorem plainGap_line {k n : Nat} {c : Cursor} {rest : List Char}
    (h : c.rest = '\n' :: (List.replicate k '\n' ++ (List.replicate n ' ' ++ rest)))
    (hsize : c.rest.length ≤ c.size) (hstop : Stops rest)
    (hsep : n = 0 → ¬MaySeparate rest) :
    ∃ gap c', plainGap c = (some gap, true, c') ∧ gap.text ≠ [] ∧ c'.rest = rest ∧
      c'.size = c.size ∧ c'.column = n ∧ c.mark.line < c'.mark.line := by
  have hspan : c.span (· == ' ') = ([], c) := by
    unfold span
    rw [h]
    rfl
  obtain ⟨c₁, hbreak, hfeeds, hrest⟩ := feeds_lineBreak h
  have hnone : c₁.atSeparator = false := noSeparator_lines hrest hsep
  -- The rest is as long as the blank lines at least, so the fuel lasts.
  have hfuel : k + n ≤ c₁.size := by
    have hlength := congrArg List.length h
    simp only [List.length_cons, List.length_append, List.length_replicate] at hlength
    rw [hfeeds.size]
    omega
  obtain ⟨breaks, c', hc', hr, hsize', hcol, hline⟩ :=
    plainBreaks_feeds hfuel hrest hstop hsep hfeeds.column
  refine ⟨⟨fold ['\n'] breaks, true⟩, c', ?_, ?_, hr, hsize'.trans hfeeds.size, hcol, ?_⟩
  · unfold plainGap
    rw [hspan]
    dsimp only
    rw [peek_of_rest h, hbreak]
    dsimp only
    rw [hnone, hc']
    rfl
  · unfold fold
    cases breaks <;> simp
  · exact Nat.lt_of_lt_of_le hfeeds.line hline

def isInline (ch : Char) : Bool := isPrintable ch && !isBreak ch && ch != '\t'

theorem isSpaceOrEnd_of_inline {ch : Char} (h : isInline ch = true) :
    isSpaceOrEnd ch = (ch == ' ') := by
  simp only [isInline, Bool.and_eq_true, Bool.not_eq_true', bne_iff_ne, ne_eq] at h
  obtain ⟨⟨hprintable, hbreak⟩, htab⟩ := h
  have hnul : ch ≠ '\x00' := by
    rintro rfl
    cases hprintable
  unfold isSpaceOrEnd isBlankOrEnd isBreakOrEnd
  rw [hbreak, beq_eq_false_iff_ne.mpr htab, beq_eq_false_iff_ne.mpr hnul]
  simp

theorem isBreakOrEnd_of_inline {ch : Char} (h : isInline ch = true) : isBreakOrEnd ch = false := by
  simp only [isInline, Bool.and_eq_true, Bool.not_eq_true', bne_iff_ne, ne_eq] at h
  obtain ⟨⟨hprintable, hbreak⟩, -⟩ := h
  have hnul : ch ≠ '\x00' := by
    rintro rfl
    cases hprintable
  unfold isBreakOrEnd
  rw [hbreak, beq_eq_false_iff_ne.mpr hnul]
  rfl

theorem isBreak_of_inline {ch : Char} (h : isInline ch = true) : isBreak ch = false := by
  simp only [isInline, Bool.and_eq_true, Bool.not_eq_true', bne_iff_ne, ne_eq] at h
  exact h.1.2

/-- The rest of a line that is read as it stands: nothing in it ends a plain scalar, begins a
comment, or is dropped at its end. -/
structure ReadsOn (s : List Char) : Prop where
  inline : ∀ ch ∈ s, isInline ch = true
  noKey : ¬[':', ' '] <:+: s
  noComment : ¬[' ', '#'] <:+: s
  ends : ∀ ch ∈ s.getLast?, ch ≠ ' ' ∧ ch ≠ ':'

instance (s : List Char) : Decidable (ReadsOn s) :=
  decidable_of_iff (s.all isInline = true ∧ ¬[':', ' '] <:+: s ∧ ¬[' ', '#'] <:+: s ∧
      s.getLast? ≠ some ' ' ∧ s.getLast? ≠ some ':')
    ⟨fun ⟨hinline, hkey, hcomment, hblank, hcolon⟩ =>
      ⟨List.all_eq_true.mp hinline, hkey, hcomment, fun _ hch =>
        ⟨fun heq => hblank (heq ▸ hch), fun heq => hcolon (heq ▸ hch)⟩⟩,
      fun h => ⟨List.all_eq_true.mpr h.inline, h.noKey, h.noComment,
        fun hlast => (h.ends _ hlast).1 rfl, fun hlast => (h.ends _ hlast).2 rfl⟩⟩

theorem ReadsOn.of_append {s t : List Char} (h : ReadsOn (s ++ t)) : ReadsOn t where
  inline ch hch := h.inline ch (List.mem_append_right s hch)
  noKey hi := h.noKey (hi.trans (List.suffix_append s t).isInfix)
  noComment hi := h.noComment (hi.trans (List.suffix_append s t).isInfix)
  ends ch hch := by
    apply h.ends ch
    rw [List.getLast?_append, hch]
    rfl

theorem plainRun_line {s : List Char} (h : ReadsOn s) (rest : List Char) :
    plainRun false (s ++ '\n' :: rest) = s.takeWhile (· != ' ') := by
  -- On the characters up to the blank: a colon among them is followed by no space.
  induction s with
  | nil => rfl
  | cons ch s ih =>
    have hinline := h.inline ch List.mem_cons_self
    have htail : ReadsOn s := ReadsOn.of_append (s := [ch]) h
    have hrun := ih htail
    by_cases hblank : ch = ' '
    · subst hblank
      rfl
    · have hcolon : ch = ':' → isSpaceOrEnd ((s ++ '\n' :: rest).headD '\x00') = false := by
        rintro rfl
        cases s with
        | nil => exact absurd rfl (h.ends ':' rfl).2
        | cons d s =>
          have hd := h.inline d (by simp)
          rw [List.cons_append, List.headD_cons, isSpaceOrEnd_of_inline hd]
          refine beq_eq_false_iff_ne.mpr fun he => h.noKey ?_
          rw [he]
          exact (List.prefix_append [':', ' '] s).isInfix
      have hends : endsPlain false ch ((s ++ '\n' :: rest).headD '\x00') = false := by
        unfold endsPlain
        rw [isSpaceOrEnd_of_inline hinline, beq_eq_false_iff_ne.mpr hblank]
        by_cases hch : ch = ':'
        · rw [hcolon hch]
          simp
        · rw [beq_eq_false_iff_ne.mpr hch]
          rfl
      rw [List.cons_append, plainRun, hends,
        List.takeWhile_cons_of_pos (by simpa using hblank), hrun]
      rfl

theorem plainGap_blanks {c : Cursor} {blanks s : List Char} {ch : Char}
    (h : c.rest = blanks ++ ch :: s) (hblanks : ∀ x ∈ blanks, x = ' ') (hch : ch ≠ ' ')
    (hinline : isBreak ch = false) :
    ∃ c', plainGap c = (some ⟨blanks, false⟩, false, c') ∧ c.Passes blanks c' ∧
      c'.rest = ch :: s := by
  obtain ⟨c', hspan, hpasses, hrest⟩ := passes_span (p := (· == ' ')) h
    (fun x hx => beq_iff_eq.mpr (hblanks x hx))
    (fun x hx => by rw [← Option.some.inj hx]; exact beq_eq_false_iff_ne.mpr hch)
    (fun x hx => by rw [hblanks x hx]; rfl)
  refine ⟨c', ?_, hpasses, hrest⟩
  unfold plainGap
  rw [hspan]
  dsimp only
  rw [peek_of_rest hrest, hinline]
  rfl

/-- Such a line is a word, and blanks and more words after it. -/
theorem ReadsOn.word {s : List Char} (h : ReadsOn s) (hhead : ∃ ch ∈ s.head?, ch ≠ ' ') :
    ∃ word, word ≠ [] ∧ s.takeWhile (· != ' ') = word ∧ (∀ ch ∈ word, isBreak ch = false) ∧
      (s = word ∨ ∃ blanks ch more, s = word ++ (blanks ++ ch :: more) ∧ blanks ≠ [] ∧
        (∀ x ∈ blanks, x = ' ') ∧ ch ≠ ' ' ∧ ch ≠ '#') := by
  have hword : s.takeWhile (· != ' ') ≠ [] := by
    obtain ⟨ch, hch, hblank⟩ := hhead
    cases s with
    | nil => cases hch
    | cons d s =>
      obtain rfl := Option.some.inj hch
      rw [List.takeWhile_cons_of_pos (by simpa using hblank)]
      exact List.cons_ne_nil _ _
  have hunbroken : ∀ ch ∈ s.takeWhile (· != ' '), isBreak ch = false := fun ch hch =>
    isBreak_of_inline (h.inline ch ((List.takeWhile_prefix _).subset hch))
  refine ⟨_, hword, rfl, hunbroken, ?_⟩
  have hsplit : s.takeWhile (· != ' ') ++ s.dropWhile (· != ' ') = s :=
    List.takeWhile_append_dropWhile
  cases hrest : s.dropWhile (· != ' ') with
  | nil =>
    rw [hrest, List.append_nil] at hsplit
    exact .inl hsplit.symm
  | cons d t =>
    right
    have hd : d = ' ' := by
      have hnot := List.head?_dropWhile_not (· != ' ') s
      rw [hrest] at hnot
      simpa using hnot
    have hgap : (d :: t).takeWhile (· == ' ') ++ (d :: t).dropWhile (· == ' ') = d :: t :=
      List.takeWhile_append_dropWhile
    have hblanks : ∀ x ∈ (d :: t).takeWhile (· == ' '), x = ' ' := fun x hx =>
      beq_iff_eq.mp (List.all_eq_true.mp List.all_takeWhile x hx)
    have hbne : (d :: t).takeWhile (· == ' ') ≠ [] := by simp [hd]
    rw [hrest, ← hgap] at hsplit
    obtain ⟨front, hfront⟩ : ∃ front, (d :: t).takeWhile (· == ' ') = front ++ [' '] := by
      have hlast := List.dropLast_concat_getLast hbne
      rw [hblanks _ (List.getLast_mem hbne)] at hlast
      exact ⟨_, hlast.symm⟩
    cases hmore : (d :: t).dropWhile (· == ' ') with
    | nil =>
      -- The line would end with a blank.
      have hend : s.getLast? = some ' ' := by
        rw [← hsplit, hmore, hfront]
        simp
      exact absurd rfl (h.ends ' ' hend).1
    | cons ch more =>
      have hch : ch ≠ ' ' := by
        have hnot := List.head?_dropWhile_not (· == ' ') (d :: t)
        rw [hmore] at hnot
        simpa using hnot
      refine ⟨_, ch, more, by rw [← hmore]; exact hsplit.symm, hbne, hblanks, hch, ?_⟩
      rintro rfl
      refine h.noComment ⟨s.takeWhile (· != ' ') ++ front, more, ?_⟩
      calc s.takeWhile (· != ' ') ++ front ++ [' ', '#'] ++ more
          = s.takeWhile (· != ' ') ++ (front ++ [' '] ++ '#' :: more) := by simp
        _ = s := by rw [← hfront, ← hmore]; exact hsplit

section Pieces

variable (fuel : Nat) {indent : Nat} {gap word rest : List Char} {soFar : Plain}
  (hrun : plainRun false soFar.behind.rest = word) (hne : word ≠ [])
  (hunbroken : ∀ ch ∈ word, isBreak ch = false) (hpeek : (soFar.behind.peek == '#') = false)
include hrun hne hunbroken hpeek

/-- A word that others follow on its line is read, with the blanks after it. -/
theorem plainPieces_word {blanks : List Char} {ch : Char}
    (h : soFar.behind.rest = word ++ (blanks ++ ch :: rest)) (hbne : blanks ≠ [])
    (hblanks : ∀ x ∈ blanks, x = ' ') (hch : ch ≠ ' ') (hhash : ch ≠ '#')
    (hin : isBreak ch = false) (hcolumn : indent ≤ soFar.behind.column) :
    ∃ stop c', soFar.behind.Passes (word ++ blanks) c' ∧ c'.rest = ch :: rest ∧
      plainPieces false indent (fuel + 1) gap soFar =
        plainPieces false indent fuel blanks ⟨soFar.text ++ gap ++ word, stop, false, c'⟩ := by
  have hpasses := passes_advance h hunbroken
  have hrest : (soFar.behind.advance word.length).rest = blanks ++ ch :: rest := by
    rw [rest_advance, h, List.drop_left]
  obtain ⟨c', hgap, hpasses', hrest'⟩ := plainGap_blanks hrest hblanks hch hin
  have hall := hpasses.trans hpasses'
  have hhash' : (c'.peek == '#') = false := by
    rw [peek_of_rest hrest']
    exact beq_eq_false_iff_ne.mpr hhash
  have hempty : word.isEmpty = false := by simpa using hne
  have hsome : blanks.isEmpty = false := by simpa using hbne
  have hright : ¬c'.column < indent := Nat.not_lt.mpr (Nat.le_trans hcolumn hall.column)
  refine ⟨(soFar.behind.advance word.length).mark, c', hall, hrest', ?_⟩
  conv => lhs; unfold plainPieces
  simp [hrun, hpeek, hempty, hgap, hsome, hhash', hright]

/-- The last word of a line is the last one, where what follows is less indented. -/
theorem plainPieces_end {k n : Nat}
    (h : soFar.behind.rest =
      word ++ '\n' :: (List.replicate k '\n' ++ (List.replicate n ' ' ++ rest)))
    (hsize : soFar.behind.rest.length ≤ soFar.behind.size) (hstop : Stops rest)
    (hsep : n = 0 → ¬MaySeparate rest) (hn : n < indent) :
    ∃ stop c', plainPieces false indent (fuel + 1) gap soFar =
        ⟨soFar.text ++ gap ++ word, stop, true, c'⟩ ∧
      c'.rest = rest ∧ c'.size = soFar.behind.size ∧ c'.column = n ∧
      soFar.behind.mark.line < c'.mark.line := by
  have hpasses := passes_advance h hunbroken
  have hrest : (soFar.behind.advance word.length).rest =
      '\n' :: (List.replicate k '\n' ++ (List.replicate n ' ' ++ rest)) := by
    rw [rest_advance, h, List.drop_left]
  obtain ⟨gap', c', hgap, htext, hr, hsz, hcol, hline⟩ :=
    plainGap_line hrest (hpasses.fits hsize) hstop hsep
  have hempty : word.isEmpty = false := by simpa using hne
  have hsome : gap'.text.isEmpty = false := by simpa using htext
  have hless : c'.column < indent := by omega
  rw [hpasses.line] at hline
  refine ⟨(soFar.behind.advance word.length).mark, c', ?_, hr, hsz.trans hpasses.size, hcol, hline⟩
  unfold plainPieces
  simp [hrun, hpeek, hempty, hgap, hsome, hless]

end Pieces

/-- A plain scalar reaches to the end of its line, where what follows is less indented. -/
theorem plainPieces_line {indent k n fuel : Nat} {gap s rest : List Char} {soFar : Plain}
    (h : soFar.behind.rest =
      s ++ '\n' :: (List.replicate k '\n' ++ (List.replicate n ' ' ++ rest)))
    (hs : ReadsOn s) (hhead : ∃ ch ∈ s.head?, ch ≠ ' ' ∧ ch ≠ '#') (hfuel : s.length ≤ fuel)
    (hsize : soFar.behind.rest.length ≤ soFar.behind.size) (hstop : Stops rest)
    (hsep : n = 0 → ¬MaySeparate rest) (hn : n < indent) (hcolumn : indent ≤ soFar.behind.column) :
    ∃ stop c', plainPieces false indent fuel gap soFar = ⟨soFar.text ++ gap ++ s, stop, true, c'⟩ ∧
      c'.rest = rest ∧ c'.size = soFar.behind.size ∧ c'.column = n ∧
      soFar.behind.mark.line < c'.mark.line := by
  -- Word by word: each but the last goes on with the blanks after it as the next gap.
  induction fuel generalizing s gap soFar with
  | zero =>
    obtain ⟨ch, hch, -⟩ := hhead
    rw [List.length_eq_zero_iff.mp (Nat.le_zero.mp hfuel)] at hch
    cases hch
  | succ fuel ih =>
    obtain ⟨first, hfirst, hblank, hcomment⟩ := hhead
    obtain ⟨word, hne, hword, hunbroken, hmore⟩ := hs.word ⟨first, hfirst, hblank⟩
    have hrun : plainRun false soFar.behind.rest = word := by
      rw [h, plainRun_line hs, hword]
    have hpeek : (soFar.behind.peek == '#') = false := by
      obtain ⟨t, rfl⟩ : ∃ t, s = first :: t := by
        cases s with
        | nil => cases hfirst
        | cons d t => exact ⟨t, by rw [Option.some.inj hfirst]⟩
      rw [peek_of_rest h]
      exact beq_eq_false_iff_ne.mpr hcomment
    rcases hmore with rfl | ⟨blanks, ch, more, rfl, hbne, hblanks, hch, hhash⟩
    · exact plainPieces_end fuel hrun hne hunbroken hpeek h hsize hstop hsep hn
    · have h' : soFar.behind.rest = word ++ (blanks ++ ch :: (more ++ '\n' ::
          (List.replicate k '\n' ++ (List.replicate n ' ' ++ rest)))) := by
        rw [h]
        simp
      have hon : ReadsOn (ch :: more) :=
        ReadsOn.of_append (s := word ++ blanks) (by simpa using hs)
      have hin : isBreak ch = false := isBreak_of_inline (hon.inline ch List.mem_cons_self)
      obtain ⟨stop, c₁, hpasses, hrest, hpieces⟩ :=
        plainPieces_word fuel hrun hne hunbroken hpeek h' hbne hblanks hch hhash hin hcolumn
      have hlength : (ch :: more).length ≤ fuel := by
        have := List.length_pos_iff.mpr hne
        simp only [List.length_append] at hfuel
        omega
      let soFar₁ : Plain := ⟨soFar.text ++ gap ++ word, stop, false, c₁⟩
      obtain ⟨stop', c', hmore, hr, hsz, hcol, hline⟩ :=
        @ih blanks _ soFar₁ hrest hon ⟨ch, rfl, hch, hhash⟩ hlength
          (hpasses.fits hsize) (Nat.le_trans hcolumn hpasses.column)
      refine ⟨stop', c', ?_, hr, hsz.trans hpasses.size, hcol, hpasses.line ▸ hline⟩
      rw [hpieces, hmore]
      simp [soFar₁]

/-- How a plain scalar begins: not with an indicator, nor with one that a blank follows. -/
def beginsPlain : List Char → Bool
  | [] => false
  | ch :: rest =>
    (ch != ' ' && !Lexer.isIndicator ch) ||
      ((ch == '-' || ch == '?' || ch == ':') && rest.head?.any (· != ' '))

/-- A line that is read as a plain scalar, as it stands. -/
structure ReadsPlain (s : List Char) : Prop extends ReadsOn s where
  begins : beginsPlain s = true

instance (s : List Char) : Decidable (ReadsPlain s) :=
  decidable_of_iff (ReadsOn s ∧ beginsPlain s = true)
    ⟨fun ⟨h, hbegins⟩ => ⟨h, hbegins⟩, fun h => ⟨h.toReadsOn, h.begins⟩⟩

/-- What makes the characters ahead the beginning of a plain scalar. -/
def AtPlain (ch next : Char) : Prop :=
  (isSpaceOrEnd ch = false ∧ Lexer.isIndicator ch = false) ∨
    ((ch = '-' ∨ ch = '?' ∨ ch = ':') ∧ isSpaceOrEnd next = false)

theorem ReadsPlain.first {s : List Char} (hs : ReadsPlain s) (rest : List Char) :
    ∃ ch tail, s = ch :: tail ∧ ch ≠ ' ' ∧ ch ≠ '#' ∧ isBreak ch = false ∧
      AtPlain ch ((tail ++ '\n' :: rest).headD '\x00') := by
  have hbegins := hs.begins
  cases s with
  | nil => cases hbegins
  | cons ch tail =>
    have hinline := hs.inline ch List.mem_cons_self
    have hblank : ch ≠ ' ' := by
      rintro rfl
      cases hbegins
    have hhash : ch ≠ '#' := by
      rintro rfl
      cases hbegins
    refine ⟨ch, tail, rfl, hblank, hhash, isBreak_of_inline hinline, ?_⟩
    simp only [beginsPlain, Bool.or_eq_true, Bool.and_eq_true, bne_iff_ne, beq_iff_eq,
      Bool.not_eq_true', Option.any_eq_true] at hbegins
    rcases hbegins with ⟨-, hindicator⟩ | ⟨hch, next, hnext, hspace⟩
    · refine .inl ⟨?_, hindicator⟩
      rw [isSpaceOrEnd_of_inline hinline]
      exact beq_eq_false_iff_ne.mpr hblank
    · refine .inr ⟨by simpa [or_assoc] using hch, ?_⟩
      cases tail with
      | nil => cases hnext
      | cons x tail =>
        obtain rfl := Option.some.inj hnext
        rw [List.cons_append, List.headD_cons,
          isSpaceOrEnd_of_inline (hs.inline x (by simp))]
        exact beq_eq_false_iff_ne.mpr hspace

/-- The end of a line, empty lines and blanks after it, and what comes then. -/
def lineEnd (k n : Nat) (rest : List Char) : List Char :=
  '\n' :: (List.replicate k '\n' ++ (List.replicate n ' ' ++ rest))

/-- A plain scalar at the end of a line, in a block that stands less far to the right. -/
theorem plainScalar_line (parent : Int) {k n : Nat} {s rest : List Char} {c : Cursor}
    (h : c.rest = s ++ lineEnd k n rest) (hs : ReadsPlain s) (hsize : c.rest.length ≤ c.size)
    (hstop : Stops rest) (hsep : n = 0 → ¬MaySeparate rest) (hn : (n : Int) ≤ parent)
    (hcolumn : parent < c.column) :
    ∃ stop c', plainScalar false parent c = ⟨s, stop, true, c'⟩ ∧ c'.rest = rest ∧
      c'.size = c.size ∧ c'.column = n ∧ c.mark.line < c'.mark.line := by
  have hhead : ∃ ch ∈ s.head?, ch ≠ ' ' ∧ ch ≠ '#' := by
    have hbegins := hs.begins
    cases s with
    | nil => cases hbegins
    | cons ch s =>
      refine ⟨ch, rfl, ?_, ?_⟩
      · rintro rfl
        cases hbegins
      · rintro rfl
        cases hbegins
  have hlength : s.length ≤ c.size + 1 := by
    have := congrArg List.length h
    rw [List.length_append] at this
    omega
  have hleft : n < (parent + 1).toNat := by omega
  have hright : (parent + 1).toNat ≤ c.column := by omega
  let start : Plain := ⟨[], c.mark, false, c⟩
  have hstart : start.behind.rest = s ++ '\n' ::
      (List.replicate k '\n' ++ (List.replicate n ' ' ++ rest)) := h
  exact @plainPieces_line _ k n _ [] s rest start hstart hs.toReadsOn hhead hlength hsize hstop hsep
    hleft hright

theorem isSpaceOrEnd_of_name {ch : Char} (h : isNameChar ch = true) : isSpaceOrEnd ch = false := by
  rw [Bool.eq_false_iff]
  intro hspace
  simp only [isSpaceOrEnd, isBlankOrEnd, isBreakOrEnd, isBreak, endsLine, Bool.or_eq_true,
    beq_iff_eq] at hspace
  rcases hspace with rfl | rfl | rfl | rfl | ((rfl | rfl) | rfl) | rfl <;> cases h

theorem isInline_of_name {ch : Char} (h : isNameChar ch = true) : isInline ch = true := by
  have hvalue : 0x20 ≤ ch.toNat ∧ ch.toNat ≤ 0x7E := by
    have h : ((((ch.isUpper || ch.isLower) || ch.isDigit) || ch == '-') || ch == '_') = true := h
    simp only [Bool.or_eq_true, beq_iff_eq] at h
    rcases h with (((hupper | hlower) | hdigit) | rfl) | rfl
    · have hrange : 65 ≤ ch.toNat ∧ ch.toNat ≤ 90 := of_decide_eq_true hupper
      omega
    · have hrange : (decide (97 ≤ ch.toNat) && decide (ch.toNat ≤ 122)) = true := hlower
      simp only [Bool.and_eq_true, decide_eq_true_eq] at hrange
      omega
    · have hrange : (decide (48 ≤ ch.toNat) && decide (ch.toNat ≤ 57)) = true := hdigit
      simp only [Bool.and_eq_true, decide_eq_true_eq] at hrange
      omega
    · decide
    · decide
  have hspace := isSpaceOrEnd_of_name h
  simp only [isSpaceOrEnd, isBlankOrEnd, isBreakOrEnd, Bool.or_eq_false_iff] at hspace
  unfold isInline isPrintable
  simp [hspace.2.2.2, beq_eq_false_iff_ne.mp hspace.1, hvalue.1, hvalue.2]

theorem endsPlain_of_name {ch : Char} (h : isNameChar ch = true) (next : Char) :
    endsPlain false ch next = false := by
  have hcolon : ch ≠ ':' := by
    rintro rfl
    cases h
  unfold endsPlain
  rw [isSpaceOrEnd_of_name h, beq_eq_false_iff_ne.mpr hcolon]
  rfl

/-- A name that a colon and a blank or a line feed follow. -/
theorem plainScalar_key (parent : Int) {key rest : List Char} {ch : Char} {c : Cursor}
    (h : c.rest = key ++ ':' :: ch :: rest) (hkey : ∀ x ∈ key, isNameChar x = true)
    (hne : key ≠ []) (hch : isSpaceOrEnd ch = true) :
    ∃ stop c', plainScalar false parent c = ⟨key, stop, false, c'⟩ ∧ c.Passes key c' ∧
      c'.rest = ':' :: ch :: rest := by
  -- The colon ends the run, as a blank or a line feed follows.
  have hend : plainRun false (':' :: ch :: rest) = [] := by
    simp [plainRun, endsPlain, hch]
  have hrun : plainRun false c.rest = key := by
    rw [h]
    clear h hne
    induction key with
    | nil => exact hend
    | cons x key ih =>
      have hx := hkey x List.mem_cons_self
      rw [List.cons_append, plainRun, endsPlain_of_name hx,
        ih fun y hy => hkey y (List.mem_cons_of_mem x hy)]
      rfl
  have hunbroken : ∀ x ∈ key, isBreak x = false := by
    intro x hx
    have hspace := isSpaceOrEnd_of_name (hkey x hx)
    simp only [isSpaceOrEnd, isBlankOrEnd, isBreakOrEnd, Bool.or_eq_false_iff] at hspace
    exact hspace.2.2.2
  have hpasses := passes_advance h hunbroken
  have hrest : (c.advance key.length).rest = ':' :: ch :: rest := by
    rw [rest_advance, h, List.drop_left]
  have hpeek : (c.peek == '#') = false := by
    obtain ⟨x, key, rfl⟩ := List.exists_cons_of_ne_nil hne
    rw [peek_of_rest h]
    refine beq_eq_false_iff_ne.mpr ?_
    rintro rfl
    cases hkey '#' List.mem_cons_self
  obtain ⟨c', hgap, hpasses', hrest'⟩ :=
    @plainGap_blanks (c.advance key.length) [] (ch :: rest) ':' hrest (by simp) (by decide) rfl
  have hempty : key.isEmpty = false := by simpa using hne
  have hall := hpasses.trans hpasses'
  rw [List.append_nil] at hall
  refine ⟨(c.advance key.length).mark, c', ?_, hall, hrest'⟩
  unfold plainScalar plainPieces
  simp [hrun, hpeek, hempty, hgap]

end EditorLint.Yaml
