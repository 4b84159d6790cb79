import EditorLint.Proofs.PlainScalar

/-!
# How tokens are read

What one round of the lexer does.  Comments and empty lines are passed before a token; the
next token is fetched by the character ahead; and a token is delivered once nothing holds
it back.  `Emits` puts rounds together: from one state to another, with the tokens that are
delivered on the way.
-/

namespace EditorLint.Yaml

open Cursor

namespace Lexer

/-! ## Between two tokens -/

def linesText (ls : List (List Char)) : List Char := ls.flatMap (· ++ ['\n'])

/-- A line that is no more than a comment, or empty. -/
def IsRemark (line : List Char) : Prop :=
  (line = [] ∨ line.head? = some '#') ∧ ∀ ch ∈ line, isInline ch = true

instance (line : List Char) : Decidable (IsRemark line) :=
  decidable_of_iff ((line = [] ∨ line.head? = some '#') ∧ line.all isInline = true)
    (and_congr_right fun _ => List.all_eq_true)

theorem skip_blanks {c : Cursor} {n : Nat} {rest : List Char}
    (h : c.rest = List.replicate n ' ' ++ rest) (hrest : ∀ ch ∈ rest.head?, ch ≠ ' ') :
    c.Passes (List.replicate n ' ') (c.skip (· == ' ')) ∧ (c.skip (· == ' ')).rest = rest := by
  obtain ⟨c', hspan, hpasses, hr⟩ := passes_span (p := (· == ' ')) h
    (fun x hx => beq_iff_eq.mpr (List.eq_of_mem_replicate hx))
    (fun x hx => beq_eq_false_iff_ne.mpr (hrest x hx))
    (fun x hx => by rw [List.eq_of_mem_replicate hx]; rfl)
  have hskip : c.skip (· == ' ') = c' := by
    unfold Cursor.skip
    rw [hspan]
  rw [hskip]
  exact ⟨hpasses, hr⟩

theorem peek_ne {c : Cursor} {x : Char} (h : c.rest.head? ≠ some x) (hx : x ≠ '\x00') :
    (c.peek == x) = false := by
  refine beq_eq_false_iff_ne.mpr fun he => ?_
  cases hr : c.rest with
  | nil =>
    rw [peek, peekAt, hr] at he
    exact hx he.symm
  | cons ch rest =>
    rw [peek_of_rest hr] at he
    rw [hr, he] at h
    exact h rfl

theorem skip_remark {c : Cursor} {line rest : List Char} (h : c.rest = line ++ '\n' :: rest)
    (hline : IsRemark line) :
    let c' := c.skip (· == ' ')
    let c'' := if c'.peek == '#' then c'.skip (!isBreakOrEnd ·) else c'
    c.Passes line c'' ∧ c''.rest = '\n' :: rest := by
  intro c' c''
  obtain ⟨hkind, hinline⟩ := hline
  -- A remark is empty or begins with `#`: no blank is skipped before it.
  have hfirst : ∀ ch ∈ (line ++ '\n' :: rest).head?, ch ≠ ' ' := by
    rintro ch hch rfl
    rcases hkind with rfl | hhash
    · cases hch
    · cases line with
      | nil => cases hhash
      | cons d line =>
        cases hch
        cases hhash
  obtain ⟨hpasses, hrest⟩ := skip_blanks (n := 0) h hfirst
  rcases hkind with rfl | hhash
  · have hpeek : (c'.peek == '#') = false := peek_ne (by rw [hrest]; simp) (by decide)
    have hsame : c'' = c' := by simp [c'', hpeek]
    rw [hsame]
    exact ⟨hpasses, hrest⟩
  · obtain ⟨t, rfl⟩ : ∃ t, line = '#' :: t := by
      cases line with
      | nil => cases hhash
      | cons d t => exact ⟨t, by rw [Option.some.inj hhash]⟩
    have hpeek : c'.peek = '#' := peek_of_rest hrest
    obtain ⟨c₁, hspan, hpasses₁, hrest₁⟩ := passes_span (p := (!isBreakOrEnd ·)) hrest
      (fun x hx => by rw [isBreakOrEnd_of_inline (hinline x hx)]; rfl)
      (fun x hx => by
        obtain rfl := Option.some.inj hx
        rfl)
      (fun x hx => isBreak_of_inline (hinline x hx))
    have hsame : c'' = c₁ := by
      simp only [c'', hpeek]
      show (c'.span (!isBreakOrEnd ·)).2 = c₁
      rw [hspan]
    rw [hsame]
    exact ⟨hpasses.trans hpasses₁, hrest₁⟩

theorem skipBlanks_remarks {ls : List (List Char)} {n fuel : Nat} {l : Lexer} {rest : List Char}
    (h : l.cursor.rest = linesText ls ++ (List.replicate n ' ' ++ rest))
    (hls : ∀ line ∈ ls, IsRemark line) (hstop : Stops rest) (hremark : rest.head? ≠ some '#')
    (hnesting : l.nesting = 0) (hfuel : ls.length < fuel) :
    ∃ c, skipBlanks fuel l = { l with cursor := c, keyAllowed := l.keyAllowed || !ls.isEmpty } ∧
      c.rest = rest ∧ c.size = l.cursor.size ∧
      c.column = (if ls.isEmpty then l.cursor.column + n else n) ∧
      (ls = [] → l.cursor.Passes (List.replicate n ' ') c) := by
  -- Line by line, one unit of fuel for each; a line break allows a key again.
  induction ls generalizing fuel l with
  | nil =>
    obtain ⟨fuel, rfl⟩ : ∃ j, fuel = j + 1 := ⟨fuel - 1, by omega⟩
    obtain ⟨hpasses, hrest⟩ := skip_blanks h fun x hx => (hstop x hx).1
    refine ⟨_, ?_, hrest, hpasses.size, ?_, fun _ => hpasses⟩
    · have hpeek := peek_ne (c := l.cursor.skip (· == ' ')) (x := '#')
        (by rw [hrest]; exact hremark) (by decide)
      rw [skipBlanks, hpeek]
      simp [(hstop.peek hrest).2]
    · rw [hpasses.exact (by simp)]
      simp
  | cons line ls ih =>
    obtain ⟨fuel, rfl⟩ : ∃ j, fuel = j + 1 := ⟨fuel - 1, by omega⟩
    have h' : l.cursor.rest = line ++ '\n' :: (linesText ls ++ (List.replicate n ' ' ++ rest)) := by
      rw [h, linesText, List.flatMap_cons]
      simp [linesText]
    obtain ⟨hpasses, hrest⟩ := skip_remark h' (hls line List.mem_cons_self)
    generalize hc₀ : (if (l.cursor.skip (· == ' ')).peek == '#' then
      (l.cursor.skip (· == ' ')).skip (!isBreakOrEnd ·) else l.cursor.skip (· == ' ')) = c₀
      at hpasses hrest
    obtain ⟨c₁, hbreak, hfeeds, hrest₁⟩ := feeds_lineBreak hrest
    let l₁ : Lexer := { l with cursor := c₁, keyAllowed := true }
    have hfuel₁ : ls.length < fuel := Nat.lt_of_succ_lt_succ hfuel
    obtain ⟨c, hskip, hr, hsize, hcolumn, -⟩ :=
      ih (l := l₁) hrest₁ (fun x hx => hls x (List.mem_cons_of_mem line hx)) hnesting hfuel₁
    refine ⟨c, ?_, hr, ?_, ?_, fun hnil => by cases hnil⟩
    · have hl₁ : ({ l with cursor := c₁, keyAllowed := l.keyAllowed || l.nesting == 0 } : Lexer) =
          l₁ := by
        simp [l₁, hnesting]
      rw [skipBlanks, hc₀, peek_of_rest hrest, hbreak]
      refine (congrArg (skipBlanks fuel) hl₁).trans ?_
      rw [hskip]
      simp [l₁]
    · rw [hsize, ← hpasses.size]
      exact hfeeds.size
    · rw [hcolumn]
      have hzero : l₁.cursor.column = 0 := hfeeds.column
      rw [hzero, Nat.zero_add, ite_self]
      rfl

/-! ## Fetching a token -/

@[simp] theorem cursor_unwindTo (column : Int) (outer : List Int) (l : Lexer) :
    (unwindTo column outer l).cursor = l.cursor := by
  induction outer generalizing l with
  | nil => rfl
  | cons i outer ih =>
    unfold unwindTo
    split
    · rw [ih]
      rfl
    · rfl

@[simp] theorem nesting_unwindTo (column : Int) (outer : List Int) (l : Lexer) :
    (unwindTo column outer l).nesting = l.nesting := by
  induction outer generalizing l with
  | nil => rfl
  | cons i outer ih =>
    unfold unwindTo
    split
    · rw [ih]
      rfl
    · rfl

@[simp] theorem cursor_unwind (l : Lexer) (column : Int) : (l.unwind column).cursor = l.cursor := by
  unfold unwind
  split <;> simp

@[simp] theorem nesting_unwind (l : Lexer) (column : Int) :
    (l.unwind column).nesting = l.nesting := by
  unfold unwind
  split <;> simp

theorem ne_of_isIndicator {ch x : Char} (h : isIndicator ch = false) (hx : isIndicator x = true) :
    (ch == x) = false := by
  refine beq_eq_false_iff_ne.mpr ?_
  rintro rfl
  rw [h] at hx
  cases hx

theorem fetch_plain {l l₁ : Lexer} {ch : Char} {rest : List Char}
    (h : l.skipToToken.dropStale = .ok l₁) (hnesting : l₁.nesting = 0)
    (hrest : l₁.cursor.rest = ch :: rest) (hplain : AtPlain ch (rest.headD '\x00'))
    (hsep : l₁.cursor.column = 0 → ch ≠ '-' ∧ ch ≠ '.') :
    l.fetch = (l₁.unwind l₁.cursor.column).plain := by
  have hpeek : l₁.cursor.peek = ch := peek_of_rest hrest
  have hnext : l₁.cursor.peekAt 1 = rest.headD '\x00' := by
    unfold peekAt
    rw [hrest]
    cases rest <;> rfl
  have hempty : l₁.cursor.rest.isEmpty = false := by rw [hrest]; rfl
  generalize rest.headD '\x00' = next at hplain hnext
  -- Where a line between documents could begin, the character is another one.
  have hline (x : Char) (hx : x = '-' ∨ x = '.') :
      (ch == x && l₁.cursor.column == 0) = false := by
    cases hcolumn : l₁.cursor.column == 0 with
    | false => rw [Bool.and_false]
    | true =>
      obtain ⟨hminus, hpoint⟩ := hsep (beq_iff_eq.mp hcolumn)
      rcases hx with rfl | rfl
      · rw [beq_eq_false_iff_ne.mpr hminus, Bool.false_and]
      · rw [beq_eq_false_iff_ne.mpr hpoint, Bool.false_and]
  have hminus := hline '-' (.inl rfl)
  have hpoint := hline '.' (.inr rfl)
  have hstarts : (l₁.unwind l₁.cursor.column).startsPlain = true := by
    unfold startsPlain
    simp only [cursor_unwind, nesting_unwind, hnesting, hpeek, hnext]
    rcases hplain with ⟨hspace, hindicator⟩ | ⟨hch, hspace⟩
    · rw [hspace, hindicator]
      rfl
    · rw [hspace]
      rcases hch with rfl | rfl | rfl <;> simp
  unfold fetch
  rw [h]
  show (if (l₁.unwind l₁.cursor.column).cursor.rest.isEmpty = true then _ else _) = _
  simp only [cursor_unwind, nesting_unwind, hnesting, hempty, hpeek, hnext, hstarts, hminus, hpoint]
  rcases hplain with ⟨-, hi⟩ | ⟨hch, hspace⟩
  · have hne (x : Char) (hx : isIndicator x = true) : (ch == x) = false := ne_of_isIndicator hi hx
    simp only [hne '%' rfl, hne '[' rfl, hne '\x7b' rfl, hne ']' rfl, hne '\x7d' rfl, hne ',' rfl,
      hne '-' rfl, hne '?' rfl, hne ':' rfl, hne '*' rfl, hne '&' rfl, hne '!' rfl, hne '|' rfl,
      hne '>' rfl, hne '\'' rfl, hne '"' rfl, Bool.false_and, Bool.false_eq_true, if_false, if_true]
  · rcases hch with rfl | rfl | rfl <;> simp [hspace]

theorem peekAt_one {c : Cursor} {ch next : Char} {rest : List Char}
    (h : c.rest = ch :: next :: rest) : c.peekAt 1 = next := by
  simp [peekAt, h]

theorem fetch_value {l l₁ : Lexer} {next : Char} {rest : List Char}
    (h : l.skipToToken.dropStale = .ok l₁) (hrest : l₁.cursor.rest = ':' :: next :: rest)
    (hnext : isSpaceOrEnd next = true) : l.fetch = (l₁.unwind l₁.cursor.column).value := by
  have hempty : l₁.cursor.rest.isEmpty = false := by rw [hrest]; rfl
  unfold fetch
  rw [h]
  show (if (l₁.unwind l₁.cursor.column).cursor.rest.isEmpty = true then _ else _) = _
  simp [hempty, peek_of_rest hrest, peekAt_one hrest, hnext]

theorem fetch_entry {l l₁ : Lexer} {next : Char} {rest : List Char}
    (h : l.skipToToken.dropStale = .ok l₁) (hrest : l₁.cursor.rest = '-' :: next :: rest)
    (hnext : isSpaceOrEnd next = true) (hcolumn : l₁.cursor.column ≠ 0) :
    l.fetch = (l₁.unwind l₁.cursor.column).entry := by
  have hempty : l₁.cursor.rest.isEmpty = false := by rw [hrest]; rfl
  unfold fetch
  rw [h]
  show (if (l₁.unwind l₁.cursor.column).cursor.rest.isEmpty = true then _ else _) = _
  simp [hempty, peek_of_rest hrest, peekAt_one hrest, hnext, hcolumn]

theorem fetch_end {l l₁ : Lexer} (h : l.skipToToken.dropStale = .ok l₁)
    (hrest : l₁.cursor.rest = []) : l.fetch = (l₁.unwind l₁.cursor.column).endStream := by
  have hempty : l₁.cursor.rest.isEmpty = true := by rw [hrest]; rfl
  unfold fetch
  rw [h]
  show (if (l₁.unwind l₁.cursor.column).cursor.rest.isEmpty = true then _ else _) = _
  simp [hempty]

/-! ## Delivering tokens -/

/-- A lexer that comes within some rounds to another one, and has delivered tokens of some
kinds then. -/
def Emits (n : Nat) (l : Lexer) (kinds : List TokenKind) (l' : Lexer) : Prop :=
  ∃ k ≤ n, ∃ ts : List Token, ts.map (·.kind) = kinds ∧
    ∀ fuel, l.run none (k + fuel) = (ts ++ (l'.run none fuel).1, (l'.run none fuel).2)

namespace Emits

variable {n n' : Nat} {l l' l'' : Lexer} {kinds kinds' : List TokenKind}

theorem refl (l : Lexer) : Emits 0 l [] l := ⟨0, Nat.le_refl 0, [], rfl, fun fuel => by simp⟩

theorem trans (h : Emits n l kinds l') (h' : Emits n' l' kinds' l'') :
    Emits (n + n') l (kinds ++ kinds') l'' := by
  obtain ⟨k, hk, ts, rfl, hrun⟩ := h
  obtain ⟨k', hk', ts', rfl, hrun'⟩ := h'
  refine ⟨k + k', Nat.add_le_add hk hk', ts ++ ts', List.map_append, fun fuel => ?_⟩
  rw [Nat.add_assoc, hrun, hrun']
  simp

theorem mono (h : Emits n l kinds l') (hn : n ≤ n') : Emits n' l kinds l' := by
  obtain ⟨k, hk, hrest⟩ := h
  exact ⟨k, Nat.le_trans hk hn, hrest⟩

end Emits

theorem dropStale_of_none {l : Lexer} (h : l.candidates = []) : l.dropStale = .ok l := by
  unfold dropStale
  rw [h]
  show Except.ok { l with candidates := [] } = _
  rw [← h]

theorem emits_free {l l₁ : Lexer} {t : Token} {rest : List Token} (hdone : l.done = false)
    (hheld : l.held = t :: rest) (hstale : l.dropStale = .ok l₁) (hfree : l₁.isHeldBack = false) :
    Emits 1 l [t.kind] { l₁ with held := rest, delivered := l₁.delivered + 1 } := by
  refine ⟨1, Nat.le_refl 1, [t], rfl, fun fuel => ?_⟩
  have hgoes : ¬l.done = true := by simp [hdone]
  have hback : ¬l₁.isHeldBack = true := by simp [hfree]
  rw [Nat.add_comm 1 fuel, run, if_neg hgoes, hheld]
  dsimp only
  rw [hstale]
  dsimp only
  rw [if_neg hback]
  rfl

theorem emits_token {l : Lexer} {t : Token} {rest : List Token} (hdone : l.done = false)
    (hheld : l.held = t :: rest) (hcandidates : l.candidates = []) :
    Emits 1 l [t.kind] { l with held := rest, delivered := l.delivered + 1 } := by
  have hfree : l.isHeldBack = false := by
    unfold isHeldBack
    rw [hcandidates]
    rfl
  exact emits_free hdone hheld (dropStale_of_none hcandidates) hfree

theorem emits_tokens {l : Lexer} (hdone : l.done = false) (hcandidates : l.candidates = []) :
    Emits l.held.length l (l.held.map (·.kind))
      { l with held := [], delivered := l.delivered + l.held.length } := by
  obtain ⟨ts, hts⟩ : ∃ ts, l.held = ts := ⟨_, rfl⟩
  rw [hts]
  induction ts generalizing l with
  | nil =>
    have hsame : ({ l with held := [], delivered := l.delivered + 0 } : Lexer) = l := by
      rw [← hts]
      rfl
    show Emits 0 l [] { l with held := [], delivered := l.delivered + 0 }
    rw [hsame]
    exact .refl l
  | cons t ts ih =>
    have hfirst := emits_token hdone hts hcandidates
    have hmore :=
      ih (l := { l with held := ts, delivered := l.delivered + 1 }) hdone hcandidates rfl
    have hall := hfirst.trans hmore
    have hcount : l.delivered + 1 + ts.length = l.delivered + (t :: ts).length := by
      rw [List.length_cons]
      omega
    rw [Nat.add_comm 1, hcount] at hall
    exact hall

theorem step_none (l : Lexer) : l.step none = l.fetch := by
  unfold step
  generalize l.fetch = result
  cases result <;> rfl

theorem emits_fetch {l l' : Lexer} (hdone : l.done = false) (hheld : l.held = [])
    (hfetch : l.fetch = .ok l') : Emits 1 l [] l' := by
  refine ⟨1, Nat.le_refl 1, [], rfl, fun fuel => ?_⟩
  rw [Nat.add_comm 1 fuel, run]
  simp only [hdone, hheld, step_none, hfetch]
  rfl

theorem emits_held {l l' : Lexer} {t : Token} {rest : List Token} (hdone : l.done = false)
    (hheld : l.held = t :: rest) (hstale : l.dropStale = .ok l) (hback : l.isHeldBack = true)
    (hfetch : l.fetch = .ok l') : Emits 1 l [] l' := by
  refine ⟨1, Nat.le_refl 1, [], rfl, fun fuel => ?_⟩
  rw [Nat.add_comm 1 fuel, run]
  simp only [hdone, hheld, hstale, hback, step_none, hfetch]
  rfl

end Lexer

end EditorLint.Yaml
