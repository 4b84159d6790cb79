import EditorLint.Proofs.BlockTokens

/-!
# Flat documents

A flat document has one mapping, whose values are plain scalars or lists of them, one to
a line, with comments and empty lines around its entries.  Its tokens are those of its
entries in order; comments and empty lines leave nothing behind.
-/

namespace EditorLint.Yaml

namespace Lexer

/-- A lexer that comes to the end of the document within some rounds, and delivers tokens of
some kinds on the way. -/
def Ends (n : Nat) (l : Lexer) (kinds : List TokenKind) : Prop :=
  ∃ ts : List Token, ts.map (·.kind) = kinds ∧ ∀ fuel, n ≤ fuel → l.run none fuel = (ts, none)

theorem Emits.ends {n n' : Nat} {l l' : Lexer} {kinds kinds' : List TokenKind}
    (h : Emits n l kinds l') (h' : Ends n' l' kinds') : Ends (n + n') l (kinds ++ kinds') := by
  obtain ⟨k, hk, ts, rfl, hrun⟩ := h
  obtain ⟨ts', rfl, hends⟩ := h'
  refine ⟨ts ++ ts', List.map_append, fun fuel hfuel => ?_⟩
  obtain ⟨fuel, rfl⟩ : ∃ j, fuel = k + j := ⟨fuel - k, by omega⟩
  have hleft : n' ≤ fuel := by omega
  rw [hrun, hends fuel hleft]

theorem Ends.mono {n n' : Nat} {l : Lexer} {kinds : List TokenKind} (h : Ends n l kinds)
    (hn : n ≤ n') : Ends n' l kinds := by
  obtain ⟨ts, hts, hends⟩ := h
  exact ⟨ts, hts, fun fuel hfuel => hends fuel (Nat.le_trans hn hfuel)⟩

def Depth.closingAll : Depth → List TokenKind
  | outside => []
  | mapping | items => [.blockEnd]

/-- Remarks at the end bring the tokens that close what is open, and the last one. -/
theorem reads_end {d : Depth} {ls : List (List Char)} {l : Lexer}
    (h : l.Rests d true (linesText ls)) (hls : ∀ line ∈ ls, IsRemark line)
    (hcolumn : l.cursor.column = 0) :
    Ends 2 l (d.closing ++ d.closingAll ++ [.streamEnd]) := by
  have hahead : l.Rests d true (linesText ls ++ (List.replicate 0 ' ' ++ [])) := by
    rw [List.replicate_zero, List.nil_append, List.append_nil]
    exact h
  obtain ⟨c, hskip, hrest, -, hcol⟩ := hahead.skip hls (fun y hy => by cases hy) (by simp)
  have hzero : c.column = 0 := by
    rw [hcol, hcolumn]
    exact ite_self 0
  let l₁ : Lexer := { l with cursor := c, keyAllowed := true || !ls.isEmpty }
  obtain ⟨ts, hts, hunwind⟩ := unwind_key (l := l₁) h.nesting h.indent h.outer
  let l₂ : Lexer := { l₁ with
    held := l₁.held ++ ts, indent := d.atKey.indent, outer := d.atKey.outer }
  have hunwind' : l₁.unwind l₁.cursor.column = l₂ := by
    rw [show l₁.cursor.column = 0 from hzero]
    exact hunwind
  -- Behind the last line everything is closed, and only a mapping may be open there.
  obtain ⟨ts', hts', hclose⟩ : ∃ ts' : List Token, ts'.map (·.kind) = d.closingAll ∧
      l₂.unwind (-1) = { l₂ with held := ts ++ ts', indent := -1, outer := [] } := by
    have hheld : l₂.held = ts := by
      show l.held ++ ts = ts
      rw [h.held, List.nil_append]
    have hout : l₂.unwind (-1) = unwindTo (-1) d.atKey.outer l₂ := by
      unfold unwind
      rw [show l₂.nesting = 0 from h.nesting]
      rfl
    rw [hout]
    cases d with
    | outside =>
      refine ⟨[], rfl, ?_⟩
      rw [List.append_nil, ← hheld]
      rfl
    | _ =>
      refine ⟨[⟨.blockEnd, l₂.mark, l₂.mark⟩], rfl, ?_⟩
      have hleave : l₂.indent > -1 := by
        show (0 : Int) > -1
        decide
      show unwindTo (-1) [-1] l₂ = _
      rw [unwindTo, if_pos hleave, unwindTo, ← hheld]
      rfl
  let l₃ : Lexer := { l₂ with held := ts ++ ts', indent := -1, outer := [] }
  have hgive : l₃.giveUp = .ok l₃ := by
    unfold giveUp candidate?
    rw [show l₃.candidates = [] from h.candidates]
    rfl
  have hfetch : l.fetch = .ok { l₃.pushHere .streamEnd with
      keyAllowed := false, candidates := [], done := true } := by
    rw [fetch_end hskip hrest, hunwind']
    unfold endStream
    rw [hclose, hgive]
    rfl
  refine ⟨ts ++ ts' ++ [⟨.streamEnd, l₃.mark, l₃.mark⟩], ?_, fun fuel hfuel => ?_⟩
  · rw [List.map_append, List.map_append, hts, hts']
    rfl
  -- One step brings the tokens, and the next one finds that there are no more.
  · obtain ⟨fuel, rfl⟩ : ∃ j, fuel = j + 2 := ⟨fuel - 2, by omega⟩
    have hgoes : ¬l.done = true := by simp [h.running]
    rw [run, if_neg hgoes, h.held]
    dsimp only
    rw [step_none, hfetch]
    rfl

/-- What can stand behind an entry and the empty lines after it: nothing, a comment, or a
key. -/
def Follows (rest : List Char) : Prop :=
  ∀ ch ∈ rest.head?, ch = '#' ∨ (isNameChar ch = true ∧ ch ≠ '-')

namespace Follows

variable {rest : List Char}

theorem stops (h : Follows rest) : Stops rest := by
  intro ch hch
  rcases h ch hch with rfl | ⟨hname, -⟩
  · exact ⟨by decide, rfl⟩
  · have hspace := isSpaceOrEnd_of_name hname
    simp only [isSpaceOrEnd, isBlankOrEnd, isBreakOrEnd, Bool.or_eq_false_iff] at hspace
    exact ⟨beq_eq_false_iff_ne.mp hspace.2.1, hspace.2.2.2⟩

theorem noSeparator (h : Follows rest) : ¬MaySeparate rest := by
  rintro ⟨ch, hch, hsep⟩
  rcases h ch hch with rfl | ⟨hname, hminus⟩
  · rcases hsep with hsep | hsep <;> cases hsep
  · rcases hsep with rfl | rfl
    · exact hminus rfl
    · cases hname

theorem unmarked (h : Follows rest) : rest.head? ≠ some '\uFEFF' := by
  intro he
  rcases h '\uFEFF' he with hch | ⟨hname, -⟩
  · cases hch
  · cases hname

end Follows

def itemLine (item : List Char) : List Char := ' ' :: ' ' :: '-' :: ' ' :: item

def itemKinds (item : List Char) : List TokenKind := [.blockEntry, .scalar (Text.ofChars item) true]

@[simp] theorem linesText_nil : linesText [] = [] := rfl

theorem linesText_cons (line : List Char) (ls : List (List Char)) :
    linesText (line :: ls) = line ++ '\n' :: linesText ls := by
  simp [linesText]

theorem linesText_append (ls ls' : List (List Char)) :
    linesText (ls ++ ls') = linesText ls ++ linesText ls' := List.flatMap_append

theorem reads_items {d : Depth} {allowed : Bool} (ls : List (List Char)) {more : List (List Char)}
    {n k : Nat} {item rest : List Char} {l : Lexer}
    (h : l.Rests d allowed (linesText ls ++ (List.replicate n ' ' ++ '-' :: ' ' ::
      (item ++ '\n' :: (linesText (more.map itemLine) ++ (List.replicate k '\n' ++ rest))))))
    (hd : d ≠ .outside) (hls : ∀ line ∈ ls, IsRemark line)
    (hallowed : (allowed || !ls.isEmpty) = true)
    (hcolumn : (if ls.isEmpty then l.cursor.column + n else n) = 2)
    (hitems : ∀ x ∈ item :: more, ReadsPlain x) (hrest : Follows rest) :
    ∃ l', Emits (5 * (more.length + 1)) l (d.openingItems ++ (item :: more).flatMap itemKinds) l' ∧
      l'.Rests .items true rest ∧ l'.cursor.column = 0 := by
  -- On the items behind the first one, each on a line of its own.
  induction more generalizing d allowed ls n item l with
  | nil =>
    obtain ⟨l₁, hentry, hrests₁, hcolumn₁⟩ := reads_entry h hd hls hallowed hcolumn
    have hright : Depth.items.indent < l₁.cursor.column := by
      rw [hcolumn₁]
      decide
    obtain ⟨l₂, hscalar, hrests₂, hcolumn₂⟩ := reads_scalar (k := k) (m := 0) hrests₁
      (hitems item List.mem_cons_self) hrest.stops (fun _ => hrest.noSeparator) hrest.unmarked
      (by decide) hright
    have hall := hentry.trans hscalar
    rw [List.append_assoc] at hall
    exact ⟨l₂, hall, hrests₂, hcolumn₂⟩
  | cons next more ih =>
    have hlines : linesText ((next :: more).map itemLine) ++ (List.replicate k '\n' ++ rest) =
        ' ' :: ' ' :: '-' :: ' ' ::
          (next ++ '\n' :: (linesText (more.map itemLine) ++ (List.replicate k '\n' ++ rest))) := by
      simp [linesText_cons, itemLine]
    rw [hlines] at h
    obtain ⟨l₁, hentry, hrests₁, hcolumn₁⟩ := reads_entry h hd hls hallowed hcolumn
    have hright : Depth.items.indent < l₁.cursor.column := by
      rw [hcolumn₁]
      decide
    have hstop : Stops ('-' :: ' ' :: (next ++ '\n' ::
        (linesText (more.map itemLine) ++ (List.replicate k '\n' ++ rest)))) := by
      intro ch hch
      obtain rfl := Option.some.inj hch
      exact ⟨by decide, rfl⟩
    obtain ⟨l₂, hscalar, hrests₂, hcolumn₂⟩ := reads_scalar (k := 0) (m := 2) hrests₁
      (hitems item List.mem_cons_self) hstop (by simp) (by simp) (by decide) hright
    obtain ⟨l₃, hmore, hrests₃, hcolumn₃⟩ := ih [] (n := 0) hrests₂ (by decide) (by simp)
      rfl hcolumn₂ fun x hx => hitems x (List.mem_cons_of_mem item hx)
    have hall := (hentry.trans hscalar).trans hmore
    have hcount : 3 + 2 + 5 * (more.length + 1) = 5 * ((next :: more).length + 1) := by
      rw [List.length_cons]
      omega
    rw [hcount, List.append_assoc, List.append_assoc] at hall
    exact ⟨l₃, hall, hrests₃, hcolumn₃⟩

end Lexer

open Lexer

/-- An entry of a flat document: a text, or a list of texts. -/
inductive FlatEntry where
  | text (key value : List Char)
  | list (key : List Char) (items : List (List Char))

namespace FlatEntry

def lines : FlatEntry → List (List Char)
  | text key value => [key ++ ':' :: ' ' :: value]
  | list key items => (key ++ [':']) :: items.map itemLine

def key : FlatEntry → List Char
  | text key _ | list key _ => key

def valueKinds : FlatEntry → List TokenKind
  | text _ value => [.scalar (Text.ofChars value) true]
  | list _ items => .blockSequenceStart :: (items.flatMap itemKinds ++ [.blockEnd])

def kinds (e : FlatEntry) : List TokenKind :=
  .key :: .scalar (Text.ofChars e.key) true :: .value :: e.valueKinds

/-- Whether the texts of an entry are read as they stand. -/
def Reads : FlatEntry → Prop
  | text key value => IsKey key ∧ ReadsPlain value
  | list key items => IsKey key ∧ items ≠ [] ∧ ∀ item ∈ items, ReadsPlain item

theorem follows {e : FlatEntry} (h : e.Reads) (rest : List Char) :
    Follows (linesText e.lines ++ rest) := by
  have hkey {key : List Char} (hkey : IsKey key) (more : List Char) : Follows (key ++ more) := by
    obtain ⟨ch, tail, rfl, hminus, hname⟩ := hkey.first
    intro x hx
    obtain rfl := Option.some.inj hx
    exact .inr ⟨hname, hminus⟩
  cases e with
  | text key value =>
    rw [lines, linesText_cons, List.append_assoc, List.append_assoc]
    exact hkey h.1 _
  | list key items =>
    rw [lines, linesText_cons, List.append_assoc, List.append_assoc]
    exact hkey h.1 _

/-- The tokens of an entry come, but for one that closes a list: what follows brings it. -/
theorem emits {e : FlatEntry} {d : Depth} {ls : List (List Char)} {k : Nat} {rest : List Char}
    {l : Lexer} (h : l.Rests d true
      (linesText ls ++ (linesText e.lines ++ (List.replicate k '\n' ++ rest))))
    (he : e.Reads) (hls : ∀ line ∈ ls, IsRemark line) (hcolumn : l.cursor.column = 0)
    (hrest : Follows rest) :
    ∃ d' kinds l', d' ≠ .outside ∧ kinds ++ d'.closing = e.kinds ∧
      Emits (16 * (linesText e.lines).length) l (d.closing ++ d.opening ++ kinds) l' ∧
      l'.Rests d' true rest ∧ l'.cursor.column = 0 := by
  cases e with
  | text key value =>
    obtain ⟨hkey, hvalue⟩ := he
    have hline : linesText (text key value).lines ++ (List.replicate k '\n' ++ rest) =
        key ++ ':' :: ' ' :: (value ++ lineEnd k 0 rest) := by
      simp [lines, linesText_cons, lineEnd]
    rw [hline] at h
    obtain ⟨l₁, hemits₁, hrests₁, hcolumn₁⟩ := reads_key h hls hkey rfl hcolumn
    have hright : Depth.mapping.indent < l₁.cursor.column := by
      show (0 : Int) < _
      omega
    obtain ⟨l₂, hemits₂, hrests₂, hcolumn₂⟩ := reads_scalar hrests₁ hvalue hrest.stops
      (fun _ => hrest.noSeparator) hrest.unmarked (by decide) hright
    have hall := hemits₁.trans hemits₂
    have hcount : 7 + 2 ≤ 16 * (linesText (text key value).lines).length := by
      have := length_linesText (text key value).lines
      rw [show (text key value).lines.length = 1 from rfl] at this
      omega
    refine ⟨.mapping, (text key value).kinds, l₂, by decide, List.append_nil _, ?_, hrests₂,
      hcolumn₂⟩
    rw [List.append_assoc, List.append_assoc] at hall
    rw [List.append_assoc]
    exact hall.mono hcount
  | list key items =>
    obtain ⟨hkey, hne, hitems⟩ := he
    obtain ⟨item, more, rfl⟩ := List.exists_cons_of_ne_nil hne
    have hline : linesText (list key (item :: more)).lines ++ (List.replicate k '\n' ++ rest) =
        key ++ ':' :: '\n' :: (' ' :: ' ' :: '-' :: ' ' ::
          (item ++ '\n' :: (linesText (more.map itemLine) ++
            (List.replicate k '\n' ++ rest)))) := by
      simp [lines, linesText_cons, itemLine]
    rw [hline] at h
    obtain ⟨l₁, hemits₁, hrests₁, hcolumn₁⟩ := reads_key h hls hkey rfl hcolumn
    -- The line feed behind the colon is an empty line before the first item.
    have hempty : ∀ line ∈ [([] : List Char)], IsRemark line := by
      intro line hline
      rw [List.mem_singleton.mp hline]
      exact ⟨.inl rfl, by simp⟩
    obtain ⟨l₂, hemits₂, hrests₂, hcolumn₂⟩ := reads_items [[]] (n := 2) hrests₁ (by decide)
      hempty rfl rfl hitems hrest
    have hall := hemits₁.trans hemits₂
    have hcount : 7 + 5 * (more.length + 1) ≤
        16 * (linesText (list key (item :: more)).lines).length := by
      have := length_linesText (list key (item :: more)).lines
      rw [show (list key (item :: more)).lines.length = more.length + 2 by simp [lines]] at this
      omega
    refine ⟨.items, [.key, .scalar (Text.ofChars key) true, .value, .blockSequenceStart] ++
      (item :: more).flatMap itemKinds, l₂, by decide, rfl, ?_, hrests₂, hcolumn₂⟩
    rw [List.append_assoc, List.append_assoc] at hall
    rw [List.append_assoc]
    exact hall.mono hcount

theorem isInline_lines {e : FlatEntry} (h : e.Reads) :
    ∀ line ∈ e.lines, ∀ ch ∈ line, isInline ch = true := by
  cases e with
  | text key value =>
    intro line hline ch hch
    rw [List.mem_singleton.mp hline] at hch
    rcases List.mem_append.mp hch with hkey | hch
    · exact isInline_of_name (h.1.names ch hkey)
    · rcases List.mem_append.mp (show ch ∈ [':', ' '] ++ value from hch) with hmark | hvalue
      · have : ∀ ch ∈ [':', ' '], isInline ch = true := List.all_eq_true.mp rfl
        exact this ch hmark
      · exact h.2.inline ch hvalue
  | list key items =>
    intro line hline ch hch
    rcases List.mem_cons.mp hline with rfl | hline
    · rcases List.mem_append.mp hch with hkey | hmark
      · exact isInline_of_name (h.1.names ch hkey)
      · rw [List.mem_singleton.mp hmark]
        decide
    · obtain ⟨item, hitem, rfl⟩ := List.mem_map.mp hline
      have hdash : ∀ ch ∈ "  - ".toList, isInline ch = true := List.all_eq_true.mp rfl
      rcases List.mem_append.mp (show ch ∈ "  - ".toList ++ item from hch) with hmark | hch
      · exact hdash ch hmark
      · exact (h.2.2 item hitem).inline ch hch

end FlatEntry

/-- A document with one mapping: remarks, and entries with remarks after each. -/
structure FlatDocument where
  remarks : List (List Char)
  entries : List (FlatEntry × List (List Char))

namespace FlatDocument

/-- The lines of entries and of the remarks after each. -/
def entryLines (es : List (FlatEntry × List (List Char))) : List (List Char) :=
  es.flatMap fun (e, ls) => e.lines ++ ls

def chars (doc : FlatDocument) : List Char := linesText (doc.remarks ++ entryLines doc.entries)

def kinds (doc : FlatDocument) : List TokenKind :=
  [.streamStart, .blockMappingStart] ++ doc.entries.flatMap (·.1.kinds) ++ [.blockEnd, .streamEnd]

/-- Whether remarks are remarks, and the texts of the entries are read as they stand. -/
structure Reads (doc : FlatDocument) : Prop where
  remarks : ∀ line ∈ doc.remarks, IsRemark line
  entries : ∀ x ∈ doc.entries, x.1.Reads ∧ ∀ line ∈ x.2, IsRemark line
  nonempty : doc.entries ≠ []

theorem linesText_remarks {ls : List (List Char)} (hls : ∀ line ∈ ls, IsRemark line) :
    ∃ k ls', (∀ line ∈ ls', IsRemark line) ∧ linesText ls = List.replicate k '\n' ++ linesText ls' ∧
      ∀ rest, Follows rest → Follows (linesText ls' ++ rest) := by
  induction ls with
  | nil => exact ⟨0, [], hls, rfl, fun rest h => h⟩
  | cons line ls ih =>
    obtain ⟨hkind, hinline⟩ := hls line List.mem_cons_self
    rcases hkind with rfl | hhash
    · obtain ⟨k, ls', hls', hlines, hfollows⟩ := ih fun x hx => hls x (List.mem_cons_of_mem _ hx)
      refine ⟨k + 1, ls', hls', ?_, hfollows⟩
      rw [linesText_cons, hlines]
      rfl
    · refine ⟨0, line :: ls, hls, rfl, fun rest _ ch hch => .inl ?_⟩
      rw [linesText_cons, List.append_assoc, List.head?_append, hhash] at hch
      exact (Option.some.inj hch).symm

theorem follows_entries {es : List (FlatEntry × List (List Char))}
    (hes : ∀ x ∈ es, x.1.Reads ∧ ∀ line ∈ x.2, IsRemark line) :
    Follows (linesText (entryLines es)) := by
  cases es with
  | nil =>
    intro ch hch
    cases hch
  | cons x es =>
    rw [entryLines, List.flatMap_cons, List.append_assoc, linesText_append]
    exact FlatEntry.follows (hes x List.mem_cons_self).1 _

/-- Entries, with remarks before and after each, to the end of the document. -/
theorem ends_entries {d : Depth} {ls : List (List Char)}
    {es : List (FlatEntry × List (List Char))} {l : Lexer}
    (h : l.Rests d true (linesText ls ++ linesText (entryLines es)))
    (hls : ∀ line ∈ ls, IsRemark line)
    (hes : ∀ x ∈ es, x.1.Reads ∧ ∀ line ∈ x.2, IsRemark line)
    (hd : d = .outside → es ≠ []) (hcolumn : l.cursor.column = 0) :
    Ends (16 * (linesText (entryLines es)).length + 2) l
      (d.closing ++ d.opening ++ es.flatMap (·.1.kinds) ++ [.blockEnd, .streamEnd]) := by
  -- On the entries: what is open before one is closed by it, so that the mapping is all that is
  -- open before the next.
  induction es generalizing d ls l with
  | nil =>
    have hrests : l.Rests d true (linesText ls) := by simpa [entryLines] using h
    have hend := reads_end hrests hls hcolumn
    cases d with
    | outside => exact absurd rfl (hd rfl)
    | _ => exact hend.mono (Nat.le_add_left 2 _)
  | cons x es ih =>
    obtain ⟨e, ls₁⟩ := x
    obtain ⟨he, hls₁⟩ := hes (e, ls₁) List.mem_cons_self
    obtain ⟨k, ls₂, hls₂, hlines, hfollows⟩ := linesText_remarks hls₁
    have hmore : ∀ x ∈ es, x.1.Reads ∧ ∀ line ∈ x.2, IsRemark line := fun x hx =>
      hes x (List.mem_cons_of_mem _ hx)
    have hrest := hfollows _ (follows_entries hmore)
    have hsplit : linesText (entryLines ((e, ls₁) :: es)) = linesText e.lines ++
        (List.replicate k '\n' ++ (linesText ls₂ ++ linesText (entryLines es))) := by
      rw [entryLines, List.flatMap_cons, linesText_append, linesText_append, hlines]
      simp only [List.append_assoc]
      rfl
    rw [hsplit] at h
    obtain ⟨d', kinds, l', hd', hkinds, hemits, hrests, hcolumn'⟩ := e.emits h he hls hcolumn hrest
    have hopening : d'.opening = [] := by
      cases d' with
      | outside => exact absurd rfl hd'
      | _ => rfl
    have hall := hemits.ends (ih hrests hls₂ hmore (fun hout => absurd hout hd') hcolumn')
    have hcount : 16 * (linesText e.lines).length + (16 * (linesText (entryLines es)).length + 2) ≤
        16 * (linesText (entryLines ((e, ls₁) :: es))).length + 2 := by
      rw [hsplit]
      simp only [List.length_append]
      omega
    have hjoin : d.closing ++ d.opening ++ kinds ++
        (d'.closing ++ d'.opening ++ es.flatMap (·.1.kinds) ++ [.blockEnd, .streamEnd]) =
        d.closing ++ d.opening ++ ((e, ls₁) :: es).flatMap (·.1.kinds) ++
          [.blockEnd, .streamEnd] := by
      rw [hopening, List.flatMap_cons, ← hkinds]
      simp only [List.append_assoc, List.append_nil]
    rw [hjoin] at hall
    exact hall.mono hcount

theorem tokens_chars {doc : FlatDocument} (h : doc.Reads) :
    ∃ ts : List Token, ts.map (·.kind) = doc.kinds ∧ tokens ⟨doc.chars, none⟩ = (ts, none) := by
  have hchars : doc.chars = linesText doc.remarks ++ linesText (entryLines doc.entries) :=
    linesText_append _ _
  have hunmarked : doc.chars.head? ≠ some '\uFEFF' := by
    obtain ⟨k, ls, -, hlines, hfollows⟩ := linesText_remarks h.remarks
    have hrest := (hfollows _ (follows_entries h.entries)).unmarked
    rw [hchars, hlines, List.append_assoc]
    cases k with
    | zero => exact hrest
    | succ k => simp [List.replicate_succ]
  let l : Lexer := ofChars doc.chars
  have hstart : Emits 1 l [.streamStart] { l with held := [], delivered := l.delivered + 1 } :=
    emits_token (l := l) (t := ⟨.streamStart, ⟨0, 0, 0⟩, ⟨0, 0, 0⟩⟩) rfl rfl rfl
  have hrests : Rests .outside true (linesText doc.remarks ++ linesText (entryLines doc.entries))
      { l with held := [], delivered := l.delivered + 1 } :=
    ⟨rfl, rfl, rfl, rfl, rfl, rfl, rfl, hchars, Nat.le_refl _, hchars ▸ hunmarked⟩
  have hend := ends_entries hrests h.remarks h.entries (fun _ => h.nonempty) rfl
  obtain ⟨ts, hts, hrun⟩ := hstart.ends hend
  refine ⟨ts, hts, hrun _ ?_⟩
  rw [hchars, List.length_append]
  omega

/-- The characters of a flat document are those of lines, and line feeds. -/
theorem isInline_chars {doc : FlatDocument} (h : doc.Reads) :
    ∀ ch ∈ doc.chars, isInline ch = true ∨ ch = '\n' := by
  intro ch hch
  obtain ⟨line, hline, hch⟩ := List.mem_flatMap.mp hch
  rcases List.mem_append.mp hch with hch | hfeed
  · left
    rcases List.mem_append.mp hline with hremark | hentry
    · exact (h.remarks line hremark).2 ch hch
    · obtain ⟨x, hx, hline⟩ := List.mem_flatMap.mp hentry
      obtain ⟨hreads, hremarks⟩ := h.entries x hx
      rcases List.mem_append.mp hline with hline | hremark
      · exact x.1.isInline_lines hreads line hline ch hch
      · exact (hremarks line hremark).2 ch hch
  · exact .inr (List.mem_singleton.mp hfeed)

end FlatDocument

end EditorLint.Yaml
