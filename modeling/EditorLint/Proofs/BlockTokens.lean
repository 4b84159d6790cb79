import EditorLint.Proofs.Lexing

/-!
# Tokens of keys, items and their scalars

The tokens that the lines of a mapping bring whose values are plain scalars or lists of
them.  A key is found out at its colon, and then its tokens are put in front of it; what
begins farther left closes the blocks that stand farther right; a scalar behind a hyphen
may become a key until its line is over.  `Rests` is the state between two lines, and
`Depth` says which blocks are open there.
-/

namespace EditorLint.Yaml

open Cursor

namespace Lexer

/-! ## Entries of the outermost mapping -/

/-- Where a lexer can stand outside brackets: before the outermost mapping, in it, or in a
list inside it. -/
inductive Depth where
  | outside
  | mapping
  | items
  deriving DecidableEq

namespace Depth

def indent : Depth → Int
  | outside => -1
  | mapping => 0
  | items => 2

def outer : Depth → List Int
  | outside => []
  | mapping => [-1]
  | items => [0, -1]

/-- The depth after what stands further right than a key is closed. -/
def atKey : Depth → Depth
  | outside => outside
  | mapping | items => mapping

/-- The tokens that close what stands further right than a key. -/
def closing : Depth → List TokenKind
  | items => [.blockEnd]
  | outside | mapping => []

/-- The tokens that open the mapping at its first key. -/
def opening : Depth → List TokenKind
  | outside => [.blockMappingStart]
  | mapping | items => []

end Depth

/-- A lexer between two tokens, all of which it has delivered, the characters ahead of it,
and whether a key may begin there. -/
structure Rests (d : Depth) (allowed : Bool) (rest : List Char) (l : Lexer) : Prop where
  nesting : l.nesting = 0
  held : l.held = []
  candidates : l.candidates = []
  running : l.done = false
  indent : l.indent = d.indent
  outer : l.outer = d.outer
  keyAllowed : l.keyAllowed = allowed
  ahead : l.cursor.rest = rest
  fits : l.cursor.rest.length ≤ l.cursor.size
  unmarked : rest.head? ≠ some '\uFEFF'

theorem length_linesText (ls : List (List Char)) : ls.length ≤ (linesText ls).length := by
  induction ls with
  | nil => exact Nat.le_refl 0
  | cons line ls ih =>
    rw [linesText, List.flatMap_cons, List.length_append, List.length_append]
    rw [linesText] at ih
    simp only [List.length_cons, List.length_nil]
    omega

theorem skipToToken_remarks (ls : List (List Char)) {n : Nat} {l : Lexer} {rest : List Char}
    (h : l.cursor.rest = linesText ls ++ (List.replicate n ' ' ++ rest))
    (hls : ∀ line ∈ ls, IsRemark line) (hstop : Stops rest) (hremark : rest.head? ≠ some '#')
    (hnesting : l.nesting = 0) (hfits : l.cursor.rest.length ≤ l.cursor.size)
    (hunmarked : l.cursor.rest.head? ≠ some '\uFEFF') :
    ∃ c, l.skipToToken = { l with cursor := c, keyAllowed := l.keyAllowed || !ls.isEmpty } ∧
      c.rest = rest ∧ c.size = l.cursor.size ∧
      c.column = (if ls.isEmpty then l.cursor.column + n else n) ∧
      (ls = [] → l.cursor.Passes (List.replicate n ' ') c) := by
  have hpeek : (l.cursor.peek == '\uFEFF') = false := peek_ne hunmarked (by decide)
  have hmark : (l.cursor.mark.index == 0 && l.cursor.peek == '\uFEFF') = false := by
    rw [hpeek, Bool.and_false]
  have hfuel : ls.length < l.cursor.size + 1 := by
    have hlines := length_linesText ls
    have hlength := congrArg List.length h
    rw [List.length_append] at hlength
    omega
  obtain ⟨c, hskip, hrest⟩ := skipBlanks_remarks h hls hstop hremark hnesting hfuel
  refine ⟨c, ?_, hrest⟩
  unfold skipToToken
  simp only [hmark]
  exact hskip

theorem unwind_key {d : Depth} {l : Lexer} (hnesting : l.nesting = 0)
    (hindent : l.indent = d.indent) (houter : l.outer = d.outer) :
    ∃ ts : List Token, ts.map (·.kind) = d.closing ∧
      l.unwind (0 : Nat) = { l with held := l.held ++ ts, indent := d.atKey.indent,
                                    outer := d.atKey.outer } := by
  have hout : l.unwind (0 : Nat) = unwindTo 0 d.outer l := by
    unfold unwind
    rw [hnesting, houter]
    rfl
  rw [hout]
  cases d with
  | outside =>
    refine ⟨[], rfl, ?_⟩
    rw [List.append_nil]
    show l = { l with indent := -1, outer := [] }
    rw [← show l.indent = -1 from hindent, ← show l.outer = [] from houter]
  | mapping =>
    refine ⟨[], rfl, ?_⟩
    have hstay : ¬l.indent > 0 := by rw [hindent]; decide
    show unwindTo 0 [-1] l = { l with held := l.held ++ [], indent := 0, outer := [-1] }
    rw [unwindTo, if_neg hstay, List.append_nil, ← show l.indent = 0 from hindent,
      ← show l.outer = [-1] from houter]
  | items =>
    refine ⟨[⟨.blockEnd, l.mark, l.mark⟩], rfl, ?_⟩
    have hleave : l.indent > 0 := by rw [hindent]; decide
    show unwindTo 0 [0, -1] l = _
    rw [unwindTo, if_pos hleave, unwindTo, if_neg (show ¬(0 : Int) > 0 by decide)]
    rfl

/-- The candidates that have become stale are dropped, when none of them is required. -/
theorem dropStale_eq {l : Lexer}
    (h : ∀ x ∈ l.candidates, l.isStale x.2 = true → x.2.required = false) :
    l.dropStale = .ok { l with candidates := l.candidates.filter fun x => !l.isStale x.2 } := by
  unfold dropStale
  split
  · rename_i n k hfound
    have hmissed := List.find?_some hfound
    obtain ⟨hstale, hrequired⟩ : l.isStale k = true ∧ k.required = true :=
      Bool.and_eq_true_iff.mp hmissed
    rw [h (n, k) (List.mem_of_find?_eq_some hfound) hstale] at hrequired
    cases hrequired
  · rfl

theorem dropStale_of_fresh {l : Lexer} (h : ∀ x ∈ l.candidates, l.isStale x.2 = false) :
    l.dropStale = .ok l := by
  have hall : (l.candidates.filter fun x => !l.isStale x.2) = l.candidates := by
    rw [List.filter_eq_self]
    intro x hx
    simp [h x hx]
  rw [dropStale_eq fun x hx hstale => absurd hstale (by simp [h x hx]), hall]

theorem giveUp_of_none {l : Lexer} (h : l.candidates = []) : l.giveUp = .ok l := by
  unfold giveUp candidate?
  rw [h]
  rfl

theorem propose_allowed {l : Lexer} (hallowed : l.keyAllowed = true) (hnesting : l.nesting = 0)
    (hcandidates : l.candidates = []) : l.propose = .ok { l with candidates :=
      [(0, ⟨l.delivered + l.held.length, l.indent == (l.cursor.column : Int), l.mark⟩)] } := by
  have hrefused : ¬(!l.keyAllowed) = true := by simp [hallowed]
  unfold propose
  rw [if_neg hrefused, giveUp_of_none hcandidates]
  show Except.ok { l with candidates := l.candidates ++ [(l.nesting, Candidate.mk
    (l.delivered + l.held.length) (l.nesting == 0 && l.indent == (l.cursor.column : Int))
    l.mark)] } = _
  rw [hcandidates, hnesting]
  rfl

theorem propose_refused {l : Lexer} (hallowed : l.keyAllowed = false) : l.propose = .ok l := by
  unfold propose
  rw [hallowed]
  rfl

/-- Where no block begins, what is proposed for a key need not become one. -/
theorem propose_inside {l : Lexer} (hnesting : l.nesting = 0) (hcandidates : l.candidates = [])
    (hinside : l.indent ≠ l.cursor.column) :
    ∃ candidates, l.propose = .ok { l with candidates := candidates } ∧
      ∀ x ∈ candidates, x.2.required = false ∧ x.2.mark.line = l.cursor.mark.line := by
  rcases Bool.eq_false_or_eq_true l.keyAllowed with hallowed | hallowed
  · refine ⟨_, propose_allowed hallowed hnesting hcandidates, fun x hx => ?_⟩
    rw [List.mem_singleton.mp hx]
    exact ⟨beq_eq_false_iff_ne.mpr hinside, rfl⟩
  · refine ⟨l.candidates, propose_refused hallowed, fun x hx => ?_⟩
    rw [hcandidates] at hx
    cases hx

theorem plain_of_propose {l l' : Lexer} {p : Plain} (h : l.propose = .ok l')
    (hnesting : l'.nesting = 0) (hp : plainScalar false l'.indent l'.cursor = p) :
    l.plain = .ok { l' with
      held := l'.held ++ [⟨.scalar (Text.ofChars p.text) true, l'.mark, p.stop⟩],
      cursor := p.behind, keyAllowed := p.broken } := by
  have hflow : decide (l'.nesting > 0) = false := by rw [hnesting]; rfl
  unfold Lexer.plain
  rw [h]
  subst hp
  rw [← hflow]
  rfl

theorem Rests.skip {d : Depth} {allowed : Bool} {ls : List (List Char)} {n : Nat}
    {rest : List Char} {l : Lexer}
    (h : l.Rests d allowed (linesText ls ++ (List.replicate n ' ' ++ rest)))
    (hls : ∀ line ∈ ls, IsRemark line) (hstop : Stops rest) (hremark : rest.head? ≠ some '#') :
    ∃ c, l.skipToToken.dropStale =
        .ok { l with cursor := c, keyAllowed := allowed || !ls.isEmpty } ∧
      c.rest = rest ∧ c.rest.length ≤ c.size ∧
      c.column = (if ls.isEmpty then l.cursor.column + n else n) := by
  have hunmarked : l.cursor.rest.head? ≠ some '\uFEFF' := by
    rw [h.ahead]
    exact h.unmarked
  obtain ⟨c, hskip, hrest, hsize, hcolumn, -⟩ :=
    skipToToken_remarks ls h.ahead hls hstop hremark h.nesting h.fits hunmarked
  have hfits : c.rest.length ≤ c.size := by
    have hbefore := h.fits
    rw [h.ahead, List.length_append, List.length_append] at hbefore
    rw [hrest, hsize]
    omega
  refine ⟨c, ?_, hrest, hfits, hcolumn⟩
  rw [hskip, h.keyAllowed]
  exact dropStale_of_none h.candidates

theorem unwind_stay {l : Lexer} {column : Int} (h : l.indent ≤ column) : l.unwind column = l := by
  unfold unwind
  split
  · rfl
  · cases houter : l.outer with
    | nil => rfl
    | cons i outer => rw [unwindTo, if_neg (Int.not_lt.mpr h)]

theorem emits_front {l : Lexer} {k : Candidate} {ts more : List Token} (hdone : l.done = false)
    (hheld : l.held = ts ++ more) (hcandidates : l.candidates = [(0, k)])
    (hfresh : l.isStale k = false) (hnumber : k.number = l.delivered + ts.length) :
    Emits ts.length l (ts.map (·.kind))
      { l with held := more, delivered := l.delivered + ts.length } := by
  induction ts generalizing l with
  | nil =>
    have hsame : ({ l with held := more, delivered := l.delivered + 0 } : Lexer) = l := by
      rw [← show l.held = more from hheld]
      rfl
    show Emits 0 l [] { l with held := more, delivered := l.delivered + 0 }
    rw [hsame]
    exact .refl l
  | cons t ts ih =>
    have hstale : l.dropStale = .ok l := dropStale_of_fresh (by simp [hcandidates, hfresh])
    have hfree : l.isHeldBack = false := by
      unfold isHeldBack
      rw [hcandidates, List.length_cons] at *
      simp
      omega
    have hcount : l.delivered + 1 + ts.length = l.delivered + (t :: ts).length := by
      rw [List.length_cons]
      omega
    have hfirst := emits_free hdone hheld hstale hfree
    have hmore := ih (l := { l with held := ts ++ more, delivered := l.delivered + 1 }) hdone rfl
      hcandidates hfresh (hnumber.trans hcount.symm)
    have hall := hfirst.trans hmore
    rw [Nat.add_comm 1, hcount] at hall
    exact hall

/-- A name that can be a key. -/
structure IsKey (key : List Char) : Prop where
  begins : ∃ ch ∈ key.head?, ch ≠ '-'
  names : ∀ ch ∈ key, isNameChar ch = true
  fits : key.length ≤ 1024

theorem IsKey.first {key : List Char} (h : IsKey key) :
    ∃ ch tail, key = ch :: tail ∧ ch ≠ '-' ∧ isNameChar ch = true := by
  obtain ⟨ch, hch, hminus⟩ := h.begins
  cases key with
  | nil => cases hch
  | cons x tail =>
    obtain rfl := Option.some.inj hch
    exact ⟨x, tail, rfl, hminus, h.names x List.mem_cons_self⟩

theorem isIndicator_of_name {ch : Char} (h : isNameChar ch = true) (hminus : ch ≠ '-') :
    isIndicator ch = false := by
  rw [Bool.eq_false_iff]
  intro hindicator
  unfold isIndicator at hindicator
  rw [List.contains_iff_mem] at hindicator
  simp at hindicator
  rcases hindicator with rfl | rfl | rfl | rfl | rfl | rfl | rfl | rfl | rfl | rfl | rfl | rfl |
    rfl | rfl | rfl | rfl | rfl | rfl | rfl
  · exact hminus rfl
  all_goals cases h

/-- A key is fetched as a scalar that may turn out to be one. -/
theorem fetch_key {d : Depth} {ls : List (List Char)} {key rest : List Char} {ch : Char} {l : Lexer}
    (h : l.Rests d true (linesText ls ++ (key ++ ':' :: ch :: rest)))
    (hls : ∀ line ∈ ls, IsRemark line) (hkey : IsKey key) (hch : isSpaceOrEnd ch = true)
    (hcolumn : l.cursor.column = 0) :
    ∃ (ts : List Token) (t : Token) (c c' : Cursor), ts.map (·.kind) = d.closing ∧
      t.kind = .scalar (Text.ofChars key) true ∧ c.column = 0 ∧ c.rest.length ≤ c.size ∧
      c.Passes key c' ∧ c'.rest = ':' :: ch :: rest ∧
      l.fetch = .ok { l with
        held := ts ++ [t], indent := d.atKey.indent, outer := d.atKey.outer, cursor := c',
        keyAllowed := false,
        candidates := [(0, ⟨l.delivered + ts.length, d.atKey.indent == 0, c.mark⟩)] } := by
  obtain ⟨x, tail, hfirst, hminus, hname⟩ := hkey.first
  have hspace := isSpaceOrEnd_of_name hname
  have hstop : Stops (key ++ ':' :: ch :: rest) := by
    rw [hfirst]
    intro y hy
    obtain rfl := Option.some.inj hy
    simp only [isSpaceOrEnd, isBlankOrEnd, isBreakOrEnd, Bool.or_eq_false_iff] at hspace
    exact ⟨beq_eq_false_iff_ne.mp hspace.2.1, hspace.2.2.2⟩
  have hremark : (key ++ ':' :: ch :: rest).head? ≠ some '#' := by
    rw [hfirst]
    intro he
    rw [Option.some.inj he] at hname
    cases hname
  -- After the remarks the key stands at the left margin, so that its column closes what is open.
  obtain ⟨c, hskip, hrest, hfits, hcol⟩ := Rests.skip (n := 0) h hls hstop hremark
  have hzero : c.column = 0 := by
    rw [hcol, hcolumn]
    exact ite_self 0
  let l₁ : Lexer := { l with cursor := c, keyAllowed := true || !ls.isEmpty }
  obtain ⟨ts, hts, hunwind⟩ := unwind_key (l := l₁) h.nesting h.indent h.outer
  have hrest' : l₁.cursor.rest = x :: (tail ++ ':' :: ch :: rest) := by
    rw [← List.cons_append, ← hfirst]
    exact hrest
  have hpoint : x ≠ '.' := by
    rintro rfl
    cases hname
  have hfetch := fetch_plain hskip h.nesting hrest'
    (.inl ⟨hspace, isIndicator_of_name hname hminus⟩) fun _ => ⟨hminus, hpoint⟩
  have hne : key ≠ [] := by rw [hfirst]; exact List.cons_ne_nil x tail
  let l₂ : Lexer := { l₁ with
    held := l₁.held ++ ts, indent := d.atKey.indent, outer := d.atKey.outer }
  have hunwind' : l₁.unwind l₁.cursor.column = l₂ := by
    rw [show l₁.cursor.column = 0 from hzero]
    exact hunwind
  -- The key is a candidate before it is read, and stays the one that `:` will find.
  have hpropose := propose_allowed (l := l₂) rfl h.nesting h.candidates
  obtain ⟨stop, c', hplain, hpasses, hbehind⟩ :=
    plainScalar_key l₂.indent hrest hkey.names hne hch
  have hpl := plain_of_propose hpropose h.nesting hplain
  have hheld : l₂.held = ts := by
    show l.held ++ ts = ts
    rw [h.held, List.nil_append]
  have hcolumn' : (l₂.indent == (l₂.cursor.column : Int)) = (d.atKey.indent == 0) := by
    rw [show l₂.cursor.column = 0 from hzero]
    rfl
  rw [hfetch, hunwind', hpl, hheld, hcolumn']
  exact ⟨ts, _, c, c', hts, rfl, hzero, hfits, hpasses, hbehind, rfl⟩

theorem filter_nesting {l : Lexer} {k : Candidate} (hnesting : l.nesting = 0)
    (hcandidates : l.candidates = [(0, k)]) :
    (l.candidates.filter fun (n, _) => n != l.nesting) = [] := by
  rw [hcandidates, hnesting]
  rfl

/-- A key is put in front of its scalar, and the first one opens the mapping. -/
theorem settleKey_front {d : Depth} {l : Lexer} {k : Candidate} {t : Token}
    (hnesting : l.nesting = 0) (hindent : l.indent = d.atKey.indent)
    (houter : l.outer = d.atKey.outer) (hheld : l.held = [t])
    (hcandidates : l.candidates = [(0, k)]) (hnumber : k.number = l.delivered)
    (hzero : k.mark.column = 0) :
    ∃ ts : List Token, ts.map (·.kind) = d.opening ++ [.key] ∧
      l.settleKey k = { l with
        held := ts ++ [t], indent := 0, outer := [-1], keyAllowed := false, candidates := [] } := by
  have hplace : k.number - l.delivered = 0 := by
    rw [hnumber]
    exact Nat.sub_self _
  have hnone := filter_nesting hnesting hcandidates
  have hflow : ¬l.nesting > 0 := by
    rw [hnesting]
    exact Nat.lt_irrefl 0
  cases d with
  | outside =>
    refine ⟨[⟨.blockMappingStart, k.mark, k.mark⟩, ⟨.key, k.mark, k.mark⟩], rfl, ?_⟩
    have hopens : l.indent < ((0 : Nat) : Int) := by
      rw [hindent]
      decide
    unfold settleKey openBlock
    simp only [hnone, hflow, hplace, hzero, hheld, hopens, if_true, if_false]
    rw [hindent, houter]
    rfl
  | _ =>
    refine ⟨[⟨.key, k.mark, k.mark⟩], rfl, ?_⟩
    have hstays : ¬l.indent < ((0 : Nat) : Int) := by
      rw [hindent]
      decide
    unfold settleKey openBlock
    simp only [hnone, hflow, hplace, hzero, hheld, hstays, if_false]
    rw [hindent, houter]
    rfl

theorem fetch_colon {d : Depth} {l : Lexer} {k : Candidate} {t : Token} {rest : List Char}
    {ch : Char} (hrest : l.cursor.rest = ':' :: ch :: rest) (hch : isSpaceOrEnd ch = true)
    (hfits : l.cursor.rest.length ≤ l.cursor.size) (hnesting : l.nesting = 0)
    (hindent : l.indent = d.atKey.indent) (houter : l.outer = d.atKey.outer)
    (hheld : l.held = [t]) (hcandidates : l.candidates = [(0, k)]) (hfresh : l.isStale k = false)
    (hnumber : k.number = l.delivered) (hzero : k.mark.column = 0) :
    ∃ (ts : List Token) (t' : Token) (c : Cursor), ts.map (·.kind) = d.opening ++ [.key] ∧
      t'.kind = .value ∧ l.cursor.Passes [':'] c ∧ c.rest = ch :: rest ∧
      l.fetch = .ok { l with
        held := ts ++ [t, t'], indent := 0, outer := [-1], cursor := c, keyAllowed := false,
        candidates := [] } := by
  have hstop : Stops (':' :: ch :: rest) := by
    intro y hy
    obtain rfl := Option.some.inj hy
    exact ⟨by decide, rfl⟩
  obtain ⟨c, hskip, hahead, -, -, hsame⟩ := skipToToken_remarks [] (n := 0) hrest
    (by simp) hstop (by simp) hnesting hfits (by rw [hrest]; simp)
  have hpasses := hsame rfl
  have hkeyAllowed : (l.keyAllowed || !([] : List (List Char)).isEmpty) = l.keyAllowed := by simp
  rw [hkeyAllowed] at hskip
  let l₁ : Lexer := { l with cursor := c }
  -- Nothing is skipped before the colon, so the candidate is as fresh as it was.
  have hmark : l₁.isStale k = false := by
    have hline : c.mark.line = l.cursor.mark.line := hpasses.line
    have hindex : c.mark.index = l.cursor.mark.index := hpasses.index
    rw [← hfresh]
    show (k.mark.line != c.mark.line || decide (c.mark.index - k.mark.index > 1024)) = _
    rw [hline, hindex]
    rfl
  have hstale : l.skipToToken.dropStale = .ok l₁ := by
    rw [hskip]
    refine dropStale_of_fresh fun x hx => ?_
    have hx' : x ∈ [(0, k)] := hcandidates ▸ hx
    rw [List.mem_singleton.mp hx']
    exact hmark
  have hstay : l₁.unwind l₁.cursor.column = l₁ := by
    refine unwind_stay ?_
    show l.indent ≤ _
    rw [hindent]
    cases d <;> simp [Depth.atKey, Depth.indent]
  have hcandidate : l₁.candidate? = some k := by
    unfold candidate?
    show l.candidates.lookup l.nesting = some k
    rw [hcandidates, hnesting]
    rfl
  have hadvance := passes_advance (s := [':']) hahead (List.forall_mem_singleton.mpr rfl)
  have hbehind : (c.advance 1).rest = ch :: rest := by
    rw [rest_advance, hahead]
    rfl
  obtain ⟨ts, hts, hsettle⟩ := settleKey_front (l := l₁) hnesting hindent houter hheld hcandidates
    hnumber hzero
  refine ⟨ts, ⟨.value, c.mark, (c.advance 1).mark⟩, c.advance 1, hts, rfl, hpasses.trans hadvance,
    hbehind, ?_⟩
  rw [fetch_value hstale hahead hch, hstay]
  unfold Lexer.value
  rw [hcandidate]
  show Except.ok ((l₁.settleKey k).pushAhead .value 1) = _
  rw [hsettle]
  unfold pushAhead
  simp only [List.append_assoc, List.cons_append, List.nil_append]
  rfl

/-- A key brings the tokens that close what stands further right, those that open the
mapping, and its own. -/
theorem reads_key {d : Depth} {ls : List (List Char)} {key rest : List Char} {ch : Char} {l : Lexer}
    (h : l.Rests d true (linesText ls ++ (key ++ ':' :: ch :: rest)))
    (hls : ∀ line ∈ ls, IsRemark line) (hkey : IsKey key) (hch : isSpaceOrEnd ch = true)
    (hcolumn : l.cursor.column = 0) :
    ∃ l', Emits 7 l
        (d.closing ++ (d.opening ++ [.key, .scalar (Text.ofChars key) true, .value])) l' ∧
      l'.Rests .mapping false (ch :: rest) ∧ 0 < l'.cursor.column := by
  obtain ⟨ts, t, c, c₁, hts, ht, hzero, hfits, hpasses, hbehind, hfetch⟩ :=
    fetch_key h hls hkey hch hcolumn
  let k : Candidate := ⟨l.delivered + ts.length, d.atKey.indent == 0, c.mark⟩
  let l₁ : Lexer := { l with
    held := ts ++ [t], indent := d.atKey.indent, outer := d.atKey.outer, cursor := c₁,
    keyAllowed := false, candidates := [(0, k)] }
  -- The candidate stands on this line, and not farther away than a key is long.
  have hfresh : l₁.isStale k = false := by
    have hline : c₁.mark.line = c.mark.line := hpasses.line
    have hindex : c₁.mark.index = c.mark.index + key.length := hpasses.index
    have hfar := hkey.fits
    show (c.mark.line != c₁.mark.line || decide (c₁.mark.index - c.mark.index > 1024)) = false
    rw [hline, hindex]
    simp
    omega
  -- The scalar is held back, as it may be a key; what closes blocks goes out before it.
  have hscalar : Emits 1 l [] l₁ := emits_fetch h.running h.held hfetch
  have hclosed := emits_front (l := l₁) h.running rfl rfl hfresh rfl
  let l₂ : Lexer := { l₁ with held := [t], delivered := l.delivered + ts.length }
  have hback : l₂.isHeldBack = true := by simp [isHeldBack, l₂, l₁, k]
  have hstale : l₂.dropStale = .ok l₂ := by
    refine dropStale_of_fresh fun x hx => ?_
    rw [List.mem_singleton.mp hx]
    exact hfresh
  -- At the colon the matter is settled, and nothing is held back any more.
  obtain ⟨front, t', c₂, hfront, ht', hpasses', hrest, hcolon⟩ := fetch_colon (l := l₂) hbehind hch
    (hpasses.fits hfits) h.nesting rfl rfl rfl rfl hfresh rfl hzero
  let l₃ : Lexer := { l₂ with
    held := front ++ [t, t'], indent := 0, outer := [-1], cursor := c₂, keyAllowed := false,
    candidates := [] }
  have hvalue : Emits 1 l₂ [] l₃ := emits_held h.running rfl hstale hback hcolon
  have hlast := emits_tokens (l := l₃) h.running rfl
  have hall := hscalar.trans (hclosed.trans (hvalue.trans hlast))
  have hkinds : ts.map (·.kind) ++ l₃.held.map (·.kind) =
      d.closing ++ (d.opening ++ [.key, .scalar (Text.ofChars key) true, .value]) := by
    rw [List.map_append, hts, hfront, List.map_cons, ht, List.map_cons, ht', List.append_assoc]
    rfl
  have hcount : 1 + (ts.length + (1 + l₃.held.length)) ≤ 7 := by
    have hclosing : ts.length ≤ 1 := by
      rw [← List.length_map, hts]
      cases d <;> decide
    have hopening : front.length ≤ 2 := by
      rw [← List.length_map, hfront]
      cases d <;> decide
    have hheld : l₃.held.length = front.length + 2 := List.length_append
    omega
  rw [List.nil_append, List.nil_append, hkinds] at hall
  have hcolumn' : c₂.column = key.length + 1 := by
    have hbom : '\uFEFF' ∉ key := by
      intro hm
      have := hkey.names _ hm
      cases this
    rw [hpasses'.exact (by decide), hpasses.exact hbom, hzero, Nat.zero_add]
    rfl
  refine ⟨_, hall.mono hcount, ⟨h.nesting, rfl, rfl, h.running, rfl, rfl, rfl, hrest,
    hpasses'.fits (hpasses.fits hfits), ?_⟩, ?_⟩
  · intro he
    rw [Option.some.inj he] at hch
    cases hch
  · show 0 < c₂.column
    rw [hcolumn']
    exact Nat.succ_pos _

theorem dropStale_of_stale {l : Lexer}
    (h : ∀ x ∈ l.candidates, l.isStale x.2 = true ∧ x.2.required = false) :
    l.dropStale = .ok { l with candidates := [] } := by
  have hall : (l.candidates.filter fun x => !l.isStale x.2) = [] := by
    rw [List.filter_eq_nil_iff]
    intro x hx
    simp [(h x hx).1]
  rw [dropStale_eq fun x hx _ => (h x hx).2, hall]

/-- A scalar behind a colon or a hyphen, to the end of its line.  It may have been a
candidate for a key, but not any more on the next line. -/
theorem reads_scalar {d : Depth} {allowed : Bool} {k m : Nat} {s rest : List Char} {l : Lexer}
    (h : l.Rests d allowed (' ' :: (s ++ lineEnd k m rest))) (hs : ReadsPlain s)
    (hstop : Stops rest) (hsep : m = 0 → ¬MaySeparate rest) (hunmarked : rest.head? ≠ some '\uFEFF')
    (hm : (m : Int) ≤ d.indent) (hcolumn : d.indent < l.cursor.column) :
    ∃ l', Emits 2 l [.scalar (Text.ofChars s) true] l' ∧ l'.Rests d true rest ∧
      l'.cursor.column = m := by
  obtain ⟨ch, tail, hfirst, hblank, hhash, hbreak, hplain⟩ :=
    hs.first (List.replicate k '\n' ++ (List.replicate m ' ' ++ rest))
  have hstop' : Stops (s ++ lineEnd k m rest) := by
    rw [hfirst]
    intro y hy
    obtain rfl := Option.some.inj hy
    exact ⟨hblank, hbreak⟩
  have hremark : (s ++ lineEnd k m rest).head? ≠ some '#' := by
    rw [hfirst]
    intro he
    exact hhash (Option.some.inj he)
  have h' : l.Rests d allowed
      (linesText [] ++ (List.replicate 1 ' ' ++ (s ++ lineEnd k m rest))) := h
  obtain ⟨c, hskip, hahead, hfits, hcol⟩ := h'.skip (by simp) hstop' hremark
  have hcol' : c.column = l.cursor.column + 1 := hcol
  let l₁ : Lexer := { l with cursor := c, keyAllowed := allowed }
  have hskip' : l.skipToToken.dropStale = .ok l₁ := by
    rw [hskip]
    simp [l₁]
  have hrest : l₁.cursor.rest = ch :: (tail ++ lineEnd k m rest) := by
    rw [← List.cons_append, ← hfirst]
    exact hahead
  have hstay : l₁.unwind l₁.cursor.column = l₁ := by
    refine unwind_stay ?_
    show l.indent ≤ (c.column : Int)
    rw [h.indent, hcol']
    omega
  have hfetch := fetch_plain hskip' h.nesting hrest hplain fun hzero => by
    have : c.column = 0 := hzero
    omega
  rw [hstay] at hfetch
  have hindent : (m : Int) ≤ l₁.indent := by
    show (m : Int) ≤ l.indent
    rw [h.indent]
    exact hm
  have hright : l₁.indent < (c.column : Int) := by
    show l.indent < (c.column : Int)
    rw [h.indent, hcol']
    omega
  -- Whether the scalar was proposed for a key does not matter behind the end of its line.
  obtain ⟨candidates, hpropose, hopen⟩ := propose_inside (l := l₁) h.nesting h.candidates
    (Int.ne_of_lt hright)
  obtain ⟨stop, c', hscalar, hbehind, hsize', hcolumn', hline⟩ :=
    plainScalar_line l₁.indent hahead hs hfits hstop hsep hindent hright
  rw [plain_of_propose hpropose h.nesting hscalar] at hfetch
  let l₂ : Lexer := { l₁ with
    held := l₁.held ++ [⟨.scalar (Text.ofChars s) true, l₁.mark, stop⟩], cursor := c',
    keyAllowed := true, candidates := candidates }
  have hheld : l₂.held = [⟨.scalar (Text.ofChars s) true, l₁.mark, stop⟩] := by
    show l.held ++ _ = _
    rw [h.held, List.nil_append]
  have hstale : l₂.dropStale = .ok { l₂ with candidates := [] } := dropStale_of_stale fun x hx => by
    obtain ⟨hrequired, hmark⟩ := hopen x hx
    refine ⟨?_, hrequired⟩
    have hbefore : x.2.mark.line = c.mark.line := hmark
    have hne : x.2.mark.line ≠ c'.mark.line := by omega
    simp only [isStale, Bool.or_eq_true, bne_iff_ne]
    exact .inl hne
  have hread : Emits 1 l [] l₂ := emits_fetch h.running h.held hfetch
  have hfree := emits_free (l := l₂) h.running hheld hstale rfl
  refine ⟨_, hread.trans hfree, ⟨h.nesting, rfl, rfl, h.running, h.indent, h.outer, rfl, hbehind,
    ?_, hunmarked⟩, hcolumn'⟩
  show c'.rest.length ≤ c'.size
  have hlength := congrArg List.length hahead
  simp only [lineEnd, List.length_append, List.length_cons] at hlength
  rw [hsize', hbehind]
  omega

/-- The tokens that open a list at its first hyphen. -/
def Depth.openingItems : Depth → List TokenKind
  | items => []
  | outside | mapping => [.blockSequenceStart]

theorem openBlockHere_items {d : Depth} {l : Lexer} (hd : d ≠ .outside) (hheld : l.held = [])
    (hindent : l.indent = d.indent) (houter : l.outer = d.outer) (hcolumn : l.cursor.column = 2) :
    ∃ ts : List Token, ts.map (·.kind) = d.openingItems ∧
      l.openBlockHere .blockSequenceStart =
        { l with held := ts, indent := 2, outer := [0, -1] } := by
  unfold openBlockHere openBlock
  rw [hcolumn]
  cases d with
  | outside => exact absurd rfl hd
  | mapping =>
    refine ⟨[⟨.blockSequenceStart, l.mark, l.mark⟩], rfl, ?_⟩
    have hopens : l.indent < ((2 : Nat) : Int) := by
      rw [hindent]
      decide
    simp only [hopens, if_true]
    unfold pushHere push
    simp only [hheld, hindent, houter]
    rfl
  | items =>
    refine ⟨[], rfl, ?_⟩
    have hstays : ¬l.indent < ((2 : Nat) : Int) := by
      rw [hindent]
      decide
    simp only [hstays, if_false]
    show l = { l with held := [], indent := 2, outer := [0, -1] }
    rw [← hheld, ← show l.indent = 2 from hindent, ← show l.outer = [0, -1] from houter]

/-- A hyphen where a key may begin is an item, in a list that opens if need be. -/
theorem entry_items {d : Depth} {l : Lexer} (hd : d ≠ .outside) (hnesting : l.nesting = 0)
    (hallowed : l.keyAllowed = true) (hcandidates : l.candidates = []) (hheld : l.held = [])
    (hindent : l.indent = d.indent) (houter : l.outer = d.outer) (hcolumn : l.cursor.column = 2) :
    ∃ ts : List Token, ts.map (·.kind) = d.openingItems ++ [.blockEntry] ∧
      l.entry = .ok { l with
        held := ts, indent := 2, outer := [0, -1], cursor := l.cursor.advance 1,
        keyAllowed := true } := by
  obtain ⟨ts, hts, hopens⟩ := openBlockHere_items hd hheld hindent houter hcolumn
  have hflow : ¬l.nesting > 0 := by
    rw [hnesting]
    decide
  have hrefused : ¬(!l.keyAllowed) = true := by simp [hallowed]
  refine ⟨ts ++ [⟨.blockEntry, l.mark, (l.cursor.advance 1).mark⟩], ?_, ?_⟩
  · rw [List.map_append, hts]
    rfl
  · unfold entry
    rw [if_neg hflow, if_neg hrefused, hopens]
    show ((giveUp _).bind fun l => .ok (l.pushAhead .blockEntry 1)) = _
    rw [giveUp_of_none
      (l := { l with held := ts, indent := 2, outer := [0, -1], keyAllowed := true }) hcandidates]
    rfl

theorem reads_entry {d : Depth} {allowed : Bool} {ls : List (List Char)} {n : Nat}
    {rest : List Char} {l : Lexer}
    (h : l.Rests d allowed (linesText ls ++ (List.replicate n ' ' ++ '-' :: ' ' :: rest)))
    (hd : d ≠ .outside) (hls : ∀ line ∈ ls, IsRemark line)
    (hallowed : (allowed || !ls.isEmpty) = true)
    (hcolumn : (if ls.isEmpty then l.cursor.column + n else n) = 2) :
    ∃ l', Emits 3 l (d.openingItems ++ [.blockEntry]) l' ∧
      l'.Rests .items true (' ' :: rest) ∧ l'.cursor.column = 3 := by
  have hstop : Stops ('-' :: ' ' :: rest) := by
    intro y hy
    obtain rfl := Option.some.inj hy
    exact ⟨by decide, rfl⟩
  obtain ⟨c, hskip, hahead, hfits, hcol⟩ := h.skip hls hstop (by simp)
  rw [hcolumn] at hcol
  rw [hallowed] at hskip
  let l₁ : Lexer := { l with cursor := c, keyAllowed := true }
  have hstay : l₁.unwind l₁.cursor.column = l₁ := by
    refine unwind_stay ?_
    show l.indent ≤ (c.column : Int)
    rw [h.indent, hcol]
    cases d <;> decide
  -- Away from the margin the dash is no document mark.
  have hright : l₁.cursor.column ≠ 0 := by
    rw [show l₁.cursor.column = 2 from hcol]
    decide
  have hfetch := fetch_entry hskip hahead rfl hright
  rw [hstay] at hfetch
  obtain ⟨ts, hkinds, hentry⟩ := entry_items (l := l₁) hd h.nesting rfl h.candidates h.held
    h.indent h.outer hcol
  let l₂ : Lexer := { l₁ with
    held := ts, indent := 2, outer := [0, -1], cursor := c.advance 1 }
  have hread : Emits 1 l [] l₂ := emits_fetch h.running h.held (hfetch.trans hentry)
  have hall := hread.trans (emits_tokens (l := l₂) h.running h.candidates)
  have hcount : 1 + l₂.held.length ≤ 3 := by
    rw [← List.length_map, hkinds]
    cases d <;> decide
  rw [List.nil_append, hkinds] at hall
  have hpasses : c.Passes ['-'] (c.advance 1) :=
    passes_advance (s := ['-']) hahead (List.forall_mem_singleton.mpr rfl)
  have hbehind : (c.advance 1).rest = ' ' :: rest := by
    rw [rest_advance, hahead]
    rfl
  refine ⟨_, hall.mono hcount, ⟨h.nesting, rfl, h.candidates, h.running, rfl, rfl, rfl, hbehind,
    hpasses.fits hfits, by simp⟩, ?_⟩
  show (c.advance 1).column = 3
  rw [hpasses.exact (by decide), hcol]
  rfl

end Lexer

end EditorLint.Yaml
