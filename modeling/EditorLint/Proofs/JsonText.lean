import EditorLint.Proofs.JsonStrings
import EditorLint.Proofs.Overlay

/-!
# JSON texts

What is written as JSON is one line of plain characters (`isPlain_write`), so it can be printed
whatever is in it, and it is read as the value that was written (`read_write`).  For this its
integers may not have more digits than are converted, its lists and mappings may not be nested
too deeply, no key may come twice in a mapping, and no text in it may have the two halves of a
surrogate pair one after the other.
-/

namespace EditorLint

namespace Json

/-! ## Numbers and words -/

/-- What may stand behind a value: nothing, a comma, or the end of a list or a mapping. -/
def Closes (rest : List Char) : Prop := ∀ c ∈ rest.head?, c = ',' ∨ c = ']' ∨ c = '}'

section Closes

variable {rest : List Char} (h : Closes rest)
include h

theorem Closes.startsWithDigit : startsWithDigit rest = false := by
  cases rest with
  | nil => rfl
  | cons c rest => rcases h c rfl with rfl | rfl | rfl <;> rfl

theorem Closes.fraction : fraction rest = (none, rest) := by
  cases rest with
  | nil => rfl
  | cons c rest => rcases h c rfl with rfl | rfl | rfl <;> rfl

theorem Closes.exponent : exponent rest = (none, rest) := by
  cases rest with
  | nil => rfl
  | cons c rest => rcases h c rfl with rfl | rfl | rfl <;> rfl

end Closes

theorem isDigit_of_mem_toDigits {n : Nat} {c : Char} (h : c ∈ Nat.toDigits 10 n) :
    c.isDigit = true :=
  Nat.isDigit_of_mem_toDigits (by decide) (by decide) h

theorem startsWithDigit_toDigits (n : Nat) (rest : List Char) :
    startsWithDigit (Nat.toDigits 10 n ++ rest) = true := by
  have hlength := Nat.length_toDigits_pos (b := 10) (n := n)
  cases hdigits : Nat.toDigits 10 n with
  | nil =>
    rw [hdigits] at hlength
    cases hlength
  | cons c s => exact isDigit_of_mem_toDigits (hdigits ▸ List.mem_cons_self)

theorem head_toDigits {n : Nat} (hn : n ≠ 0) :
    ∃ c more, Nat.toDigits 10 n = c :: more ∧ c ≠ '0' := by
  induction n using Nat.strongRecOn with
  | ind n ih =>
    by_cases hsmall : n < 10
    · have hdigit : ∀ n < 10, n ≠ 0 → n.digitChar ≠ '0' := by decide
      exact ⟨_, _, Nat.toDigits_of_lt_base hsmall, hdigit n hsmall hn⟩
    · obtain ⟨c, more, hfirst, hc⟩ :=
        ih (n / 10) (Nat.div_lt_self (by omega) (by decide)) (by omega)
      refine ⟨c, more ++ [(n % 10).digitChar], ?_, hc⟩
      rw [Nat.toDigits_of_base_le (by decide) (by omega), hfirst]
      rfl

theorem whole?_toDigits (n : Nat) {rest : List Char} (hrest : startsWithDigit rest = false) :
    whole? (Nat.toDigits 10 n ++ rest) = some (Nat.toDigits 10 n, rest) := by
  by_cases hn : n = 0
  · subst hn
    rfl
  · obtain ⟨c, more, hdigits, hc⟩ := head_toDigits hn
    have hall (d : Char) (hd : d ∈ Nat.toDigits 10 n) : d.isDigit = true :=
      isDigit_of_mem_toDigits hd
    have hnone : rest.takeWhile Char.isDigit = [] ∧ rest.dropWhile Char.isDigit = rest := by
      cases rest with
      | nil => exact ⟨rfl, rfl⟩
      | cons d rest =>
        have hd : ¬d.isDigit = true := Bool.eq_false_iff.mp hrest
        exact ⟨List.takeWhile_cons_of_neg hd, List.dropWhile_cons_of_neg hd⟩
    have htake : (Nat.toDigits 10 n ++ rest).takeWhile Char.isDigit =
        Nat.toDigits 10 n ++ rest.takeWhile Char.isDigit := List.takeWhile_append_of_pos hall
    have hdrop : (Nat.toDigits 10 n ++ rest).dropWhile Char.isDigit =
        rest.dropWhile Char.isDigit := List.dropWhile_append_of_pos hall
    rw [hnone.1, List.append_nil] at htake
    rw [hnone.2] at hdrop
    unfold whole?
    split
    · rename_i hzero
      rw [hdigits] at hzero
      exact absurd (List.cons.inj hzero).1 hc
    · rw [if_pos (startsWithDigit_toDigits n rest), htake, hdrop]

theorem number_toDigits {n : Nat} (short : (Nat.toDigits 10 n).length ≤ maxDigits)
    {rest : List Char} (hrest : Closes rest) (negative : Bool) (start : List Char) :
    number negative start (Nat.toDigits 10 n ++ rest) =
      .ok (.int (if negative then -n else n), rest) := by
  unfold number
  rw [whole?_toDigits n hrest.startsWithDigit]
  dsimp only
  rw [hrest.fraction]
  dsimp only
  rw [hrest.exponent]
  dsimp only
  rw [if_neg (Nat.not_lt_of_le short), Numeral.value_toDigits]
  rfl

theorem word?_of_startsWithDigit {s : List Char} (h : startsWithDigit s = true) :
    word? s = none ∧ word? ('-' :: s) = none := by
  cases s with
  | nil => cases h
  | cons c s =>
    have hother {d : Char} (hd : d.isDigit = false) : (d == c) = false := by
      refine beq_eq_false_iff_ne.mpr ?_
      rintro rfl
      rw [show d.isDigit = true from h] at hd
      cases hd
    have hwords : ∀ w ∈ words,
        w.1.isPrefixOf (c :: s) = false ∧ w.1.isPrefixOf ('-' :: c :: s) = false := by
      simp [words, List.isPrefixOf, hother]
    unfold word?
    constructor
    · rw [List.find?_eq_none.mpr fun w hw => Bool.eq_false_iff.mp (hwords w hw).1]
      rfl
    · rw [List.find?_eq_none.mpr fun w hw => Bool.eq_false_iff.mp (hwords w hw).2]
      rfl

theorem value_ofInt {n : Int} (short : (Nat.toDigits 10 n.natAbs).length ≤ maxDigits)
    {rest : List Char} (hrest : Closes rest) (depth : Nat) :
    value depth ((Text.ofInt n).shown ++ rest) = .ok (.int n, rest) := by
  cases n with
  | ofNat n =>
    show value depth ((Text.ofNat n).shown ++ rest) = _
    have hstarts := startsWithDigit_toDigits n rest
    have hother {d : Char} (hd : d.isDigit = false) {s : List Char} {P : Prop}
        (h : Nat.toDigits 10 n ++ rest = d :: s) : P := by
      rw [h, show startsWithDigit (d :: s) = false from hd] at hstarts
      cases hstarts
    rw [Text.shown_ofNat, value.eq_7 depth _ (fun _ => hother rfl) (fun _ _ => hother rfl)
      (fun _ _ => hother rfl) (fun _ _ _ => hother rfl) (fun _ _ _ => hother rfl)
      (fun _ => hother rfl), (word?_of_startsWithDigit hstarts).1]
    exact number_toDigits short hrest false _
  | negSucc n =>
    show value depth ('-' :: ((Text.ofNat (n + 1)).shown ++ rest)) = _
    have hother {d : Char} (hd : d ≠ '-') {s s' : List Char} {P : Prop}
        (h : '-' :: s = d :: s') : P := absurd (List.cons.inj h).1.symm hd
    rw [Text.shown_ofNat, value.eq_6 depth _ (fun _ => hother (by decide))
      (fun _ _ => hother (by decide)) (fun _ _ => hother (by decide))
      (fun _ _ _ => hother (by decide)) (fun _ _ _ => hother (by decide)),
      (word?_of_startsWithDigit (startsWithDigit_toDigits (n + 1) rest)).2]
    exact number_toDigits short hrest true _

theorem value_null (depth : Nat) (rest : List Char) :
    value depth ('n' :: 'u' :: 'l' :: 'l' :: rest) = .ok (.null, rest) := by
  cases depth <;> rfl

theorem value_bool (b : Bool) (depth : Nat) (rest : List Char) :
    value depth ((write (.bool b)).shown ++ rest) = .ok (.bool b, rest) := by
  cases b <;> cases depth <;> rfl

theorem value_quote {t : Text} (h : t.Unpaired) (depth : Nat) (rest : List Char) :
    value depth ((quote t).shown ++ rest) = .ok (.text t, rest) := by
  have hquoted : (quote t).shown ++ rest = '"' :: (escapes t ++ '"' :: rest) := by
    show '"' :: (Text.shown (t.flatMap escapeCode ++ [.scalar '"']) ++ rest) = _
    rw [Text.shown_append, List.append_assoc]
    rfl
  rw [hquoted, value.eq_5, string_escapes h]
  rfl

/-! ## Lists and mappings -/

/-- A value does not begin with a blank, the end of a list or a mapping, or a mark. -/
def Begins (s : List Char) : Prop :=
  ∃ c more, s = c :: more ∧ isBlank c = false ∧ c ≠ ']' ∧ c ≠ '}' ∧ c ≠ '\uFEFF'

theorem Begins.skip {s : List Char} (h : Begins s) (rest : List Char) :
    skip (s ++ rest) = s ++ rest := by
  obtain ⟨c, more, rfl, hblank, -⟩ := h
  exact List.dropWhile_cons_of_neg (by rw [hblank]; decide)

def writeEntry (e : Datum × Datum) : Text := quote (name e.1) ++ ": " ++ write e.2

theorem writeItems_eq_map (items : List Datum) : writeItems items = items.map write := by
  induction items with
  | nil => rfl
  | cons d items ih =>
    unfold writeItems
    rw [ih]
    rfl

theorem writeEntries_eq_map (es : Entries) : writeEntries es = es.map writeEntry := by
  induction es with
  | nil => rfl
  | cons e es ih =>
    unfold writeEntries
    rw [ih]
    rfl

/-- The texts behind the first one, each with its comma. -/
def tail {α : Type} (write : α → Text) (as : List α) : List Char :=
  as.flatMap fun a => ',' :: ' ' :: (write a).shown

theorem shown_join {α : Type} (write : α → Text) (a : α) (as : List α) :
    (Text.join ", " ((a :: as).map write)).shown = (write a).shown ++ tail write as := by
  induction as generalizing a with
  | nil => exact (List.append_nil _).symm
  | cons b as ih =>
    have hjoin : Text.join ", " ((a :: b :: as).map write) =
        write a ++ ", " ++ Text.join ", " ((b :: as).map write) := rfl
    rw [hjoin, Text.shown_append, Text.shown_append, ih, List.append_assoc]
    rfl

theorem length_le_tail {α : Type} (write : α → Text) (as : List α) :
    as.length ≤ (tail write as).length := by
  induction as with
  | nil => exact Nat.le_refl 0
  | cons a as ih =>
    unfold tail at ih ⊢
    rw [List.flatMap_cons, List.length_append, List.length_cons, List.length_cons]
    omega

/-- Something is written in a form in which it is read again, whatever stands behind it. -/
structure Legible {α : Type} (item : Reader α) (write : α → Text) (a : α) : Prop where
  begins : Begins (write a).shown
  reads : ∀ rest, Closes rest → item ((write a).shown ++ rest) = .ok (a, rest)

theorem closes_tail {α : Type} (write : α → Text) (as : List α) {c : Char}
    (hc : c = ']' ∨ c = '}') (rest : List Char) : Closes (tail write as ++ c :: rest) := by
  cases as with
  | nil =>
    rintro _ ⟨⟩
    exact .inr hc
  | cons a as =>
    rintro _ ⟨⟩
    exact .inl rfl

/-- Lists and mappings are read alike: `whole` reads one thing after the other with `item`, up to
the bracket `close`, and `more` what comes behind the first one.  Nothing is read in another
way. -/
structure Series {α : Type} (item : Reader α) (more : Nat → Reader (List α))
    (whole : Reader (List α)) (close : Char) : Prop where
  bracket : close = ']' ∨ close = '}'
  ends : ∀ fuel rest, more (fuel + 1) (close :: rest) = .ok ([], rest)
  goesOn : ∀ fuel rest, more (fuel + 1) (',' :: rest) = (do
    let (a, rest) ← item (skip rest)
    let (as, rest) ← more fuel rest
    return (a :: as, rest))
  nothing : ∀ rest, whole (close :: rest) = .ok ([], rest)
  first : ∀ s rest, Begins s → whole (s ++ rest) = (do
    let (a, rest') ← item (s ++ rest)
    let (as, rest') ← more ((s ++ rest).length + 1) rest'
    return (a :: as, rest'))
  ofMore : ∀ fuel s as rest, more fuel s = .ok (as, rest) → as = [] ∨ ∃ fuel' a as' s' rest',
    fuel = fuel' + 1 ∧ item s' = .ok (a, rest') ∧ more fuel' rest' = .ok (as', rest) ∧ as = a :: as'
  ofWhole : ∀ s as rest, whole s = .ok (as, rest) → as = [] ∨ ∃ fuel a as' s' rest',
    item s' = .ok (a, rest') ∧ more fuel rest' = .ok (as', rest) ∧ as = a :: as'

namespace Series

variable {α : Type} {item : Reader α} {more : Nat → Reader (List α)} {whole : Reader (List α)}
  {close : Char} (series : Series item more whole close) {write : α → Text}
include series

theorem more_tail {as : List α} (h : ∀ a ∈ as, Legible item write a) (rest : List Char)
    (fuel : Nat) (hfuel : as.length < fuel) :
    more fuel (tail write as ++ close :: rest) = .ok (as, rest) := by
  -- On the items, each of which takes one of the fuel; so does the bracket that closes them.
  induction as generalizing fuel with
  | nil =>
    cases fuel with
    | zero => cases hfuel
    | succ fuel => exact series.ends fuel rest
  | cons a as ih =>
    cases fuel with
    | zero => cases hfuel
    | succ fuel =>
      obtain ⟨ha, has⟩ := List.forall_mem_cons.mp h
      have hskip : skip (' ' :: ((write a).shown ++ (tail write as ++ close :: rest))) =
          (write a).shown ++ (tail write as ++ close :: rest) := ha.begins.skip _
      have htail : tail write (a :: as) ++ close :: rest =
          ',' :: ' ' :: ((write a).shown ++ (tail write as ++ close :: rest)) := by
        show ',' :: ' ' :: ((write a).shown ++ tail write as ++ close :: rest) = _
        rw [List.append_assoc]
      rw [htail, series.goesOn, hskip, ha.reads _ (closes_tail write as series.bracket rest)]
      show (do
        let (as, rest) ← more fuel (tail write as ++ close :: rest)
        return (a :: as, rest)) = _
      rw [ih has fuel (Nat.lt_of_succ_lt_succ hfuel)]
      rfl

/-- A list or a mapping is read as it was written if what is in it is. -/
theorem whole_join {as : List α} (h : ∀ a ∈ as, Legible item write a) (rest : List Char) :
    whole ((Text.join ", " (as.map write)).shown ++ close :: rest) = .ok (as, rest) := by
  cases as with
  | nil => exact series.nothing rest
  | cons a as =>
    obtain ⟨ha, has⟩ := List.forall_mem_cons.mp h
    have hlength := length_le_tail write as
    rw [shown_join, List.append_assoc, series.first _ _ ha.begins,
      ha.reads _ (closes_tail write as series.bracket rest)]
    show (do
      let (as, rest) ← more _ (tail write as ++ close :: rest)
      return (a :: as, rest)) = _
    rw [series.more_tail has]
    · rfl
    · rw [List.length_append, List.length_append]
      omega

/-- Whatever is in a list or a mapping that is read was read by `item`. -/
theorem of_whole {s rest : List Char} {as : List α} (h : whole s = .ok (as, rest)) :
    ∀ a ∈ as, ∃ s' rest', item s' = .ok (a, rest') := by
  have hmore (fuel : Nat) (s rest : List Char) (as : List α) (h : more fuel s = .ok (as, rest)) :
      ∀ a ∈ as, ∃ s' rest', item s' = .ok (a, rest') := by
    induction fuel generalizing s as with
    | zero =>
      rcases series.ofMore _ _ _ _ h with rfl | ⟨fuel, _, _, _, _, hfuel, -⟩
      · exact fun a ha => nomatch ha
      · cases hfuel
    | succ fuel ih =>
      rcases series.ofMore _ _ _ _ h with rfl | ⟨_, a, as', s', rest', ⟨⟩, ha, has, rfl⟩
      · exact fun a ha => nomatch ha
      · exact List.forall_mem_cons.mpr ⟨⟨s', rest', ha⟩, ih _ _ has⟩
  rcases series.ofWhole _ _ _ h with rfl | ⟨fuel, a, as', s', rest', ha, has, rfl⟩
  · exact fun a ha => nomatch ha
  · exact List.forall_mem_cons.mpr ⟨⟨s', rest', ha⟩, hmore _ _ _ _ has⟩

end Series

section Readers

variable (item : Reader Datum)

theorem series_array : Series item (moreItems item) (array item) ']' where
  bracket := .inl rfl
  ends _ _ := rfl
  goesOn _ _ := rfl
  nothing _ := rfl
  first s rest h := by
    unfold array
    rw [h.skip]
    split
    · rename_i hempty
      obtain ⟨c, more, rfl, -, hc, -⟩ := h
      exact absurd (List.cons.inj hempty).1 hc
    · rfl
  ofMore fuel s as rest h := by
    cases fuel with
    | zero => cases h
    | succ fuel =>
      unfold moreItems at h
      split at h
      · cases h
        exact .inl rfl
      · obtain ⟨⟨a, rest'⟩, ha, h⟩ := bind_eq_ok.mp h
        obtain ⟨⟨as', rest''⟩, has, h⟩ := bind_eq_ok.mp h
        cases h
        exact .inr ⟨fuel, a, as', _, rest', rfl, ha, has, rfl⟩
      · cases h
  ofWhole s as rest h := by
    unfold array at h
    split at h
    · cases h
      exact .inl rfl
    · obtain ⟨⟨a, rest'⟩, ha, h⟩ := bind_eq_ok.mp h
      obtain ⟨⟨as', rest''⟩, has, h⟩ := bind_eq_ok.mp h
      cases h
      exact .inr ⟨_, a, as', _, rest', ha, has, rfl⟩

theorem series_object : Series (entry item) (moreEntries item) (object item) '}' where
  bracket := .inr rfl
  ends _ _ := rfl
  goesOn _ _ := rfl
  nothing _ := rfl
  first s rest h := by
    unfold object
    rw [h.skip]
    split
    · rename_i hempty
      obtain ⟨c, more, rfl, -, -, hc, -⟩ := h
      exact absurd (List.cons.inj hempty).1 hc
    · rfl
  ofMore fuel s as rest h := by
    cases fuel with
    | zero => cases h
    | succ fuel =>
      unfold moreEntries at h
      split at h
      · cases h
        exact .inl rfl
      · obtain ⟨⟨a, rest'⟩, ha, h⟩ := bind_eq_ok.mp h
        obtain ⟨⟨as', rest''⟩, has, h⟩ := bind_eq_ok.mp h
        cases h
        exact .inr ⟨fuel, a, as', _, rest', rfl, ha, has, rfl⟩
      · cases h
  ofWhole s as rest h := by
    unfold object at h
    split at h
    · cases h
      exact .inl rfl
    · obtain ⟨⟨a, rest'⟩, ha, h⟩ := bind_eq_ok.mp h
      obtain ⟨⟨as', rest''⟩, has, h⟩ := bind_eq_ok.mp h
      cases h
      exact .inr ⟨_, a, as', _, rest', ha, has, rfl⟩

variable {item}

theorem legible_entry {t : Text} (ht : t.Unpaired) {d : Datum} (hd : Legible item write d) :
    Legible (entry item) writeEntry (.text t, d) := by
  have hwritten (rest : List Char) : (writeEntry (.text t, d)).shown ++ rest =
      '"' :: (escapes t ++ '"' :: ':' :: ' ' :: ((write d).shown ++ rest)) := by
    show '"' :: (Text.shown (t.flatMap escapeCode ++ [.scalar '"'] ++ [.scalar ':', .scalar ' '] ++
      write d) ++ rest) = _
    rw [Text.shown_append, Text.shown_append, Text.shown_append, List.append_assoc,
      List.append_assoc, List.append_assoc]
    rfl
  constructor
  · exact ⟨'"', _, (List.append_nil _).symm.trans (hwritten []), rfl, by decide, by decide,
      by decide⟩
  · intro rest hrest
    have hskip : skip (' ' :: ((write d).shown ++ rest)) = (write d).shown ++ rest :=
      hd.begins.skip rest
    rw [hwritten]
    refine (entry.eq_1 item (escapes t ++ '"' :: ':' :: ' ' :: ((write d).shown ++ rest))).trans ?_
    rw [string_escapes ht]
    show (item (skip (' ' :: ((write d).shown ++ rest))) >>= fun read =>
      .ok ((Datum.text t, read.1), read.2)) = _
    rw [hskip, hd.reads rest hrest]
    rfl

end Readers

end Json

/-- Assignments to keys of which none comes twice are the entries that they leave. -/
theorem Entries.ofAssignments_of_distinct {es : Entries} (h : es.Distinct) :
    ofAssignments es = es := by
  have hlast {done : Entries} {x : Datum × Datum} (h : ∀ y ∈ done, y.1.sameKey x.1 = false) :
      insert x.1 x.2 done = done ++ [x] := by
    induction done with
    | nil => rfl
    | cons y done ih =>
      obtain ⟨hy, hdone⟩ := List.forall_mem_cons.mp h
      unfold insert
      rw [hy, ih hdone]
      rfl
  have hall (done es : Entries) (h : Distinct (done ++ es)) :
      es.foldl (fun acc x => insert x.1 x.2 acc) done = done ++ es := by
    induction es generalizing done with
    | nil => exact (List.append_nil done).symm
    | cons x es ih =>
      have hnew : ∀ y ∈ done, y.1.sameKey x.1 = false := fun y hy =>
        (List.pairwise_append.mp h).2.2 y hy x List.mem_cons_self
      rw [List.foldl_cons, hlast hnew, ih]
      · exact List.append_assoc done [x] es
      · rwa [List.append_assoc]
  exact hall [] es h

namespace Json

/-! ## Values -/

/-- An integer that has no more digits than are converted. -/
def Small (n : Int) : Prop := (Nat.toDigits 10 n.natAbs).length ≤ maxDigits

/-- Data that are read as they were written, with at most `depth` lists and mappings one inside
another. -/
inductive Sound : Nat → Datum → Prop where
  | null {depth : Nat} : Sound depth .null
  | bool {depth : Nat} (b : Bool) : Sound depth (.bool b)
  | int {depth : Nat} {n : Int} (small : Small n) : Sound depth (.int n)
  | text {depth : Nat} {t : Text} (unpaired : t.Unpaired) : Sound depth (.text t)
  | list {depth : Nat} {ds : List Datum} (items : ∀ d ∈ ds, Sound depth d) :
    Sound (depth + 1) (.list ds)
  | mapping {depth : Nat} {es : Entries} (names : ∀ e ∈ es, ∃ t, e.1 = .text t ∧ t.Unpaired)
    (distinct : es.Distinct) (values : ∀ e ∈ es, Sound depth e.2) : Sound (depth + 1) (.mapping es)

theorem begins_write {depth : Nat} {d : Datum} (h : Sound depth d) : Begins (write d).shown := by
  cases h with
  | null => exact ⟨'n', _, rfl, by decide⟩
  | bool b =>
    cases b with
    | true => exact ⟨'t', _, rfl, by decide⟩
    | false => exact ⟨'f', _, rfl, by decide⟩
  | @int _ n small =>
    cases n with
    | ofNat n =>
      have hdigits : (write (.int (.ofNat n))).shown = Nat.toDigits 10 n ++ [] :=
        (Text.shown_ofNat n).trans (List.append_nil _).symm
      have hstarts := startsWithDigit_toDigits n []
      rw [hdigits]
      cases hfirst : Nat.toDigits 10 n ++ [] with
      | nil =>
        rw [hfirst] at hstarts
        cases hstarts
      | cons c more =>
        have hc : c.isDigit = true := by rwa [hfirst] at hstarts
        have hother {d : Char} (hd : d.isDigit = false) : c ≠ d := by
          rintro rfl
          rw [hc] at hd
          cases hd
        refine ⟨c, more, rfl, ?_, hother rfl, hother rfl, hother rfl⟩
        simp [isBlank, hother]
    | negSucc n => exact ⟨'-', _, rfl, by decide⟩
  | text unpaired => exact ⟨'"', _, rfl, by decide⟩
  | list items => exact ⟨'[', _, rfl, by decide⟩
  | mapping names distinct values => exact ⟨'\x7b', _, rfl, by decide⟩

theorem legible_value {depth : Nat} {d : Datum} (h : Sound depth d) :
    Legible (value depth) write d := by
  refine ⟨begins_write h, ?_⟩
  -- On the data: what is inside a list or a mapping is one level deeper.
  induction h with
  | @null depth => exact fun rest _ => value_null depth rest
  | @bool depth b => exact fun rest _ => value_bool b depth rest
  | @int depth n small => exact fun rest hrest => value_ofInt small hrest depth
  | @text depth t unpaired => exact fun rest _ => value_quote unpaired depth rest
  | @list depth ds items ih =>
    intro rest _
    have hlegible (d : Datum) (hd : d ∈ ds) : Legible (value depth) write d :=
      ⟨begins_write (items d hd), ih d hd⟩
    have hwritten : (write (.list ds)).shown ++ rest =
        '[' :: ((Text.join ", " (ds.map write)).shown ++ ']' :: rest) := by
      unfold write
      rw [writeItems_eq_map, Text.shown_append, Text.shown_append, List.append_assoc,
        List.append_assoc]
      rfl
    rw [hwritten, value.eq_3, (series_array _).whole_join hlegible]
    rfl
  | @mapping depth es names distinct values ih =>
    intro rest _
    have hlegible (e : Datum × Datum) (he : e ∈ es) :
        Legible (entry (value depth)) writeEntry e := by
      obtain ⟨name, d⟩ := e
      obtain ⟨t, rfl, ht⟩ := names _ he
      exact legible_entry ht ⟨begins_write (values _ he), ih _ he⟩
    have hwritten : (write (.mapping es)).shown ++ rest =
        '\x7b' :: ((Text.join ", " (es.map writeEntry)).shown ++ '\x7d' :: rest) := by
      unfold write
      rw [writeEntries_eq_map, Text.shown_append, Text.shown_append, List.append_assoc,
        List.append_assoc]
      rfl
    rw [hwritten, value.eq_4, (series_object _).whole_join hlegible]
    show Except.ok (Datum.mapping (Entries.ofAssignments es), rest) = _
    rw [Entries.ofAssignments_of_distinct distinct]

/-- What was written is read again. -/
theorem read_write {d : Datum} (h : Sound maxDepth d) : read (write d).shown = .ok d := by
  have hlegible := legible_value h
  have hskip := hlegible.begins.skip []
  have hvalue := hlegible.reads [] fun _ hc => nomatch hc
  rw [List.append_nil] at hskip hvalue
  unfold read
  split
  · rename_i hmark
    obtain ⟨c, more, hfirst, -, -, -, hc⟩ := hlegible.begins
    rw [hfirst] at hmark
    exact absurd (List.cons.inj hmark).1 hc
  · rw [hskip, hvalue]
    rfl

end Json

/-! ## Plain lines -/

def Text.IsPlain (t : Text) : Prop := ∀ c ∈ t, 0x20 ≤ c.value ∧ c.value < 0x7F

namespace Text

instance (t : Text) : Decidable t.IsPlain := inferInstanceAs (Decidable (∀ c ∈ t, _))

theorem isPlain_append {s t : Text} : IsPlain (s ++ t) ↔ s.IsPlain ∧ t.IsPlain :=
  List.forall_mem_append

theorem IsPlain.isWhole {t : Text} (h : t.IsPlain) : t.IsWhole := by
  intro c hc
  cases c with
  | scalar c => rfl
  | surrogate n =>
    have hvalue : Code.value (.surrogate n) = 0xD800 + n.val := rfl
    have := h _ hc
    omega

theorem IsPlain.printed {t : Text} (h : t.IsPlain) : t.printed = t.shown ++ ['\n'] := by
  have hescape : .scalar '\x1b' ∉ t := fun hc => absurd (h _ hc).1 (by decide)
  unfold Text.printed
  rw [unstyled_of_plain hescape]

theorem isPlain_digits {b : Nat} (hb : 1 < b) (hb' : b ≤ 16) (n : Nat) :
    IsPlain (ofChars (Nat.toDigits b n)) := by
  have hdigit : ∀ d < 16, 0x20 ≤ d.digitChar.toNat ∧ d.digitChar.toNat < 0x7F := by decide
  have hone {d : Nat} (hd : d < b) : IsPlain (ofChars [d.digitChar]) :=
    List.forall_mem_singleton.mpr (hdigit d (by omega))
  induction n using Nat.strongRecOn with
  | ind n ih =>
    by_cases hn : n < b
    · rw [Nat.toDigits_of_lt_base hn]
      exact hone hn
    · have hfirst := ih (n / b) (Nat.div_lt_self (by omega) hb)
      rw [Nat.toDigits_of_base_le hb (Nat.le_of_not_lt hn)]
      unfold ofChars
      rw [List.map_append]
      exact isPlain_append.mpr ⟨hfirst, hone (Nat.mod_lt n (by omega))⟩

theorem isPlain_zeros (n : Nat) : IsPlain (List.replicate n (.scalar '0')) := by
  intro c hc
  rw [List.eq_of_mem_replicate hc]
  decide

theorem isPlain_ofNat (n : Nat) : (ofNat n).IsPlain := isPlain_digits (by decide) (by decide) n

theorem isPlain_hex (width n : Nat) : (hex width n).IsPlain :=
  isPlain_append.mpr ⟨isPlain_zeros _, isPlain_digits (by decide) (by decide) n⟩

theorem isPlain_ofInt (n : Int) : (ofInt n).IsPlain := by
  cases n with
  | ofNat n => exact isPlain_ofNat n
  | negSucc n => exact List.forall_mem_cons.mpr ⟨by decide, isPlain_ofNat (n + 1)⟩

theorem isPlain_render (d : Decimal) : d.render.IsPlain := by
  have hdigits := isPlain_ofNat d.digits
  unfold Decimal.render
  dsimp only
  split
  · split
    · exact isPlain_append.mpr ⟨isPlain_append.mpr ⟨hdigits, isPlain_zeros _⟩, by decide⟩
    · split
      · have hpart (n : Nat) :
            IsPlain ((ofNat d.digits).take n) ∧ IsPlain ((ofNat d.digits).drop n) :=
          ⟨fun c hc => hdigits c (List.mem_of_mem_take hc),
            fun c hc => hdigits c (List.mem_of_mem_drop hc)⟩
        exact isPlain_append.mpr ⟨isPlain_append.mpr ⟨(hpart _).1, by decide⟩, (hpart _).2⟩
      · exact isPlain_append.mpr ⟨isPlain_append.mpr ⟨by decide, isPlain_zeros _⟩, hdigits⟩
  · refine isPlain_append.mpr ⟨isPlain_append.mpr ⟨isPlain_append.mpr ⟨?_, by decide⟩, ?_⟩, ?_⟩
    · split
      · rename_i one hone
        rwa [hone] at hdigits
      · rename_i one more _ hmore
        rw [hmore] at hdigits
        obtain ⟨hone, hmore⟩ := List.forall_mem_cons.mp hdigits
        exact List.forall_mem_cons.mpr ⟨hone, List.forall_mem_cons.mpr ⟨by decide, hmore⟩⟩
      · exact fun c hc => nomatch hc
    · split <;> decide
    · exact isPlain_append.mpr ⟨isPlain_zeros _, isPlain_ofNat _⟩

theorem isPlain_join {ts : List Text} (h : ∀ t ∈ ts, t.IsPlain) : (join ", " ts).IsPlain := by
  fun_induction join (Text.ofString ", ") ts with
  | case1 => exact fun c hc => nomatch hc
  | case2 t => exact h t List.mem_cons_self
  | case3 t rest _ ih =>
    obtain ⟨ht, hrest⟩ := List.forall_mem_cons.mp h
    exact isPlain_append.mpr ⟨isPlain_append.mpr ⟨ht, by decide⟩, ih hrest⟩

end Text

namespace Json

open Text

theorem isPlain_ofFloat (x : Float) : (ofFloat x).IsPlain := by
  unfold ofFloat Text.ofFloat
  repeat' split
  all_goals first
    | decide
    | exact isPlain_append.mpr ⟨by decide, isPlain_render _⟩

theorem isPlain_escapeCode (c : Code) : (escapeCode c).IsPlain := by
  have hunit (n : Nat) : (unitEscape n).IsPlain := isPlain_append.mpr ⟨by decide, isPlain_hex 4 n⟩
  unfold escapeCode
  dsimp only
  iterate 7
    split
    · decide
  split
  · rename_i hplain
    exact List.forall_mem_singleton.mpr hplain
  · split
    · exact hunit _
    · exact isPlain_append.mpr ⟨hunit _, hunit _⟩

theorem isPlain_quote (t : Text) : (quote t).IsPlain := by
  have hescapes : IsPlain (t.flatMap escapeCode) := fun c hc => by
    obtain ⟨d, -, hd⟩ := List.mem_flatMap.mp hc
    exact isPlain_escapeCode d c hd
  exact isPlain_append.mpr ⟨List.forall_mem_cons.mpr ⟨by decide, hescapes⟩, by decide⟩

mutual

/-- Whatever is written is written with printable ASCII alone. -/
theorem isPlain_write : ∀ d : Datum, (write d).IsPlain
  | .null | .bytes _ | .date _ | .moment _ | .circular _ _ | .part _ => by
    unfold write
    decide
  | .bool b => by
    unfold write
    cases b <;> decide
  | .int n => isPlain_ofInt n
  | .float x => isPlain_ofFloat x
  | .text t => isPlain_quote t
  | .list items | .set items => by
    have hitems := isPlain_join (isPlain_writeItems items)
    unfold write
    exact isPlain_append.mpr ⟨isPlain_append.mpr ⟨by decide, hitems⟩, by decide⟩
  | .pair a b => by
    have ha := isPlain_write a
    have hb := isPlain_write b
    unfold write
    simp only [isPlain_append, ha, hb]
    decide
  | .mapping es => by
    have hes := isPlain_join (isPlain_writeEntries es)
    unfold write
    exact isPlain_append.mpr ⟨isPlain_append.mpr ⟨by decide, hes⟩, by decide⟩

theorem isPlain_writeItems : ∀ (items : List Datum), ∀ t ∈ writeItems items, t.IsPlain
  | [] => fun t ht => nomatch ht
  | d :: items => by
    have hd := isPlain_write d
    have hitems := isPlain_writeItems items
    unfold writeItems
    exact List.forall_mem_cons.mpr ⟨hd, hitems⟩

theorem isPlain_writeEntries : ∀ (es : List (Datum × Datum)), ∀ t ∈ writeEntries es, t.IsPlain
  | [] => fun t ht => nomatch ht
  | (k, v) :: es => by
    have hk := isPlain_quote (name k)
    have hv := isPlain_write v
    have hes := isPlain_writeEntries es
    unfold writeEntries
    have hfirst := isPlain_append.mpr ⟨isPlain_append.mpr ⟨hk, (by decide : IsPlain ": ")⟩, hv⟩
    exact List.forall_mem_cons.mpr ⟨hfirst, hes⟩

end

end Json

end EditorLint
