import EditorLint.Json.Read
import EditorLint.Json.Write
import EditorLint.Proofs.Printing

/-!
# Numerals and strings in JSON

Digits are read as the number that they were written for (`ofDigits?_toDigits`), and a string
is read as the text that was written (`string_escapes`) unless the two halves of a surrogate
pair stand one after the other in it, which are written like the character that they make.
-/

namespace EditorLint

/-! ## Numerals -/

namespace Numeral

theorem digit?_digitChar {b d : Nat} (hb : b ≤ 16) (hd : d < b) :
    digit? b d.digitChar = some d := by
  have hall : ∀ b < 17, ∀ d < b, digit? b d.digitChar = some d := by decide
  exact hall b (Nat.lt_succ_of_le hb) d hd

theorem ofDigits?_eq_foldlM {b : Nat} {cs : List Char} (h : cs ≠ []) :
    ofDigits? b cs = cs.foldlM (fun n c => (digit? b c).map (n * b + ·)) 0 :=
  if_neg (by rwa [List.isEmpty_iff])

/-- The digits of a number are read as the number. -/
theorem ofDigits?_toDigits {b : Nat} (hb : 1 < b) (hb' : b ≤ 16) (n : Nat) :
    ofDigits? b (Nat.toDigits b n) = some n := by
  have hfilled (n : Nat) : Nat.toDigits b n ≠ [] :=
    List.ne_nil_of_length_pos Nat.length_toDigits_pos
  rw [ofDigits?_eq_foldlM (hfilled n)]
  -- On the number: all digits but the last are those of the quotient.
  induction n using Nat.strongRecOn with
  | ind n ih =>
    by_cases hn : n < b
    · rw [Nat.toDigits_of_lt_base hn, List.foldlM_cons, digit?_digitChar hb' hn, Nat.zero_mul]
      exact congrArg some (Nat.zero_add n)
    · have hle : b ≤ n := Nat.le_of_not_lt hn
      have hquotient := ih (n / b) (Nat.div_lt_self (by omega) hb)
      have hlast := digit?_digitChar hb' (Nat.mod_lt n (by omega))
      rw [Nat.toDigits_of_base_le hb hle, List.foldlM_append, hquotient]
      show (digit? b (n % b).digitChar).map (n / b * b + ·) >>= some = _
      rw [hlast]
      exact congrArg some (Nat.div_add_mod' n b)

theorem value_toDigits (n : Nat) : value (Nat.toDigits 10 n) = n := by
  unfold value
  rw [ofDigits?_toDigits (by decide) (by decide)]
  rfl

theorem ofDigits?_zeros (b k : Nat) (hb : 0 < b) {cs : List Char} (hcs : cs ≠ []) :
    ofDigits? b (List.replicate k '0' ++ cs) = ofDigits? b cs := by
  have hfilled (k : Nat) : List.replicate k '0' ++ cs ≠ [] :=
    List.append_ne_nil_of_right_ne_nil _ hcs
  have hzero : digit? b '0' = some 0 := by
    unfold digit?
    exact Option.filter_some_pos (decide_eq_true hb)
  rw [ofDigits?_eq_foldlM (hfilled k), ofDigits?_eq_foldlM hcs]
  induction k with
  | zero => rfl
  | succ k ih =>
    rw [← ih, List.replicate_succ, List.cons_append, List.foldlM_cons, hzero, Nat.zero_mul]
    rfl

end Numeral

namespace Text

theorem shown_append (s t : Text) : (s ++ t).shown = s.shown ++ t.shown := List.map_append

theorem shown_hex (width n : Nat) : (hex width n).shown =
    List.replicate (width - (Nat.toDigits 16 n).length) '0' ++ Nat.toDigits 16 n := by
  unfold hex
  rw [shown_append, shown_ofChars, ofChars, List.length_map]
  congr 1
  exact List.map_replicate

theorem shown_ofNat (n : Nat) : (ofNat n).shown = Nat.toDigits 10 n := shown_ofChars _

end Text

namespace Json

theorem length_hex {n : Nat} (h : n < 0x10000) : (Text.hex 4 n).shown.length = 4 := by
  have hshort := (Nat.length_toDigits_le_iff (b := 16) (n := n) (k := 4) (by decide)
    (by decide)).mpr h
  rw [Text.shown_hex, List.length_append, List.length_replicate]
  omega

theorem hex4?_hex {n : Nat} (h : n < 0x10000) (rest : List Char) :
    hex4? ((Text.hex 4 n).shown ++ rest) = some (n, rest) := by
  have hvalue : Numeral.ofDigits? 16 (Text.hex 4 n).shown = some n := by
    have hfilled : Nat.toDigits 16 n ≠ [] := List.ne_nil_of_length_pos Nat.length_toDigits_pos
    rw [Text.shown_hex, Numeral.ofDigits?_zeros 16 _ (by decide) hfilled,
      Numeral.ofDigits?_toDigits (by decide) (by decide)]
  match (Text.hex 4 n).shown, length_hex h, hvalue with
  | [a, b, c, d], _, hvalue =>
    show (Numeral.ofDigits? 16 [a, b, c, d]).map (·, rest) = _
    rw [hvalue]
    rfl

end Json

/-! ## Strings -/

namespace Code

/-- A code that is the first half of a surrogate pair. -/
def IsHigh (c : Code) : Prop := 0xD800 ≤ c.value ∧ c.value < 0xDC00

/-- A code that is the second half of a surrogate pair. -/
def IsLow (c : Code) : Prop := 0xDC00 ≤ c.value ∧ c.value < 0xE000

theorem ofNat?_value (c : Code) : ofNat? c.value = some c := by
  cases c with
  | scalar ch => exact dif_pos (show ch.toNat.isValidChar from ch.valid)
  | surrogate n =>
    have hn := n.isLt
    have hinvalid : ¬Nat.isValidChar (0xD800 + n.val) := by
      rintro (h | h) <;> omega
    have hvalue : 0xD800 ≤ 0xD800 + n.val ∧ 0xD800 + n.val < 0xE000 := by omega
    refine ((dif_neg hinvalid).trans (dif_pos hvalue)).trans ?_
    exact congrArg (some <| Code.surrogate ·) (Fin.ext (Nat.add_sub_cancel_left ..))

theorem value_lt (c : Code) : c.value < 0x110000 := by
  cases c with
  | scalar ch =>
    show ch.toNat < _
    have hvalid : ch.toNat.isValidChar := ch.valid
    rcases hvalid with h | h <;> omega
  | surrogate n =>
    show 0xD800 + n.val < _
    have := n.isLt
    omega

theorem value_of_isScalar {c : Code} (h : c.isScalar = true) :
    c.value < 0xD800 ∨ 0xE000 ≤ c.value := by
  cases c with
  | scalar ch =>
    show ch.toNat < _ ∨ _ ≤ ch.toNat
    have hvalid : ch.toNat.isValidChar := ch.valid
    rcases hvalid with h | h <;> omega
  | surrogate n => cases h

end Code

/-- No two codes of a text that follow one another are the halves of a surrogate pair. -/
def Text.Unpaired : Text → Prop
  | c :: d :: rest => ¬(c.IsHigh ∧ d.IsLow) ∧ Unpaired (d :: rest)
  | _ => True

theorem Text.Unpaired.tail {c : Code} {t : Text} (h : Unpaired (c :: t)) : t.Unpaired := by
  cases t with
  | nil => trivial
  | cons d t => exact h.2

theorem Text.IsWhole.unpaired {t : Text} (h : t.IsWhole) : t.Unpaired := by
  induction t with
  | nil => trivial
  | cons c t ih =>
    obtain ⟨hc, ht⟩ := List.forall_mem_cons.mp h
    cases t with
    | nil => trivial
    | cons d t =>
      refine ⟨?_, ih ht⟩
      rintro ⟨⟨hlo, hhi⟩, -⟩
      rcases Code.value_of_isScalar hc with h | h <;> omega

namespace Json

/-- The ways of writing a code inside a string. -/
inductive Escaped : Code → List Char → Prop where
  | plain {c : Char} (printable : 0x20 ≤ c.toNat ∧ c.toNat < 0x7F) (quote : c ≠ '"')
    (backslash : c ≠ '\\') : Escaped (.scalar c) [c]
  | short {c e : Char} (h : shortEscape? e = some c) : Escaped (.scalar c) ['\\', e]
  | unit {c : Code} (h : c.value < 0x10000) : Escaped c (unitEscape c.value).shown
  | pair {c : Code} {m : Nat} (h : c.value = 0x10000 + m) (small : m < 0x100000) :
    Escaped c ((unitEscape (0xD800 + m / 0x400)).shown ++ (unitEscape (0xDC00 + m % 0x400)).shown)

theorem escaped_escapeCode (c : Code) : Escaped c (escapeCode c).shown := by
  have hchar {ch : Char} (h : c.isChar ch = true) : c = .scalar ch := by
    cases c with
    | scalar d => exact congrArg Code.scalar (beq_iff_eq.mp h)
    | surrogate n => cases h
  unfold escapeCode
  dsimp only
  iterate 7
    split
    · rename_i h
      exact hchar h ▸ .short rfl
  rename_i hquote hbackslash _ _ _ _ _
  split
  · rename_i hplain
    cases c with
    | scalar ch =>
      refine .plain hplain ?_ ?_
      · rintro rfl
        exact hquote (beq_self_eq_true _)
      · rintro rfl
        exact hbackslash (beq_self_eq_true _)
    | surrogate n =>
      have hvalue : Code.value (.surrogate n) = 0xD800 + n.val := rfl
      omega
  · split
    · rename_i h
      exact .unit h
    · have hlimit := c.value_lt
      rw [Text.shown_append]
      exact .pair (by omega) (by omega)

/-- What comes behind an escaped first half is not an escaped second one, and there is something
behind every code, if only the quote. -/
structure Follows (c : Code) (tail : List Char) : Prop where
  filled : tail ≠ []
  unpaired : c.IsHigh → ∀ more, tail = '\\' :: 'u' :: more →
    ∃ n rest, hex4? more = some (n, rest) ∧ ¬(0xDC00 ≤ n ∧ n < 0xE000)

theorem unicodeEscape_unit {c : Code} (h : c.value < 0x10000) {tail : List Char}
    (follows : Follows c tail) :
    unicodeEscape ((Text.hex 4 c.value).shown ++ tail) = .ok (c, tail) := by
  have hlong : ¬((Text.hex 4 c.value).shown ++ tail).length ≤ 4 := by
    have := List.length_pos_iff.mpr follows.filled
    rw [List.length_append, length_hex h]
    omega
  have hunit : unit c.value = c := by
    unfold unit
    rw [Code.ofNat?_value]
    rfl
  unfold unicodeEscape
  rw [if_neg hlong, hex4?_hex h]
  dsimp only
  rw [hunit]
  split
  · rename_i hhigh
    split
    · rename_i more
      obtain ⟨n, rest, hread, hlow⟩ := follows.unpaired ⟨hhigh.1, hhigh.2.1⟩ more rfl
      rw [hread]
      exact if_neg hlow
    · rfl
  · rfl

theorem unicodeEscape_pair {c : Code} {m : Nat} (h : c.value = 0x10000 + m) (small : m < 0x100000)
    {tail : List Char} (filled : tail ≠ []) :
    unicodeEscape ((Text.hex 4 (0xD800 + m / 0x400)).shown ++
      ((unitEscape (0xDC00 + m % 0x400)).shown ++ tail)) = .ok (c, tail) := by
  have hhigh : 0xD800 + m / 0x400 < 0x10000 := by omega
  have hlow : 0xDC00 + m % 0x400 < 0x10000 := by omega
  have htail := List.length_pos_iff.mpr filled
  have hsecond : (unitEscape (0xDC00 + m % 0x400)).shown ++ tail =
      '\\' :: 'u' :: ((Text.hex 4 (0xDC00 + m % 0x400)).shown ++ tail) := rfl
  have hlength : ((Text.hex 4 (0xDC00 + m % 0x400)).shown ++ tail).length = 4 + tail.length := by
    rw [List.length_append, length_hex hlow]
  have hlong : ¬((Text.hex 4 (0xD800 + m / 0x400)).shown ++
      '\\' :: 'u' :: ((Text.hex 4 (0xDC00 + m % 0x400)).shown ++ tail)).length ≤ 4 := by
    rw [List.length_append, length_hex hhigh, List.length_cons]
    omega
  have hpaired : 0xD800 ≤ 0xD800 + m / 0x400 ∧ 0xD800 + m / 0x400 < 0xDC00 ∧
      6 < ('\\' :: 'u' :: ((Text.hex 4 (0xDC00 + m % 0x400)).shown ++ tail)).length := by
    rw [List.length_cons, List.length_cons, hlength]
    omega
  have hrange : 0xDC00 ≤ 0xDC00 + m % 0x400 ∧ 0xDC00 + m % 0x400 < 0xE000 := by omega
  have hsum : 0x10000 + (0xD800 + m / 0x400 - 0xD800) * 0x400 + (0xDC00 + m % 0x400 - 0xDC00) =
      c.value := by omega
  rw [hsecond]
  unfold unicodeEscape
  rw [if_neg hlong, hex4?_hex hhigh]
  dsimp only
  rw [if_pos hpaired]
  split
  · rename_i more hmore
    obtain rfl : _ = more := (List.cons.inj (List.cons.inj hmore).2).2
    rw [hex4?_hex hlow]
    refine (if_pos hrange).trans ?_
    rw [hsum, Code.ofNat?_value]
    rfl
  · rename_i hother
    exact absurd rfl (hother _)

/-- A code is read as it was written, and then the rest of the string. -/
theorem stringBody_escaped {c : Code} {w tail : List Char} (h : Escaped c w)
    (follows : Follows c tail) (start fuel : Nat) :
    stringBody start (fuel + 1) (w ++ tail) = (do
      let (t, rest) ← stringBody start fuel tail
      return (c :: t, rest)) := by
  cases h with
  | @plain c printable quote backslash =>
    have hother {P : Prop} (hc : c = '\\') : P := absurd hc backslash
    exact (stringBody.eq_7 start fuel c tail quote (fun hc => hother hc) (fun _ hc => hother hc)
      fun _ _ hc => hother hc).trans (if_neg (by omega))
  | @short c e h =>
    have hunicode : e ≠ 'u' := by
      rintro rfl
      cases h
    refine (stringBody.eq_6 start fuel e tail hunicode).trans ?_
    rw [h]
  | unit h =>
    refine (stringBody.eq_5 start fuel ((Text.hex 4 c.value).shown ++ tail)).trans ?_
    rw [unicodeEscape_unit h follows]
    rfl
  | @pair c m h small =>
    refine (stringBody.eq_5 start fuel ((Text.hex 4 (0xD800 + m / 0x400)).shown ++
      (unitEscape (0xDC00 + m % 0x400)).shown ++ tail)).trans ?_
    rw [List.append_assoc, unicodeEscape_pair h small follows.filled]
    rfl

/-- The codes of a text as they are written inside a string. -/
def escapes (t : Text) : List Char := Text.shown (t.flatMap escapeCode)

theorem escapes_cons (c : Code) (t : Text) :
    escapes (c :: t) = (escapeCode c).shown ++ escapes t := by
  unfold escapes
  rw [List.flatMap_cons, Text.shown_append]

theorem Escaped.ne_nil {c : Code} {w : List Char} (h : Escaped c w) : w ≠ [] := by
  cases h with
  | plain | short => exact List.cons_ne_nil _ _
  | unit | pair => exact List.cons_ne_nil '\\' _

/-- The first number in a code that is written as a number, or as two. -/
theorem Escaped.unicode {c : Code} {w tail more : List Char} (h : Escaped c w)
    (hw : w ++ tail = '\\' :: 'u' :: more) :
    ∃ n rest, hex4? more = some (n, rest) ∧ (n = c.value ∨ n < 0xDC00) := by
  cases h with
  | plain _ _ backslash => exact absurd (List.cons.inj hw).1 backslash
  | short h =>
    obtain rfl := (List.cons.inj (List.cons.inj hw).2).1
    cases h
  | unit h =>
    obtain rfl : (Text.hex 4 c.value).shown ++ tail = more :=
      (List.cons.inj (List.cons.inj hw).2).2
    exact ⟨_, _, hex4?_hex h tail, .inl rfl⟩
  | @pair c m _ small =>
    rw [List.append_assoc] at hw
    obtain rfl : (Text.hex 4 (0xD800 + m / 0x400)).shown ++ _ = more :=
      (List.cons.inj (List.cons.inj hw).2).2
    exact ⟨_, _, hex4?_hex (by omega) _, .inr (by omega)⟩

/-- What is written behind the first half of a pair does not complete it. -/
theorem follows_escapes {c : Code} {t : Text} (h : Text.Unpaired (c :: t)) (rest : List Char) :
    Follows c (escapes t ++ '"' :: rest) := by
  refine ⟨List.append_ne_nil_of_right_ne_nil _ (List.cons_ne_nil _ _), fun hhigh more hmore => ?_⟩
  cases t with
  | nil => cases hmore
  | cons d t =>
    rw [escapes_cons, List.append_assoc] at hmore
    obtain ⟨n, rest, hread, hn⟩ := (escaped_escapeCode d).unicode hmore
    refine ⟨n, rest, hread, fun hlow => ?_⟩
    rcases hn with rfl | hn
    · exact h.1 ⟨hhigh, hlow⟩
    · omega

/-- A text in which no code completes the one before it is read as it was written. -/
theorem string_escapes {t : Text} (h : t.Unpaired) (rest : List Char) :
    string (escapes t ++ '"' :: rest) = .ok (t, rest) := by
  have hbody (start fuel : Nat) (hfuel : t.length < fuel) :
      stringBody start fuel (escapes t ++ '"' :: rest) = .ok (t, rest) := by
    induction t generalizing fuel with
    | nil =>
      cases fuel with
      | zero => cases hfuel
      | succ fuel => rfl
    | cons c t ih =>
      cases fuel with
      | zero => cases hfuel
      | succ fuel =>
        rw [escapes_cons, List.append_assoc,
          stringBody_escaped (escaped_escapeCode c) (follows_escapes h rest),
          ih h.tail fuel (Nat.lt_of_succ_lt_succ hfuel)]
        rfl
  have hlength (t : Text) : t.length ≤ (escapes t).length := by
    induction t with
    | nil => exact Nat.le_refl 0
    | cons c t ih =>
      have hfirst := List.length_pos_iff.mpr (escaped_escapeCode c).ne_nil
      rw [escapes_cons, List.length_append, List.length_cons]
      omega
  have := hlength t
  apply hbody
  rw [List.length_append]
  omega

end Json

end EditorLint
