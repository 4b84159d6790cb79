import EditorLint.Shell.Quote
import EditorLint.Shell.Words
import Mathlib.Logic.Function.Basic

/-!
# Quoted command lines

A shell reads a command line of quoted words as these words again (`words?_commandLine`),
whatever codes they are made of: a plain word stands for itself, and in any other word the
quotes are taken off and every single quote comes back from between its double quotes.  So no
two lists of words have one command line (`commandLine_injective`).  A plain first word is read
as options, an assignment or a word of the language where it is one; otherwise a program is started
with the words, unless the shell has a command of that name (`Dialect.program?_commandLine`).
-/

namespace EditorLint.Shell

/-! ## Plain words -/

theorem meaningless_of_isPlain {c : Code} (h : isPlain c = true) :
    isSeparator c = false ∧ c.isChar '\'' = false ∧ c.isChar '"' = false ∧
      c.isChar '\\' = false ∧ isSpecial c = false := by
  have apart {d : Char} (hd : isPlain (.scalar d) = false) : c.isChar d = false := by
    cases c with
    | surrogate n => rfl
    | scalar e =>
      refine beq_eq_false_iff_ne.mpr ?_
      rintro rfl
      rw [hd] at h
      cases h
  have ordinary : isSpecial c = false := by
    cases c with
    | surrogate n => rfl
    | scalar e =>
      have hall : ∀ d ∈ "\n|&;<>()$\u0060*?[]#~!\x7b\x7d".toList, (!isPlain (.scalar d)) = true :=
        List.all_eq_true.mp (by decide)
      refine Bool.eq_false_iff.mpr fun hspecial => ?_
      have hnot := hall e (List.contains_iff_mem.mp hspecial)
      rw [h] at hnot
      cases hnot
  exact ⟨Bool.or_eq_false_iff.mpr ⟨apart rfl, apart rfl⟩, apart rfl, apart rfl, apart rfl, ordinary⟩

/-- A plain code is one of the word that is being read, or begins one. -/
theorem readWords_plain {c : Code} (hc : isPlain c = true) (word : Option Word) (rest : Text) :
    readWords .plain word (c :: rest) =
      readWords .plain (some ((word.getD {}).add c)) rest := by
  obtain ⟨hseparator, hsingle, hdouble, hslash, hspecial⟩ := meaningless_of_isPlain hc
  rw [readWords.eq_def]
  simp only [hseparator, hsingle, hdouble, hslash, hspecial, Bool.false_eq_true, if_false]

def Word.ofBare (word : Text) : Word := ⟨word, word, false⟩

theorem readWords_isPlain {word : Text} (hword : ∀ c ∈ word, isPlain c = true) (done rest : Text) :
    readWords .plain (some (.ofBare done)) (word ++ rest) =
      readWords .plain (some (.ofBare (done ++ word))) rest := by
  induction word generalizing done with
  | nil => rw [List.append_nil, List.nil_append]
  | cons c word ih =>
    obtain ⟨hc, hword⟩ := List.forall_mem_cons.mp hword
    have hone : (Word.ofBare done).add c = .ofBare (done ++ [c]) := rfl
    rw [List.cons_append, readWords_plain hc, Option.getD_some, hone, ih hword,
      List.append_assoc, List.singleton_append]

/-! ## Quoted words -/

def Word.ofQuoted (word : Text) : Word := ⟨word, [], true⟩

theorem readWords_open (word : Option Word) (rest : Text) :
    readWords .plain word (.scalar '\'' :: rest) =
      readWords .single (some (word.getD {}).quote) rest := by
  rw [readWords.eq_def]
  rfl

theorem readWords_close (word : Option Word) (rest : Text) :
    readWords .single word (.scalar '\'' :: rest) = readWords .plain word rest := by
  rw [readWords.eq_def]
  rfl

theorem readWords_doubled (word rest : Text) :
    readWords .plain (some (.ofQuoted word)) (Text.ofString "\"'\"" ++ rest) =
      readWords .plain (some (.ofQuoted (word ++ [.scalar '\'']))) rest := by
  have hopen (t : Text) : readWords .plain (some (.ofQuoted word)) (.scalar '"' :: t) =
      readWords .double (some (.ofQuoted word)) t := by
    rw [readWords.eq_def]
    rfl
  have hself (t : Text) : readWords .double (some (.ofQuoted word)) (.scalar '\'' :: t) =
      readWords .double (some (.ofQuoted (word ++ [.scalar '\'']))) t := by
    rw [readWords.eq_def]
    rfl
  have hclose (w : Option Word) (t : Text) : readWords .double w (.scalar '"' :: t) =
      readWords .plain w t := by
    rw [readWords.eq_def]
    rfl
  exact (hopen _).trans ((hself _).trans (hclose _ _))

theorem readWords_single {c : Code} (hc : ¬c.isChar '\'' = true) (word rest : Text) :
    readWords .single (some (.ofQuoted word)) (c :: rest) =
      readWords .single (some (.ofQuoted (word ++ [c]))) rest := by
  rw [readWords.eq_def]
  exact if_neg hc

theorem readWords_quoteCode (word done rest : Text) :
    readWords .single (some (.ofQuoted done)) (word.flatMap quoteCode ++ .scalar '\'' :: rest) =
      readWords .plain (some (.ofQuoted (done ++ word))) rest := by
  induction word generalizing done with
  | nil => rw [List.flatMap_nil, List.nil_append, List.append_nil, readWords_close]
  | cons c word ih =>
    have hone (t : Text) : readWords .single (some (.ofQuoted done)) (quoteCode c ++ t) =
        readWords .single (some (.ofQuoted (done ++ [c]))) t := by
      by_cases hc : c.isChar '\'' = true
      · -- The quotes are closed, the code stands between double quotes, and they open again.
        have hcode : c = .scalar '\'' := by
          cases c with
          | surrogate n => cases hc
          | scalar d => rw [beq_iff_eq.mp hc]
        subst hcode
        exact (readWords_close _ _).trans ((readWords_doubled done _).trans (readWords_open _ _))
      · have hself : quoteCode c = [c] := if_neg hc
        rw [hself]
        exact readWords_single hc done t
    rw [List.flatMap_cons, List.append_assoc, hone, ih, List.append_assoc, List.singleton_append]

def Word.ofQuote (word : Text) : Word := if isBare word then .ofBare word else .ofQuoted word

theorem Word.text_ofQuote (word : Text) : (Word.ofQuote word).text = word := by
  unfold ofQuote
  split
  · rfl
  · rfl

theorem readWords_quote (word rest : Text) :
    readWords .plain none (quote word ++ rest) = readWords .plain (some (.ofQuote word)) rest := by
  unfold quote
  split
  · next hempty =>
    rw [List.isEmpty_iff.mp hempty]
    rfl
  · unfold Word.ofQuote
    split
    · next hbare =>
      have hword := List.all_eq_true.mp (Bool.and_eq_true_iff.mp hbare).2
      cases word with
      | nil => cases hbare
      | cons c word =>
        obtain ⟨hc, hword⟩ := List.forall_mem_cons.mp hword
        rw [List.cons_append, readWords_plain hc]
        exact readWords_isPlain hword [c] rest
    · show readWords .plain none
        (.scalar '\'' :: (word.flatMap quoteCode ++ [.scalar '\''] ++ rest)) = _
      rw [readWords_open, List.append_assoc]
      exact readWords_quoteCode word [] rest

/-! ## Command lines -/

/-- A command line is read as the words that it was made of. -/
theorem words?_commandLine (words : List Text) :
    words? (commandLine words) = some (words.map .ofQuote) := by
  have hend (word : Option Word) : readWords .plain word [] = some word.toList := by
    rw [readWords.eq_def]
  unfold words? commandLine
  induction words with
  | nil => exact hend none
  | cons word words ih =>
    cases words with
    | nil =>
      have hlast := readWords_quote word []
      rw [List.append_nil, hend] at hlast
      exact hlast
    | cons next words =>
      have hblank (t : Text) : readWords .plain (some (.ofQuote word)) (.scalar ' ' :: t) =
          (readWords .plain none t).map ([.ofQuote word] ++ ·) := by
        rw [readWords.eq_def]
        rfl
      have hline : Text.join " " ((word :: next :: words).map quote) =
          quote word ++ (.scalar ' ' :: Text.join " " ((next :: words).map quote)) :=
        List.append_assoc ..
      rw [hline, readWords_quote, hblank, ih]
      rfl

theorem map_text_ofQuote (words : List Text) :
    (words.map Word.ofQuote).map Word.text = words := by
  rw [List.map_map]
  exact (List.map_congr_left fun word _ => Word.text_ofQuote word).trans (List.map_id _)

theorem texts_commandLine (words : List Text) :
    (words? (commandLine words)).map (·.map Word.text) = some words := by
  rw [words?_commandLine, Option.map_some, map_text_ofQuote]

/-- Different words have different command lines. -/
theorem commandLine_injective : Function.Injective commandLine := by
  intro words words' h
  have hwords := congrArg (fun line => (words? line).map (·.map Word.text)) h
  rw [texts_commandLine, texts_commandLine] at hwords
  exact Option.some.inj hwords

/-! ## Commands -/

/-- A quoted word is an assignment where it stands as it is and is one. -/
theorem isAssignment_ofQuote (word : Text) :
    isAssignment (Word.ofQuote word).bare = (isBare word && isAssignment word) := by
  unfold Word.ofQuote
  cases isBare word with
  | true => rfl
  | false => rfl

theorem quoted_ofQuote (word : Text) : (Word.ofQuote word).quoted = !isBare word := by
  unfold Word.ofQuote
  cases isBare word with
  | true => rfl
  | false => rfl

/-- A command line begins with a sign where its first word stands as it is and does. -/
theorem isSigned_commandLine (command : Text) (args : List Text) :
    isSigned (commandLine (command :: args)) = (isBare command && isSigned command) := by
  have hline : ∃ rest, commandLine (command :: args) = quote command ++ rest := by
    cases args with
    | nil => exact ⟨[], (List.append_nil _).symm⟩
    | cons next args => exact ⟨_, List.append_assoc ..⟩
  obtain ⟨rest, hrest⟩ := hline
  rw [hrest]
  unfold quote
  split
  · next hempty =>
    rw [List.isEmpty_iff.mp hempty]
    rfl
  · split
    · next hbare =>
      rw [hbare, Bool.true_and]
      cases command with
      | nil => cases hbare
      | cons c command => rfl
    · next hquoted =>
      rw [Bool.eq_false_iff.mpr hquoted, Bool.false_and]
      rfl

/-- A shell starts a program with the words that a command line was made of, unless the first one
stands there as options, an assignment or a word of its language, or is a command of its own. -/
theorem Dialect.program?_commandLine (sh : Dialect) (command : Text) (args : List Text) :
    sh.program? (commandLine (command :: args)) =
      if isBare command && isSigned command then none
      else if isBare command && isAssignment command then none
      else if isBare command && sh.reserved command then none
      else if sh.builtIn command then none
      else some (command :: args) := by
  unfold program?
  rw [words?_commandLine, List.map_cons]
  simp only [isSigned_commandLine, isAssignment_ofQuote, quoted_ofQuote, Word.text_ofQuote,
    map_text_ofQuote, Bool.not_not]

theorem Dialect.program?_commandLine_iff {sh : Dialect} {command : Text} {args : List Text} :
    sh.program? (commandLine (command :: args)) = some (command :: args) ↔
      (isBare command = true → isSigned command = false ∧ isAssignment command = false ∧
        sh.reserved command = false) ∧ sh.builtIn command = false := by
  rw [program?_commandLine]
  cases isBare command <;> cases isSigned command <;> cases isAssignment command <;>
    cases sh.reserved command <;> cases sh.builtIn command <;> simp

theorem Dialect.eq_of_program?_commandLine {sh : Dialect} {command : Text} {args words : List Text}
    (h : sh.program? (commandLine (command :: args)) = some words) : words = command :: args := by
  rw [program?_commandLine] at h
  split at h
  · cases h
  · split at h
    · cases h
    · split at h
      · cases h
      · split at h
        · cases h
        · exact (Option.some.inj h).symm

end EditorLint.Shell
