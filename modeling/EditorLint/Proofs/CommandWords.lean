import EditorLint.Invocation
import EditorLint.Proofs.Quoting

/-!
# The words that reach the linter

With or without a shell the linter is handed the same words, if it is started
(`command_reaches_linter`).  A shell takes them out of one text (`words?_commandLine`), and since
it does, no other words have the same text (`commandLine_injective`).  Outside its quotes the text
has plain codes and the blanks between the words, and so nothing that makes a shell do more than
read words (`of_mem_outside`).

The quotes do not hide what the linter is called: where its name is plain and looks like options, an
assignment or a word of the shell's language, or is that of a command of the shell, no linter is
started.
-/

namespace EditorLint

namespace Shell

/-! ## What stands outside quotes -/

/-- The codes of a command line that stand outside quotes, without the quotes themselves. -/
def outside : Mode → Text → Text
  | _, [] => []
  | .plain, c :: rest =>
    if c.isChar '\'' then outside .single rest
    else if c.isChar '"' then outside .double rest
    else c :: outside .plain rest
  | .single, c :: rest => if c.isChar '\'' then outside .plain rest else outside .single rest
  | .double, c :: rest =>
    if c.isChar '"' then outside .plain rest
    else if c.isChar '\\' then
      match rest with
      | [] => []
      | _ :: rest => outside .double rest
    else outside .double rest

theorem outside_isPlain {word : Text} (hword : ∀ c ∈ word, isPlain c = true) (rest : Text) :
    outside .plain (word ++ rest) = word ++ outside .plain rest := by
  induction word with
  | nil => rfl
  | cons c word ih =>
    obtain ⟨hc, hword⟩ := List.forall_mem_cons.mp hword
    obtain ⟨-, hsingle, hdouble, -, -⟩ := meaningless_of_isPlain hc
    rw [List.cons_append, outside.eq_def]
    simp only [hsingle, hdouble, Bool.false_eq_true, if_false, ih hword, List.cons_append]

theorem outside_quoteCode (word rest : Text) :
    outside .single (word.flatMap quoteCode ++ .scalar '\'' :: rest) = outside .plain rest := by
  induction word with
  | nil =>
    rw [List.flatMap_nil, List.nil_append, outside.eq_def]
    rfl
  | cons c word ih =>
    rw [List.flatMap_cons, List.append_assoc]
    by_cases hc : c.isChar '\'' = true
    · -- The quotes are closed and opened again; between them there is a quote between quotes.
      have hquoted : quoteCode c = Text.ofString "'\"'\"'" := if_pos hc
      have hback (t : Text) :
          outside .single (Text.ofString "'\"'\"'" ++ t) = outside .single t := rfl
      rw [hquoted, hback, ih]
    · have hself : quoteCode c = [c] := if_neg hc
      rw [hself, List.singleton_append, outside.eq_def]
      exact (if_neg hc).trans ih

theorem outside_quote (word rest : Text) :
    outside .plain (quote word ++ rest) =
      (if isBare word then word else []) ++ outside .plain rest := by
  unfold quote
  split
  · next hempty =>
    rw [List.isEmpty_iff.mp hempty]
    rfl
  · split
    · next hbare =>
      exact outside_isPlain (List.all_eq_true.mp (Bool.and_eq_true_iff.mp hbare).2) rest
    · show outside .plain (.scalar '\'' :: (word.flatMap quoteCode ++ [.scalar '\''] ++ rest)) = _
      rw [List.append_assoc, List.nil_append, outside.eq_def]
      exact outside_quoteCode word rest

/-- Outside quotes there are plain codes, and blanks between the words. -/
theorem of_mem_outside {words : List Text} {c : Code}
    (hc : c ∈ outside .plain (commandLine words)) :
    isPlain c = true ∨ c = .scalar ' ' := by
  have hword {word rest : Text} (hc : c ∈ outside .plain (quote word ++ rest)) :
      isPlain c = true ∨ c ∈ outside .plain rest := by
    rw [outside_quote, List.mem_append] at hc
    rcases hc with hc | hc
    · split at hc
      · next hbare =>
        exact .inl (List.all_eq_true.mp (Bool.and_eq_true_iff.mp hbare).2 c hc)
      · cases hc
    · exact .inr hc
  unfold commandLine at hc
  induction words with
  | nil => cases hc
  | cons word words ih =>
    cases words with
    | nil =>
      have hlast : Text.join " " ([word].map quote) = quote word ++ [] := (List.append_nil _).symm
      rw [hlast] at hc
      rcases hword hc with hc | hc
      · exact .inl hc
      · cases hc
    | cons next words =>
      have hline : Text.join " " ((word :: next :: words).map quote) =
          quote word ++ (.scalar ' ' :: Text.join " " ((next :: words).map quote)) :=
        List.append_assoc ..
      rw [hline] at hc
      rcases hword hc with hc | hc
      · exact .inl hc
      · rw [outside.eq_def] at hc
        rcases List.mem_cons.mp hc with rfl | hc
        · exact .inr rfl
        · exact ih hc

theorem isSpecial_of_mem_outside {words : List Text} {c : Code}
    (hc : c ∈ outside .plain (commandLine words)) : isSpecial c = false := by
  rcases of_mem_outside hc with hplain | rfl
  · exact (meaningless_of_isPlain hplain).2.2.2.2
  · decide

end Shell

namespace Invocation

variable {i : Invocation}

theorem command_eq_words (hnone : i.shell.getD [] = []) : i.command = i.words := by
  unfold command
  cases hshell : i.shell with
  | none => rfl
  | some shell =>
    rw [hshell, Option.getD_some] at hnone
    rw [hnone]

theorem command_eq_shell {shell : Text} (hshell : i.shell = some shell) (hfilled : shell ≠ []) :
    i.command = [shell, "-c", i.display] := by
  unfold command
  rw [hshell]
  cases shell with
  | nil => exact absurd rfl hfilled
  | cons code shell => rfl

/-- Without a shell the words of a command are the linter, its options and the file.  With a shell
it is given a text that is nothing but these words: read by the rules of the shell it gives them
back, nothing in it that stands outside quotes means anything else, and no other words have it.
The shell starts a program with these words and never with others; it does start one unless the
linter is called by a plain word that begins with a sign, is an assignment or is of the shell's
language, or is called like a command of the shell's own. -/
theorem command_reaches_linter (settings : LinterSettings) (config file : Path) (mode : RunMode)
    (text : Option Text) :
    let i := build settings config file mode text
    let linter : Text := match settings.eslintPath with
      | none | some [] => "eslint"
      | some path => path
    let task : List Text := if mode = .fixDryRun then ["--fix-dry-run"] else []
    let input : List Text := if text.isSome then ["--stdin", "--stdin-filename"] else []
    let words : List Text :=
      [linter, "--config", config.text, "--format", "json"] ++ task ++ input ++ [file.text]
    (settings.shellPath.getD [] = [] → i.command = words) ∧
    (∀ shell, settings.shellPath = some shell → shell ≠ [] →
      i.command = [shell, "-c", i.display]) ∧
    (Shell.words? i.display).map (·.map Shell.Word.text) = some words ∧
    (∀ c ∈ Shell.outside .plain i.display,
      (Shell.isPlain c = true ∨ c = .scalar ' ') ∧ Shell.isSpecial c = false) ∧
    (∀ other, Shell.commandLine other = i.display → other = words) ∧
    ∀ sh : Shell.Dialect,
      (sh.program? i.display = some words ↔
        (Shell.isBare linter = true → Shell.isSigned linter = false ∧
          Shell.isAssignment linter = false ∧ sh.reserved linter = false) ∧
        sh.builtIn linter = false) ∧
      ∀ other, sh.program? i.display = some other → other = words := by
  intro i linter task input words
  have hwords : i.words = words := rfl
  refine ⟨?_, ?_, ?_, ?_, ?_, fun sh => ⟨?_, ?_⟩⟩
  · intro hnone
    exact command_eq_words (i := i) hnone
  · intro shell hshell hfilled
    exact command_eq_shell (i := i) hshell hfilled
  · rw [← hwords]
    exact Shell.texts_commandLine i.words
  · intro c hc
    exact ⟨Shell.of_mem_outside hc, Shell.isSpecial_of_mem_outside hc⟩
  · intro other hother
    rw [← hwords]
    exact Shell.commandLine_injective hother
  · rw [← hwords]
    exact Shell.Dialect.program?_commandLine_iff
  · intro other hother
    rw [← hwords]
    exact Shell.Dialect.eq_of_program?_commandLine hother

/-- A linter with this name is started without a shell, and not with one. -/
def IsMissed (linter : String) : Prop :=
  let config := Path.ofText "/w/eslint.config.js"
  let file := Path.ofText "/w/a.js"
  let settings : LinterSettings := { LinterSettings.defaults with eslintPath := some linter }
  let direct := build settings config file .diagnose none
  let i := build { settings with shellPath := some "/bin/sh" } config file .diagnose none
  direct.command = ([linter, "--config", "/w/eslint.config.js", "--format", "json", "/w/a.js"] :
    List String).map Text.ofString ∧
  i.command = (["/bin/sh", "-c", linter ++
    " --config /w/eslint.config.js --format json /w/a.js"] : List String).map Text.ofString ∧
  Shell.Dialect.posix.program? i.display = none

/-- Its name may look like options, an assignment, a word of the language or a command of the
shell. -/
theorem command_misses_linter :
    IsMissed "-x" ∧ IsMissed "A=b" ∧ IsMissed "if" ∧ IsMissed "exit" := by
  unfold IsMissed
  decide +kernel

end Invocation

end EditorLint
