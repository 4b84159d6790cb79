import EditorLint.Proofs.FlatDocument
import EditorLint.Settings.Template

/-!
# The form as a flat document

The form that a new configuration file is filled in from is a flat document: explanations
and settings that are not made are remarks, and the settings that are made are entries.
-/

namespace EditorLint

namespace Yaml

/-- A part of a flat document: a line that is a remark, or an entry. -/
inductive FlatPart where
  | remark (line : List Char)
  | entry (e : FlatEntry)

namespace FlatPart

def lines : FlatPart → List (List Char)
  | remark line => [line]
  | entry e => e.lines

/-- The entry that a part is, if it is one. -/
def entry? : FlatPart → Option FlatEntry
  | remark _ => none
  | entry e => some e

def Reads : FlatPart → Prop
  | remark line => Lexer.IsRemark line
  | entry e => e.Reads

end FlatPart

namespace FlatDocument

def ofParts : List FlatPart → FlatDocument
  | [] => ⟨[], []⟩
  | .remark line :: ps => ⟨line :: (ofParts ps).remarks, (ofParts ps).entries⟩
  | .entry e :: ps => ⟨[], (e, (ofParts ps).remarks) :: (ofParts ps).entries⟩

theorem chars_ofParts (ps : List FlatPart) :
    (ofParts ps).chars = Lexer.linesText (ps.flatMap FlatPart.lines) := by
  unfold chars
  congr 1
  induction ps with
  | nil => rfl
  | cons p ps ih =>
    rw [List.flatMap_cons, ← ih]
    cases p with
    | remark line => rfl
    | entry e =>
      show entryLines ((e, (ofParts ps).remarks) :: (ofParts ps).entries) = _
      rw [entryLines, List.flatMap_cons, List.append_assoc]
      rfl

theorem entries_ofParts (ps : List FlatPart) :
    (ofParts ps).entries.map (·.1) = ps.filterMap FlatPart.entry? := by
  induction ps with
  | nil => rfl
  | cons p ps ih =>
    cases p with
    | remark line => exact ih
    | entry e => exact congrArg (e :: ·) ih

theorem reads_ofParts {ps : List FlatPart} (h : ∀ p ∈ ps, p.Reads)
    (hne : ps.filterMap FlatPart.entry? ≠ []) : (ofParts ps).Reads := by
  have hentries : (ofParts ps).entries ≠ [] := by
    intro hnil
    rw [← entries_ofParts, hnil] at hne
    exact hne rfl
  have hall : (∀ line ∈ (ofParts ps).remarks, Lexer.IsRemark line) ∧
      ∀ x ∈ (ofParts ps).entries, x.1.Reads ∧ ∀ line ∈ x.2, Lexer.IsRemark line := by
    clear hne hentries
    induction ps with
    | nil => exact ⟨by simp [ofParts], by simp [ofParts]⟩
    | cons p ps ih =>
      obtain ⟨hremarks, hentries⟩ := ih fun q hq => h q (List.mem_cons_of_mem p hq)
      have hp := h p List.mem_cons_self
      cases p with
      | remark line =>
        refine ⟨fun l hl => ?_, hentries⟩
        rcases List.mem_cons.mp hl with rfl | hl
        · exact hp
        · exact hremarks l hl
      | entry e =>
        refine ⟨by simp [ofParts], fun x hx => ?_⟩
        rcases List.mem_cons.mp hx with rfl | hx
        · exact ⟨hp, hremarks⟩
        · exact hentries x hx
  exact ⟨hall.1, hall.2, hentries⟩

end FlatDocument

end Yaml

namespace UserConfig

open Yaml

/-- The characters of a text that has no lone surrogate. -/
def charsOf (t : Text) : List Char := t.chars?.getD []

def texts (c : UserConfig) : List Text := c.eslint.toList ++ c.shell.toList ++ c.names

/-- A setting as a part, or as a comment. -/
def settingParts (name : String) (example? : String) : Option Text → List FlatPart
  | none | some [] => [.remark example?.toList]
  | some value => [.entry (.text name.toList (charsOf value))]

/-- The names as a part, or as a comment. -/
def nameParts : List Text → List FlatPart
  | [] => [.remark "# config_names:".toList, .remark "#   - .eslintrc.json".toList]
  | names => [.entry (.list "config_names".toList (names.map charsOf))]

/-- Whether fixes are applied on save, as a part. -/
def fixPart (fixes : Bool) : FlatPart :=
  .entry (.text "fix_on_save".toList (if fixes then "true" else "false").toList)

/-- The level as a part, or as a comment. -/
def levelPart (level : Log.Level) : FlatPart :=
  if level = defaultLevel then .remark ("# log_level: ".toList ++ level.name.toList)
  else .entry (.text "log_level".toList level.name.toList)

def parts (c : UserConfig) : List FlatPart :=
  .remark "# nanolint configuration".toList :: .remark []
    :: .remark "# Path to the eslint executable (required)".toList
    :: settingParts "eslint_path" "# eslint_path: /usr/local/bin/eslint" c.eslint
  ++ .remark []
    :: .remark "# Shell that runs eslint, so PATH and node version managers apply (required)".toList
    :: settingParts "shell_path" "# shell_path: /bin/sh" c.shell
  ++ .remark []
    :: .remark "# Extra config filenames, tried before eslint.config.js and friends".toList
    :: nameParts c.names
  ++ [.remark [], .remark "# Apply eslint fixes when a document is saved".toList, fixPart c.fixes,
    .remark [], .remark "# Log level: DEBUG, INFO, WARNING, ERROR, CRITICAL".toList,
    levelPart c.level]

theorem ofChars_append (s t : List Char) :
    Text.ofChars (s ++ t) = Text.ofChars s ++ Text.ofChars t := List.map_append

/-- Lines with an empty one at the end, joined: each ends with a line feed. -/
theorem join_lines (ls : List (List Char)) :
    Text.join "\n" (ls.map Text.ofChars ++ [[]]) = Text.ofChars (Lexer.linesText ls) := by
  induction ls with
  | nil => rfl
  | cons l ls ih =>
    have hjoin : Text.join "\n" ((l :: ls).map Text.ofChars ++ [[]]) =
        Text.ofChars l ++ "\n" ++ Text.join "\n" (ls.map Text.ofChars ++ [[]]) := by
      cases ls <;> rfl
    rw [hjoin, ih, Lexer.linesText_cons, ofChars_append, List.append_assoc]
    rfl

theorem settingOr_eq (name example? : String) {o : Option Text}
    (h : ∀ t ∈ o, Text.ofChars (charsOf t) = t) :
    settingOr name [Text.ofString example?] o =
      ((settingParts name example? o).flatMap FlatPart.lines).map Text.ofChars := by
  match o, h with
  | none, _ => rfl
  | some [], _ => rfl
  | some (c :: value), h =>
    show [Text.ofString name ++ Text.ofString ": " ++ (c :: value)] =
      [Text.ofChars (name.toList ++ ([':', ' '] ++ charsOf (c :: value)))]
    rw [ofChars_append, ofChars_append, h _ rfl, List.append_assoc]
    rfl

theorem nameLines_eq {names : List Text} (h : ∀ t ∈ names, Text.ofChars (charsOf t) = t) :
    nameLines names = ((nameParts names).flatMap FlatPart.lines).map Text.ofChars := by
  have hitem : ∀ t ∈ names, Text.ofString "  - " ++ t =
      Text.ofChars (Lexer.itemLine (charsOf t)) := by
    intro t ht
    show _ = Text.ofChars ("  - ".toList ++ charsOf t)
    rw [ofChars_append, h t ht]
    rfl
  cases names with
  | nil => rfl
  | cons t names =>
    have hlines : ((nameParts (t :: names)).flatMap FlatPart.lines).map Text.ofChars =
        Text.ofString "config_names:" ::
          (((t :: names).map charsOf).map Lexer.itemLine).map Text.ofChars := by
      show (((_ :: _) ++ []).map Text.ofChars : List Text) = _
      rw [List.append_nil]
      rfl
    rw [hlines, List.map_map, List.map_map]
    show _ :: (t :: names).map (Text.ofString "  - " ++ ·) = _
    rw [List.map_congr_left hitem]
    rfl

theorem levelLine_eq (level : Log.Level) :
    [levelLine level] = ((levelPart level).lines).map Text.ofChars := by
  cases level <;> rfl

theorem template_eq {c : UserConfig} (h : ∀ t ∈ c.texts, Text.ofChars (charsOf t) = t) :
    c.template = Text.ofChars (FlatDocument.ofParts c.parts).chars := by
  have heslint := settingOr_eq "eslint_path" "# eslint_path: /usr/local/bin/eslint"
    (o := c.eslint) fun t ht => h t (by simp [texts, Option.mem_def.mp ht])
  have hshell := settingOr_eq "shell_path" "# shell_path: /bin/sh"
    (o := c.shell) fun t ht => h t (by simp [texts, Option.mem_def.mp ht])
  have hnames : nameLines c.names = _ := nameLines_eq fun t ht => h t (by simp [texts, ht])
  have hlevel := levelLine_eq c.level
  have hfix : [fixLine c.fixes] = ((fixPart c.fixes).lines).map Text.ofChars := by
    cases c.fixes <;> rfl
  rw [FlatDocument.chars_ofParts, ← join_lines]
  unfold template
  congr 1
  unfold templateGroups parts
  rw [heslint, hshell, hnames]
  simp only [List.flatMap_cons, List.flatMap_append, List.map_append, List.flatMap_nil]
  rw [← hfix, ← hlevel]
  simp only [FlatPart.lines, List.map_cons, List.map_nil, List.append_assoc, List.cons_append,
    List.nil_append]
  rfl

end UserConfig

end EditorLint
