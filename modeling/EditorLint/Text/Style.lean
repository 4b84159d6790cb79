import EditorLint.Text.Basic

/-!
# Styles

A text can carry codes that style what follows on a screen: an escape character and a `[`,
then numbers with `;` and `?` between them, then a letter.  Where a text goes to something
other than a screen, the codes are left out of it (`Text.unstyled`).
-/

namespace EditorLint

/-- Whether the code can stand between the opening of a style code and its letter. -/
def Code.isParameter : Code → Bool
  | .scalar c => c.isDigit || c == ';' || c == '?'
  | .surrogate _ => false

def Code.isLetter : Code → Bool
  | .scalar c => c.isAlpha
  | .surrogate _ => false

namespace Text

/-- The length of the style code that a text begins with; 0 if there is none. -/
def styleLength : Text → Nat
  | .scalar '\x1b' :: .scalar '[' :: rest =>
    let parameters := rest.takeWhile Code.isParameter
    if (rest.dropWhile Code.isParameter).head?.any Code.isLetter then parameters.length + 3 else 0
  | _ => 0

/-- A text without its style codes; `skip` is what is left of one. -/
def unstyledFrom : Nat → Text → Text
  | _, [] => []
  | skip + 1, _ :: rest => unstyledFrom skip rest
  | 0, c :: rest =>
    match styleLength (c :: rest) with
    | 0 => c :: unstyledFrom 0 rest
    | n + 1 => unstyledFrom n rest

/-- A text without its style codes. -/
def unstyled (t : Text) : Text := unstyledFrom 0 t

theorem unstyledFrom_sublist (skip : Nat) (t : Text) : (unstyledFrom skip t).Sublist t := by
  fun_induction unstyledFrom skip t with
  | case1 => exact .refl _
  | case2 skip c rest ih => exact ih.cons c
  | case3 c rest _ ih => exact ih.cons_cons c
  | case4 c rest n _ ih => exact ih.cons c

theorem unstyled_subset (t : Text) : unstyled t ⊆ t := (unstyledFrom_sublist 0 t).subset

theorem unstyled_of_plain {t : Text} (h : .scalar '\x1b' ∉ t) : unstyled t = t := by
  unfold unstyled
  induction t with
  | nil => rfl
  | cons c t ih =>
    obtain ⟨hc, ht⟩ := not_or.mp (mt List.mem_cons.mpr h)
    have hlength : styleLength (c :: t) = 0 := by
      unfold styleLength
      split
      · rename_i rest heq
        exact absurd (List.cons.inj heq).1.symm hc
      · rfl
    rw [unstyledFrom, hlength]
    exact congrArg (c :: ·) (ih ht)

/-- What stands between the codes of two styles is left. -/
example : unstyled ("\x1b[1;31mno\x1b[0m[1m" : String) = ofString "no[1m" := by decide +kernel

end Text

end EditorLint
