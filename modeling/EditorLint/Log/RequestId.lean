import EditorLint.Text.Basic

/-!
# Request identifiers

Every request has an identifier, and what is logged on its behalf carries it.  An
identifier that is not given is made up, of twelve random hexadecimal digits.  Chance is
not modelled: what is made up is the next number, with twelve digits.  That no two
made-up identifiers are the same (`RequestId.ofNumber_injective`) is therefore an
assumption on the random ones.

Embedded: `set_request_id` (`bind`), `get_request_id` and `clear_request_id`.
-/

namespace EditorLint

/-- The identifier of the request with a number; it stands for a random one. -/
def RequestId.ofNumber (n : Nat) : Text := Text.padded 12 n

/-- The identifier in force, if there is one, and how many have been made up. -/
structure Correlation where
  made : Nat
  bound : Option Text

namespace Correlation

/-- No identifier is in force, and none has been made up. -/
def initial : Correlation := ⟨0, none⟩

/-- Puts an identifier in force: the given one, or a new one when none is given or it
is empty. -/
def bind (c : Correlation) (given : Option Text) : Text × Correlation :=
  match given with
  | some (code :: rest) => (code :: rest, { c with bound := some (code :: rest) })
  | _ =>
    let id := RequestId.ofNumber (c.made + 1)
    (id, ⟨c.made + 1, some id⟩)

def clear (c : Correlation) : Correlation := { c with bound := none }

end Correlation

end EditorLint
