/-!
# Request sequencing

Requests about one key can finish out of order; only the one that began last may
publish.  Each request gets a token, larger than every token before it, and the
sequencer remembers for each key the token that was given out last, until that
token is finished.

Embedded: `RequestSequencer` with `begin`, `is_current` and `finish`, as a table of keys that are
compared by `==` alone; keys that are equal are assumed to have one hash.
-/

namespace EditorLint

/-- The tokens given out, and the latest token of each key. -/
structure Sequencer (κ : Type) where
  counter : Nat
  latest : List (κ × Nat)
  deriving Repr

namespace Sequencer

variable {κ : Type} [BEq κ]

def empty : Sequencer κ := ⟨0, []⟩

/-- The latest token of a key, if it is not finished. -/
def latest? (s : Sequencer κ) (key : κ) : Option Nat :=
  (s.latest.find? fun (k, _) => k == key).map (·.2)

def forget (s : Sequencer κ) (key : κ) : List (κ × Nat) :=
  s.latest.filter fun (k, _) => !(k == key)

/-- A new request for a key begins: its token, and the sequencer after it. -/
def begin (s : Sequencer κ) (key : κ) : Nat × Sequencer κ :=
  let token := s.counter + 1
  (token, ⟨token, (key, token) :: s.forget key⟩)

/-- Whether a token is the latest of its key. -/
def isCurrent (s : Sequencer κ) (key : κ) (token : Nat) : Bool := s.latest? key == some token

/-- The request with a token is over: the key is forgotten if the token is its
latest. -/
def finish (s : Sequencer κ) (key : κ) (token : Nat) : Sequencer κ :=
  if s.isCurrent key token then { s with latest := s.forget key } else s

/-! ## Calls -/

/-- A call of a sequencer.  What is asked about may be any integer, given out or not. -/
inductive Call (κ : Type) where
  | begin (key : κ)
  | isCurrent (key : κ) (token : Int)
  | finish (key : κ) (token : Int)
  deriving Repr

/-- What a call gives back. -/
inductive Result where
  | token (n : Nat)
  | current (b : Bool)
  | nothing
  deriving DecidableEq, Repr

/-- What a call gives back, and the sequencer after it.  A negative integer is no token. -/
def call (s : Sequencer κ) : Call κ → Result × Sequencer κ
  | .begin key =>
    let (token, s) := s.begin key
    (.token token, s)
  | .isCurrent key token => (.current (token.toNat?.any (s.isCurrent key)), s)
  | .finish key token =>
    match token.toNat? with
    | some n => (.nothing, s.finish key n)
    | none => (.nothing, s)

end Sequencer

end EditorLint
