import EditorLint.Text.Basic

/-!
# UTF-8

Encoding a text, which fails at the first lone surrogate, and decoding bytes in
three ways: strictly, with the place and the reason of the first fault; with
U+FFFD in place of each fault; and, for the names of the system, with a lone
surrogate for each byte of a fault.

A fault covers the longest beginning of a well-formed sequence that stands at
its place (at least one byte), so the decoders agree on where a fault ends.
The ranges are those of the table of well-formed byte sequences: the second byte
is narrowed after `E0`, `ED`, `F0` and `F4`, which shuts out overlong forms,
surrogates and numbers above `10FFFF`.
-/

namespace EditorLint.Utf8

/-! ## Encoding -/

def encodeChar (c : Char) : List UInt8 :=
  let n := c.toNat
  if n < 0x80 then [.ofNat n]
  else if n < 0x800 then [.ofNat (0xC0 + n / 0x40), .ofNat (0x80 + n % 0x40)]
  else if n < 0x10000 then
    [.ofNat (0xE0 + n / 0x1000), .ofNat (0x80 + n / 0x40 % 0x40), .ofNat (0x80 + n % 0x40)]
  else
    [.ofNat (0xF0 + n / 0x40000), .ofNat (0x80 + n / 0x1000 % 0x40),
      .ofNat (0x80 + n / 0x40 % 0x40), .ofNat (0x80 + n % 0x40)]

def encodeChars (cs : List Char) : List UInt8 := cs.flatMap encodeChar

/-- Why a text has no encoding: the code at `start`, and the faulty codes that
follow it without a gap up to `stop`. -/
structure EncodeFault where
  code : Code
  start : Nat
  stop : Nat
  deriving DecidableEq, Repr

/-- The bytes of a text, or the first lone surrogates in it. -/
def encode (t : Text) : Except EncodeFault (List UInt8) :=
  match Text.chars? t with
  | some cs => .ok (encodeChars cs)
  | none =>
    let isLone : Code → Bool := fun c => c matches .surrogate _
    let before := t.takeWhile (!isLone ·)
    let faulty := (t.drop before.length).takeWhile isLone
    .error ⟨faulty.headD default, before.length, before.length + faulty.length⟩

/-! ## Names of the system

The system knows files and users by bytes.  A lone surrogate from U+DC80 to U+DCFF stands
for a byte that is no part of UTF-8; the others stand for nothing. -/

/-- The bytes of a code in a name of the system. -/
def systemBytes? : Code → Option (List UInt8)
  | .scalar c => some (encodeChar c)
  | .surrogate n =>
    if 0x480 ≤ n.val ∧ n.val < 0x500 then some [.ofNat (n.val - 0x400)] else none

/-- The bytes of a text in a name of the system, or the first lone surrogates that stand for
no byte. -/
def encodeSystem (t : Text) : Except EncodeFault (List UInt8) :=
  let before := t.takeWhile fun c => (systemBytes? c).isSome
  let faulty := (t.drop before.length).takeWhile fun c => c matches .surrogate _
  match faulty with
  | [] => .ok (t.flatMap fun c => (systemBytes? c).getD [])
  | c :: _ => .error ⟨c, before.length, before.length + faulty.length⟩

/-- Where a text can be encoded, every code of it stands for bytes. -/
theorem systemBytes_of_encodeSystem {t : Text} {bytes : List UInt8}
    (h : encodeSystem t = .ok bytes) : ∀ c ∈ t, (systemBytes? c).isSome = true := by
  let named (c : Code) : Bool := (systemBytes? c).isSome
  have hrest : t.drop (t.takeWhile named).length = t.dropWhile named := by
    conv => lhs; arg 2; rw [← List.takeWhile_append_dropWhile (p := named) (l := t)]
    exact List.drop_left
  -- The first code that stands for none would be a lone surrogate, and a fault.
  cases hdrop : t.dropWhile named with
  | nil =>
    intro c hc
    rw [← List.takeWhile_append_dropWhile (p := named) (l := t), hdrop, List.append_nil] at hc
    exact List.all_eq_true.mp List.all_takeWhile c hc
  | cons c rest =>
    have hc : named c = false := by
      have hhead := List.head?_dropWhile_not named t
      rw [hdrop] at hhead
      simpa using hhead
    cases c with
    | scalar ch => cases hc
    | surrogate n =>
      unfold encodeSystem at h
      dsimp only at h
      rw [hrest, hdrop] at h
      cases h

/-! ## Decoding -/

/-- Why a sequence of bytes is ill-formed. -/
inductive Reason where
  | start
  | continuation
  | ended
  deriving DecidableEq, Repr

def Reason.message : Reason → String
  | .start => "invalid start byte"
  | .continuation => "invalid continuation byte"
  | .ended => "unexpected end of data"

/-- What stands at the beginning of a list of bytes: a character made of the
first byte and `more` others, or a fault of the first byte and `more` others. -/
inductive Head where
  | char (c : Char) (more : Nat)
  | fault (reason : Reason) (more : Nat)
  deriving Repr

/-- How many continuation bytes a first byte calls for, and the range of the
first of them. -/
def shape (b : UInt8) : Option (Nat × UInt8 × UInt8) :=
  if 0xC2 ≤ b ∧ b ≤ 0xDF then some (1, 0x80, 0xBF)
  else if b = 0xE0 then some (2, 0xA0, 0xBF)
  else if b = 0xED then some (2, 0x80, 0x9F)
  else if 0xE1 ≤ b ∧ b ≤ 0xEF then some (2, 0x80, 0xBF)
  else if b = 0xF0 then some (3, 0x90, 0xBF)
  else if 0xF1 ≤ b ∧ b ≤ 0xF3 then some (3, 0x80, 0xBF)
  else if b = 0xF4 then some (3, 0x80, 0x8F)
  else none

/-- Reads the continuation bytes that are still due: `due` of them, the next one
between `lo` and `hi`, with `sum` the number read so far and `used` their count. -/
def continuation : (due : Nat) → (lo hi : UInt8) → (sum used : Nat) → List UInt8 → Head
  | 0, _, _, sum, used, _ => .char (.ofNat sum) used
  | _ + 1, _, _, _, used, [] => .fault .ended used
  | due + 1, lo, hi, sum, used, b :: rest =>
    if lo ≤ b ∧ b ≤ hi then
      continuation due 0x80 0xBF (sum * 0x40 + (b.toNat - 0x80)) (used + 1) rest
    else .fault .continuation used

/-- What stands at the beginning of `b :: rest`. -/
def head (b : UInt8) (rest : List UInt8) : Head :=
  if b < 0x80 then .char (.ofNat b.toNat) 0
  else match shape b with
    | none => .fault .start 0
    | some (due, lo, hi) =>
      let lead := if due = 1 then b.toNat - 0xC0 else if due = 2 then b.toNat - 0xE0 else b.toNat - 0xF0
      continuation due lo hi lead 0 rest

/-- The first fault of a list of bytes: its bytes, where they begin, and why. -/
structure DecodeFault where
  bytes : List UInt8
  start : Nat
  reason : Reason
  deriving DecidableEq, Repr

/-- Strict decoding; `pos` is the number of bytes already read. -/
def decodeFrom (pos : Nat) : List UInt8 → Except DecodeFault (List Char)
  | [] => .ok []
  | b :: rest =>
    match head b rest with
    | .char c more => (decodeFrom (pos + more + 1) (rest.drop more)).map (c :: ·)
    | .fault reason more => .error ⟨b :: rest.take more, pos, reason⟩
termination_by bytes => bytes.length
decreasing_by simp only [List.length_drop, List.length_cons]; omega

def decode (bytes : List UInt8) : Except DecodeFault (List Char) := decodeFrom 0 bytes

def decodeReplacing : List UInt8 → List Char
  | [] => []
  | b :: rest =>
    match head b rest with
    | .char c more => c :: decodeReplacing (rest.drop more)
    | .fault _ more => '\uFFFD' :: decodeReplacing (rest.drop more)
termination_by bytes => bytes.length
decreasing_by all_goals simp only [List.length_drop, List.length_cons]; omega

/-- The lone surrogate that stands for a byte in a name of the system. -/
def escapeByte (b : UInt8) : Code :=
  .surrogate ⟨0x400 + b.toNat, by have := b.toNat_lt; omega⟩

def decodeSystem : List UInt8 → Text
  | [] => []
  | b :: rest =>
    match head b rest with
    | .char c more => .scalar c :: decodeSystem (rest.drop more)
    | .fault _ more => (b :: rest.take more).map escapeByte ++ decodeSystem (rest.drop more)
termination_by bytes => bytes.length
decreasing_by all_goals simp only [List.length_drop, List.length_cons]; omega

/-- The byte order mark of UTF-8. -/
def mark : List UInt8 := [0xEF, 0xBB, 0xBF]

end EditorLint.Utf8
