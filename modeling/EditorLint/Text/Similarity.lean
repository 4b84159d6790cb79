/-!
# Similarity of words

Two words are compared by the letters they share in order: take the longest run
of letters that both contain, the leftmost in the first word and then in the
second, and do the same with what stands to the left of the run and with what
stands to the right.  The words are *close* when at least three fifths of the
letters of the two lie in shared runs.
-/

namespace EditorLint.Similarity

/-- How many letters two words begin with in common. -/
def sharedStart : List Char → List Char → Nat
  | a :: as, b :: bs => if a = b then sharedStart as bs + 1 else 0
  | _, _ => 0

/-- A run of `size` shared letters that begins at `left` in the first word and at
`right` in the second. -/
structure Run where
  left : Nat
  right : Nat
  size : Nat
  deriving DecidableEq, Repr

/-- The longest shared run, the leftmost in `a` and then in `b`. -/
def longestRun (a b : List Char) : Run :=
  let starts := (List.range a.length).flatMap fun i => (List.range b.length).map fun j => (i, j)
  starts.foldl (fun best (i, j) =>
    let size := sharedStart (a.drop i) (b.drop j)
    if best.size < size then ⟨i, j, size⟩ else best) ⟨0, 0, 0⟩

/-- The letters in shared runs, with fuel for the number of runs. -/
def sharedUpTo : Nat → List Char → List Char → Nat
  | 0, _, _ => 0
  | fuel + 1, a, b =>
    let run := longestRun a b
    if run.size = 0 then 0
    else
      run.size + sharedUpTo fuel (a.take run.left) (b.take run.right)
        + sharedUpTo fuel (a.drop (run.left + run.size)) (b.drop (run.right + run.size))

/-- The number of letters in shared runs; every run takes a letter of `a`. -/
def shared (a b : List Char) : Nat := sharedUpTo a.length a b

/-- Whether the words are close.  The count of letters is compared first, since
no more letters can be shared than the shorter word has. -/
def isClose (a b : List Char) : Bool :=
  10 * min a.length b.length ≥ 3 * (a.length + b.length)
    && 10 * shared a b ≥ 3 * (a.length + b.length)

/-- Whether `a` comes before `b` in the alphabet, or is the same word. -/
def le : List Char → List Char → Bool
  | [], _ => true
  | _ :: _, [] => false
  | a :: as, b :: bs => a.toNat < b.toNat || (a.toNat == b.toNat && le as bs)

/-- Whether `x` comes before `y` as a suggestion for `word`: it is closer, or as
close and later in the alphabet. -/
def precedes (word x y : List Char) : Bool :=
  let sx := shared x word * (y.length + word.length)
  let sy := shared y word * (x.length + word.length)
  sy < sx || (sy == sx && le y x)

/-- The closest of the known words, at most three, in alphabetical order. -/
def suggestions (word : List Char) (known : List (List Char)) : List (List Char) :=
  let close := known.filter fun x => isClose x word
  ((close.mergeSort (precedes word)).take 3).mergeSort le

end EditorLint.Similarity
