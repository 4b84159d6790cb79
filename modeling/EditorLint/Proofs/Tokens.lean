import EditorLint.Proofs.Sequencer
import Mathlib.Data.List.Induction

/-!
# What the calls of a sequencer give back

The answers of a sequencer depend on nothing but the calls before them.  `run` writes each call
down with what it gave back, and a token is the latest of a key (`IsLatest`) if the last begin
of the key gave it back and it has not been finished since: that is said of the record alone.

The counter and the table of a sequencer keep up with the record (`Tracks`), which every call
preserves (`Tracks.call`).  So tokens increase, the latest token of a key is the current one, a
call that concerns another key or another token changes no answer, what a finish takes away is
one entry that is there, and nothing is left when all tokens are finished (`answers_by_history`).
Keys are told apart by any equivalence.
-/

namespace EditorLint.Sequencer

/-! ## Records -/

section Records

variable {κ : Type} [BEq κ]

abbrev Record (κ : Type) := Call κ × Result

/-- The calls of a sequencer with what they give back, and the sequencer after them. -/
def run (s : Sequencer κ) : List (Call κ) → List (Record κ) × Sequencer κ
  | [] => ([], s)
  | c :: rest =>
    let (result, s) := s.call c
    let (later, s) := run s rest
    ((c, result) :: later, s)

theorem run_append (s : Sequencer κ) (calls : List (Call κ)) (c : Call κ) :
    let (past, after) := s.run calls
    s.run (calls ++ [c]) = (past ++ [(c, (after.call c).1)], (after.call c).2) := by
  induction calls generalizing s with
  | nil => rfl
  | cons d calls ih =>
    have hrest := ih (s.call d).2
    simp only [List.cons_append, run, hrest]

/-- A call after which a token is no longer the latest of a key: the key begins again, or the
token is finished. -/
def Call.Ends (key : κ) (token : Nat) : Call κ → Prop
  | .begin own => own == key
  | .isCurrent _ _ => False
  | .finish own t => own == key ∧ t = token

/-- The last begin of a key gave a token back, which has not been finished since. -/
def IsLatest (past : List (Record κ)) (key : κ) (token : Nat) : Prop :=
  ∃ earlier own later, past = earlier ++ (.begin own, .token token) :: later ∧ own == key ∧
    ∀ x ∈ later, ¬x.1.Ends key token

@[simp] theorem calls_run (s : Sequencer κ) (calls : List (Call κ)) :
    (s.run calls).1.map Prod.fst = calls := by
  induction calls generalizing s with
  | nil => rfl
  | cons c calls ih => exact congrArg (c :: ·) (ih _)

theorem isLatest_append_iff {past : List (Record κ)} {x : Record κ} {key : κ} {token : Nat} :
    IsLatest (past ++ [x]) key token ↔
      IsLatest past key token ∧ ¬x.1.Ends key token ∨
        ∃ own, x = (.begin own, .token token) ∧ own == key := by
  constructor
  · rintro ⟨earlier, own, later, hpast, hown, hlater⟩
    rcases List.eq_nil_or_concat later with rfl | ⟨later, y, rfl⟩
    · obtain ⟨-, hx⟩ := List.append_inj' hpast rfl
      exact .inr ⟨own, List.singleton_inj.mp hx, hown⟩
    · rw [List.concat_eq_append, ← List.cons_append, ← List.append_assoc] at hpast
      obtain ⟨rfl, hx⟩ := List.append_inj' hpast rfl
      obtain rfl := List.singleton_inj.mp hx
      rw [List.concat_eq_append, List.forall_mem_append] at hlater
      exact .inl ⟨⟨earlier, own, later, rfl, hown, hlater.1⟩, hlater.2 x (List.mem_singleton_self x)⟩
  · rintro (⟨⟨earlier, own, later, rfl, hown, hlater⟩, hx⟩ | ⟨own, rfl, hown⟩)
    · refine ⟨earlier, own, later ++ [x], by simp, hown, ?_⟩
      exact List.forall_mem_append.mpr ⟨hlater, List.forall_mem_singleton.mpr hx⟩
    · exact ⟨past, own, [], rfl, hown, List.forall_mem_nil _⟩

end Records

/-! ## Entries -/

variable {κ : Type} [BEq κ]

def Distinct (table : List (κ × Nat)) : Prop :=
  table.Pairwise fun x y => (x.1 == y.1) = false

theorem Distinct.forget {s : Sequencer κ} (h : Distinct s.latest) (key : κ) :
    Distinct (s.forget key) :=
  List.Pairwise.filter _ h

section Equal

variable [EquivBEq κ]

theorem latest?_congr (s : Sequencer κ) {key other : κ} (h : key == other) :
    s.latest? key = s.latest? other := by
  unfold latest?
  congr 2
  funext ⟨k, token⟩
  exact BEq.congr_right h

theorem forget_eq {s : Sequencer κ} (h : Distinct s.latest) {key : κ} {token : Nat}
    (hlatest : s.latest? key = some token) :
    ∃ front own rest, s.latest = front ++ (own, token) :: rest ∧ own == key ∧
      s.forget key = front ++ rest := by
  unfold latest? at hlatest
  obtain ⟨⟨own, n⟩, hfind, hn⟩ := Option.map_eq_some_iff.mp hlatest
  obtain rfl : n = token := hn
  obtain ⟨hown, front, rest, hsplit, hfront⟩ := List.find?_eq_some_iff_append.mp hfind
  refine ⟨front, own, rest, hsplit, hown, ?_⟩
  unfold Distinct at h
  rw [hsplit, List.pairwise_append, List.pairwise_cons] at h
  have hkept : ∀ x ∈ rest, (!(x.1 == key)) = true := by
    intro x hx
    rw [← BEq.congr_right hown, BEq.comm, h.2.1.1 x hx]
    rfl
  unfold forget
  rw [hsplit, List.filter_append, List.filter_cons_of_neg (by simp [hown]),
    List.filter_eq_self.mpr hfront, List.filter_eq_self.mpr hkept]

end Equal

/-! ## Keeping up with the record -/

/-- A sequencer keeps up with a record: its counter with the tokens that were given back, its
table with the latest token of each key. -/
structure Tracks (past : List (Record κ)) (s : Sequencer κ) : Prop where
  issued : ∀ c n, (c, Result.token n) ∈ past → n ≤ s.counter
  latest : ∀ key n, s.latest? key = some n ↔ IsLatest past key n
  distinct : Distinct s.latest

namespace Tracks

variable {past : List (Record κ)} {s : Sequencer κ}

theorem empty : Tracks [] (.empty : Sequencer κ) where
  issued := by simp
  latest key n := by
    refine iff_of_false (by simp [latest?, Sequencer.empty]) ?_
    rintro ⟨earlier, own, later, hpast, -⟩
    exact absurd hpast (by simp)
  distinct := List.Pairwise.nil

theorem issued_append (h : Tracks past s) {x : Record κ} {bound : Nat} (hbound : s.counter ≤ bound)
    (hx : ∀ n, x.2 = .token n → n ≤ bound) (c : Call κ) (n : Nat)
    (hmem : (c, .token n) ∈ past ++ [x]) : n ≤ bound := by
  rcases List.mem_append.mp hmem with hmem | hmem
  · exact Nat.le_trans (h.issued c n hmem) hbound
  · obtain rfl := List.mem_singleton.mp hmem
    exact hx n rfl

/-- A call that gives no token back and ends no latest token changes nothing. -/
theorem unchanged (h : Tracks past s) {c : Call κ} {result : Result}
    (hresult : ∀ n, result ≠ .token n) (hends : ∀ key n, IsLatest past key n → ¬c.Ends key n) :
    Tracks (past ++ [(c, result)]) s where
  issued := h.issued_append (Nat.le_refl _) fun n hn => absurd hn (hresult n)
  latest key n := by
    rw [isLatest_append_iff, h.latest]
    constructor
    · exact fun hlatest => .inl ⟨hlatest, hends key n hlatest⟩
    · rintro (⟨hlatest, -⟩ | ⟨own, hx, -⟩)
      · exact hlatest
      · cases hx
        exact absurd rfl (hresult n)
  distinct := h.distinct

theorem isCurrent_iff (h : Tracks past s) (key : κ) (token : Int) :
    ∃ b, (s.call (.isCurrent key token)).1 = .current b ∧
      (b = true ↔ ∃ n : Nat, token = n ∧ IsLatest past key n) := by
  refine ⟨_, rfl, ?_⟩
  rw [Option.any_eq_true]
  refine exists_congr fun n => and_congr Int.mem_toNat? ?_
  rw [Sequencer.isCurrent_iff, h.latest]

variable [EquivBEq κ]

theorem begin (h : Tracks past s) (key : κ) :
    Tracks (past ++ [(.begin key, .token (s.counter + 1))]) (s.begin key).2 where
  issued := by
    refine h.issued_append (Nat.le_succ _) fun n hn => ?_
    cases hn
    exact Nat.le_refl _
  latest other n := by
    rw [latest?_begin, isLatest_append_iff]
    cases hkey : key == other with
    | true => simp [Call.Ends, hkey]
    | false => simp [Call.Ends, hkey, h.latest]
  distinct := by
    refine List.pairwise_cons.mpr ⟨fun x hx => ?_, h.distinct.forget key⟩
    have hother := (List.mem_filter.mp hx).2
    rw [BEq.comm]
    simpa using hother

theorem finish (h : Tracks past s) (key : κ) (token : Nat) :
    Tracks (past ++ [(.finish key token, .nothing)]) (s.finish key token) := by
  by_cases hcurrent : s.latest? key = some token
  · refine ⟨?_, fun other n => ?_, ?_⟩
    · rw [counter_finish]
      exact h.issued_append (Nat.le_refl _) fun n => nofun
    · rw [latest?_finish s hcurrent, isLatest_append_iff, ← h.latest]
      cases hkey : key == other with
      | false => simp [Call.Ends, hkey]
      | true =>
        -- The keys have the same latest token, so there is no other one that could stay.
        rw [← latest?_congr s hkey, hcurrent]
        simp only [Call.Ends, hkey]
        grind
    · unfold Sequencer.finish
      rw [if_pos ((s.isCurrent_iff key token).mpr hcurrent)]
      exact h.distinct.forget key
  · have hsame : s.finish key token = s :=
      if_neg (mt (s.isCurrent_iff key token).mp hcurrent)
    rw [hsame]
    refine h.unchanged (fun n => nofun) ?_
    rintro other n hlatest ⟨hkey, hn⟩
    apply hcurrent
    rw [latest?_congr s hkey, (h.latest other n).mpr hlatest, Int.ofNat.inj hn]

/-- Every call keeps a sequencer up with its record. -/
theorem call (h : Tracks past s) (c : Call κ) :
    Tracks (past ++ [(c, (s.call c).1)]) (s.call c).2 := by
  cases c with
  | begin key => exact h.begin key
  | isCurrent key token => exact h.unchanged (fun n => nofun) fun _ _ _ => id
  | finish key token =>
    cases htoken : token.toNat? with
    | some n =>
      obtain rfl : token = n := Int.mem_toNat?.mp htoken
      exact h.finish key n
    | none =>
      have hcall : s.call (.finish key token) = (.nothing, s) := by simp [Sequencer.call, htoken]
      rw [hcall]
      refine h.unchanged (fun n => nofun) ?_
      rintro other n - ⟨-, rfl⟩
      cases htoken

end Tracks

theorem tracks_run [EquivBEq κ] (calls : List (Call κ)) :
    Tracks (run .empty calls).1 (run .empty calls).2 := by
  induction calls using List.reverseRecOn with
  | nil => exact .empty
  | append_singleton calls c ih =>
    rw [run_append]
    exact ih.call c

/-! ## Answers -/

/-- A call leaves the latest token of a key alone: it only asks, concerns another key, or
finishes another token. -/
def Call.Spares (past : List (Record κ)) (key : κ) : Call κ → Prop
  | .begin own => (own == key) = false
  | .isCurrent _ _ => True
  | .finish own token => own == key → ∀ n : Nat, token = n → ¬IsLatest past key n

theorem isLatest_spared {past : List (Record κ)} {x : Record κ} {key : κ}
    (h : x.1.Spares past key) (n : Nat) : IsLatest (past ++ [x]) key n ↔ IsLatest past key n := by
  obtain ⟨c, result⟩ := x
  rw [isLatest_append_iff]
  constructor
  · rintro (⟨hlatest, -⟩ | ⟨own, hx, hown⟩)
    · exact hlatest
    · cases hx
      exact absurd hown (ne_true_of_eq_false h)
  · intro hlatest
    refine .inl ⟨hlatest, ?_⟩
    cases c with
    | begin own => exact ne_true_of_eq_false h
    | isCurrent own token => exact id
    | finish own token =>
      rintro ⟨hown, rfl⟩
      exact h hown n rfl hlatest

/-- Every token that was given back was finished later, with its own key. -/
def AllFinished (past : List (Record κ)) : Prop :=
  ∀ earlier own n later, past = earlier ++ (.begin own, .token n) :: later →
    ∃ key result, (.finish key (n : Int), result) ∈ later ∧ key == own

variable [EquivBEq κ]

theorem Tracks.latest_nil {past : List (Record κ)} {s : Sequencer κ} (h : Tracks past s)
    (hall : AllFinished past) : s.latest = [] := by
  cases htable : s.latest with
  | nil => rfl
  | cons entry rest =>
    obtain ⟨key, n⟩ := entry
    have hkey : s.latest? key = some n := by simp [latest?, htable]
    obtain ⟨earlier, own, later, hpast, hown, hkept⟩ := (h.latest key n).mp hkey
    obtain ⟨other, result, hmem, hother⟩ := hall earlier own n later hpast
    exact absurd ⟨BEq.trans hother hown, rfl⟩ (hkept _ hmem)

/-- A finish gives nothing back, and takes one entry away, which is there, or changes nothing. -/
theorem Tracks.finish_latest {past : List (Record κ)} {s : Sequencer κ} (h : Tracks past s)
    (key : κ) (token : Int) :
    ∃ after, s.call (.finish key token) = (.nothing, after) ∧
      (after = s ∨ ∃ n : Nat, token = n ∧ IsLatest past key n ∧ ∃ front own rest,
        own == key ∧ s.latest = front ++ (own, n) :: rest ∧ after = ⟨s.counter, front ++ rest⟩) := by
  cases htoken : token.toNat? with
  | none => exact ⟨s, by simp [Sequencer.call, htoken], .inl rfl⟩
  | some n =>
    obtain rfl : token = n := Int.mem_toNat?.mp htoken
    refine ⟨s.finish key n, rfl, ?_⟩
    by_cases hcurrent : s.latest? key = some n
    · obtain ⟨front, own, rest, hsplit, hown, hforget⟩ := forget_eq h.distinct hcurrent
      refine .inr ⟨n, rfl, (h.latest key n).mp hcurrent, front, own, rest, hown, hsplit, ?_⟩
      unfold Sequencer.finish
      rw [if_pos ((s.isCurrent_iff key n).mpr hcurrent), hforget]
    · exact .inl (if_neg (mt (s.isCurrent_iff key n).mp hcurrent))

/-- What a sequencer answers after any calls is told by the record of the calls.  A token that is
given back is greater than all before it; a token is current exactly if it is the latest of its
key; a call that spares a key changes no answer about it; a finish always succeeds, since what it
takes away is an entry that is there; and the table is empty once all tokens are finished. -/
theorem answers_by_history (calls : List (Call κ)) :
    let past : List (Record κ) := (run .empty calls).1
    let s : Sequencer κ := (run .empty calls).2
    past.map Prod.fst = calls ∧
      (∀ key, ∃ n, (s.call (.begin key)).1 = .token n ∧
        ∀ c m, (c, .token m) ∈ past → m < n) ∧
      (∀ key (token : Int), ∃ b, (s.call (.isCurrent key token)).1 = .current b ∧
        (b = true ↔ ∃ n : Nat, token = n ∧ IsLatest past key n)) ∧
      (∀ key (c : Call κ), c.Spares past key → ∀ token,
        ((s.call c).2.call (.isCurrent key token)).1 = (s.call (.isCurrent key token)).1) ∧
      (∀ key (token : Int), ∃ after, s.call (.finish key token) = (.nothing, after) ∧
        (after = s ∨ ∃ n : Nat, token = n ∧ IsLatest past key n ∧ ∃ front own rest,
          own == key ∧ s.latest = front ++ (own, n) :: rest ∧
            after = ⟨s.counter, front ++ rest⟩)) ∧
      (AllFinished past → s.latest = []) := by
  intro past s
  have h : Tracks past s := tracks_run calls
  refine ⟨calls_run _ _, fun key => ⟨s.counter + 1, rfl, fun c m hmem => ?_⟩,
    h.isCurrent_iff, fun key c hspares token => ?_, h.finish_latest, h.latest_nil⟩
  · exact Nat.lt_succ_of_le (h.issued c m hmem)
  · obtain ⟨b, hb, hbefore⟩ := h.isCurrent_iff key token
    obtain ⟨b', hb', hafter⟩ := (h.call c).isCurrent_iff key token
    have hsame : b' = b := by
      rw [Bool.eq_iff_iff, hbefore, hafter]
      exact exists_congr fun n => and_congr_right' (isLatest_spared hspares n)
    rw [hb, hb', hsame]

/-- Three tokens, of which the first two are of one key, and are finished in another order. -/
theorem answers_by_history_three :
    let calls : List (Call Nat) :=
      [.begin 0, .begin 0, .begin 1, .finish 1 3, .finish 0 1, .isCurrent 0 2, .finish 0 2]
    EquivBEq Nat ∧ ((run .empty calls).1 : List (Record Nat)).map Prod.fst = calls ∧
      (run .empty calls).1 = [(.begin 0, .token 1), (.begin 0, .token 2), (.begin 1, .token 3),
        (.finish 1 3, .nothing), (.finish 0 1, .nothing), (.isCurrent 0 2, .current true),
        (.finish 0 2, .nothing)] ∧
      (run .empty calls).2.latest = [] :=
  ⟨inferInstance, (answers_by_history _).1, rfl, rfl⟩

end EditorLint.Sequencer
