import EditorLint.Sequencer

/-!
# What a sequencer remembers

A key has the token that was given out for it last, until that token is finished.  Another
key is not touched by what happens to it.  All that the keys need is an equality that is
symmetric and transitive.
-/

namespace EditorLint.Sequencer

variable {κ : Type} [BEq κ]

@[simp] theorem counter_begin (q : Sequencer κ) (key : κ) :
    (q.begin key).2.counter = q.counter + 1 := rfl

@[simp] theorem token_begin (q : Sequencer κ) (key : κ) : (q.begin key).1 = q.counter + 1 := rfl

@[simp] theorem counter_finish (q : Sequencer κ) (key : κ) (token : Nat) :
    (q.finish key token).counter = q.counter := by
  unfold finish
  split <;> rfl

theorem isCurrent_iff (q : Sequencer κ) (key : κ) (token : Nat) :
    q.isCurrent key token = true ↔ q.latest? key = some token := by
  simp [isCurrent]

variable [PartialEquivBEq κ]

/-- A table without a key has the same entries for every other key. -/
theorem find?_forget {q : Sequencer κ} {key other : κ} (h : (key == other) = false) :
    (q.forget key).find? (fun (k, _) => k == other) = q.latest.find? fun (k, _) => k == other := by
  unfold forget
  rw [List.find?_filter]
  congr 1
  funext ⟨k, token⟩
  cases hk : k == key with
  | false => simp [hk]
  | true =>
    have : (k == other) = false := by
      cases ho : k == other with
      | false => rfl
      | true => exact absurd (BEq.trans (BEq.symm hk) ho) (by simp [h])
    simp [this]

theorem latest?_begin (q : Sequencer κ) (key other : κ) :
    (q.begin key).2.latest? other =
      if key == other then some (q.counter + 1) else q.latest? other := by
  unfold latest? begin
  cases h : key == other with
  | false => simp [h, find?_forget h]
  | true => simp [h]

theorem latest?_finish (q : Sequencer κ) {key : κ} {token : Nat}
    (h : q.latest? key = some token) (other : κ) :
    (q.finish key token).latest? other = if key == other then none else q.latest? other := by
  have hc : q.isCurrent key token = true := (q.isCurrent_iff key token).mpr h
  unfold finish
  rw [if_pos hc]
  cases ho : key == other with
  | false => simp [latest?, find?_forget ho]
  | true =>
    simp only [latest?, if_true, Option.map_eq_none_iff, List.find?_eq_none]
    intro ⟨k, n⟩ hk hko
    have hm := (List.mem_filter.mp hk).2
    simp [BEq.trans hko (BEq.symm ho)] at hm

end EditorLint.Sequencer
