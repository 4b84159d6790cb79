import EditorLint.Proofs.FixCourse
import EditorLint.Proofs.JsonText

/-!
# Where diagnostics come from

Every diagnostic that a report is read as comes from a message in it, with the severity that
the message has (`Report.origin`).  The numbers of a diagnostic are small enough to be written
and read again (`Report.bounded_of_read`): an integer in JSON has no more digits than are
converted, and a floating-point number has no more than it takes to write the largest one.
-/

namespace EditorLint

/-! ## Small numbers -/

namespace Numeral

theorem digit?_lt {base : Nat} {c : Char} {d : Nat} (h : digit? base c = some d) : d < base := by
  unfold digit? at h
  obtain ⟨-, hd⟩ := Option.filter_eq_some_iff.mp h
  exact of_decide_eq_true hd

/-- A number is less than the power that has one zero for each of its digits. -/
theorem value_lt (cs : List Char) : value cs < powerOfTen cs.length := by
  -- On the digits, for any number that they are read behind.
  have hfold (cs : List Char) (n n' : Nat)
      (h : cs.foldlM (fun n c => (digit? 10 c).map (n * 10 + ·)) n = some n') :
      n' < (n + 1) * 10 ^ cs.length := by
    induction cs generalizing n with
    | nil =>
      obtain rfl : n = n' := Option.some.inj h
      rw [List.length_nil, Nat.pow_zero, Nat.mul_one]
      exact Nat.lt_succ_self n
    | cons c cs ih =>
      obtain ⟨m, hm, h⟩ := Option.bind_eq_some_iff.mp h
      obtain ⟨d, hd, rfl⟩ := Option.map_eq_some_iff.mp hm
      have hsmall := digit?_lt hd
      calc n' < (n * 10 + d + 1) * 10 ^ cs.length := ih _ h
        _ ≤ ((n + 1) * 10) * 10 ^ cs.length := Nat.mul_le_mul_right _ (by omega)
        _ = (n + 1) * 10 ^ (c :: cs).length := by
          rw [List.length_cons, Nat.pow_succ', Nat.mul_assoc]
  unfold value
  cases h : ofDigits? 10 cs with
  | none =>
    show 0 < 10 ^ cs.length
    exact Nat.pow_pos (by decide)
  | some n =>
    by_cases hcs : cs = []
    · subst hcs
      cases h
    · rw [ofDigits?_eq_foldlM hcs] at h
      have := hfold cs 0 n h
      rwa [Nat.zero_add, Nat.one_mul] at this

theorem powerOfTen_le {m n : Nat} (h : m ≤ n) : powerOfTen m ≤ powerOfTen n :=
  Nat.pow_le_pow_right (by decide) h

theorem length_toDigits_le_iff {k : Nat} (hk : 0 < k) (n : Nat) :
    (Nat.toDigits 10 n).length ≤ k ↔ n < powerOfTen k :=
  Nat.length_toDigits_le_iff (by decide) hk

end Numeral

namespace Json

theorem small_iff_natAbs_lt (n : Int) : Small n ↔ n.natAbs < powerOfTen maxDigits :=
  Numeral.length_toDigits_le_iff (by decide) n.natAbs

/-! ## What is read -/

/-- Data that are read: their integers are small. -/
inductive Short : Datum → Prop where
  | null : Short .null
  | bool (b : Bool) : Short (.bool b)
  | int {n : Int} (small : Small n) : Short (.int n)
  | float (x : Float) : Short (.float x)
  | text (t : Text) : Short (.text t)
  | list {ds : List Datum} (items : ∀ d ∈ ds, Short d) : Short (.list ds)
  | mapping {es : Entries} (values : ∀ e ∈ es, Short e.2) : Short (.mapping es)

end Json

theorem Entries.forall_ofAssignments {P : Datum → Prop} {as : Entries} (h : ∀ a ∈ as, P a.2) :
    ∀ e ∈ ofAssignments as, P e.2 := by
  have hinsert (key value : Datum) (hvalue : P value) (es : Entries) (hes : ∀ e ∈ es, P e.2) :
      ∀ e ∈ insert key value es, P e.2 := by
    induction es with
    | nil => exact List.forall_mem_singleton.mpr hvalue
    | cons e es ih =>
      obtain ⟨he, hes⟩ := List.forall_mem_cons.mp hes
      unfold insert
      split
      · exact List.forall_mem_cons.mpr ⟨hvalue, hes⟩
      · exact List.forall_mem_cons.mpr ⟨he, ih hes⟩
  have hall (as done : Entries) (has : ∀ a ∈ as, P a.2) (hdone : ∀ e ∈ done, P e.2) :
      ∀ e ∈ as.foldl (fun acc a => insert a.1 a.2 acc) done, P e.2 := by
    induction as generalizing done with
    | nil => exact hdone
    | cons a as ih =>
      obtain ⟨ha, has⟩ := List.forall_mem_cons.mp has
      exact ih _ has (hinsert a.1 a.2 ha done hdone)
  exact hall as [] h fun e he => absurd he List.not_mem_nil

namespace Json

theorem short_word? {s rest : List Char} {d : Datum} (h : word? s = some (d, rest)) : Short d := by
  have hwords : ∀ w ∈ words, Short w.2 := by
    simp only [words, List.forall_mem_cons]
    exact ⟨.null, .bool _, .bool _, .float _, .float _, .float _,
      fun w hw => absurd hw List.not_mem_nil⟩
  obtain ⟨w, hw, hd⟩ := Option.map_eq_some_iff.mp h
  cases hd
  exact hwords w (List.mem_of_find?_eq_some hw)

theorem short_number {negative : Bool} {start s rest : List Char} {d : Datum}
    (h : number negative start s = .ok (d, rest)) : Short d := by
  unfold number at h
  split at h
  · cases h
  · rename_i digits _ _
    dsimp only at h
    split at h
    · split at h
      · cases h
      · rename_i hshort
        cases h
        refine .int ((small_iff_natAbs_lt _).mpr ?_)
        have hvalue : Int.natAbs (if negative = true then -(Numeral.value digits : Int)
            else Numeral.value digits) = Numeral.value digits := by
          cases negative with
          | true => exact (Int.natAbs_neg _).trans (Int.natAbs_natCast _)
          | false => exact Int.natAbs_natCast _
        rw [hvalue]
        exact Nat.lt_of_lt_of_le (Numeral.value_lt digits)
          (Numeral.powerOfTen_le (Nat.le_of_not_lt hshort))
    · cases h
      exact .float _

theorem short_entry {item : Reader Datum} (hitem : ∀ s d rest, item s = .ok (d, rest) → Short d)
    {s rest : List Char} {e : Datum × Datum} (h : entry item s = .ok (e, rest)) : Short e.2 := by
  unfold entry at h
  split at h
  · obtain ⟨⟨name, rest'⟩, -, h⟩ := bind_eq_ok.mp h
    dsimp only at h
    split at h
    · obtain ⟨⟨d, rest''⟩, hd, h⟩ := bind_eq_ok.mp h
      cases h
      exact hitem _ _ _ hd
    · cases h
  · cases h

theorem short_value {depth : Nat} {s rest : List Char} {d : Datum}
    (h : value depth s = .ok (d, rest)) : Short d := by
  have of_map {α β : Type} {x : Except Fault α} {f : α → β} {b : β} (h : x.map f = .ok b) :
      ∃ a, x = .ok a ∧ f a = b := by
    cases x with
    | error e => cases h
    | ok a => exact ⟨a, rfl, Except.ok.inj h⟩
  -- On the depth: what is inside an array or an object is read with one level less.
  induction depth using Nat.strongRecOn generalizing s rest d with
  | ind depth ih =>
    unfold value at h
    split at h
    · cases h
    · cases h
    · rename_i depth _
      obtain ⟨⟨ds, rest'⟩, hds, hd⟩ := of_map h
      cases hd
      refine .list fun d hd => ?_
      obtain ⟨s', rest', hread⟩ := (series_array _).of_whole hds d hd
      exact ih depth (Nat.lt_succ_self depth) hread
    · rename_i depth _
      obtain ⟨⟨es, rest'⟩, hes, hd⟩ := of_map h
      cases hd
      refine .mapping (Entries.forall_ofAssignments fun e he => ?_)
      obtain ⟨s', rest', hread⟩ := (series_object _).of_whole hes e he
      exact short_entry (fun _ _ _ => ih depth (Nat.lt_succ_self depth)) hread
    · obtain ⟨⟨t, rest'⟩, -, hd⟩ := of_map h
      cases hd
      exact .text t
    · split at h
      · rename_i hword
        cases h
        exact short_word? hword
      · split at h
        · exact short_number h
        · exact short_number h

theorem short_read {s : List Char} {d : Datum} (h : read s = .ok d) : Short d := by
  unfold read at h
  split at h
  · cases h
  · obtain ⟨⟨d', rest⟩, hd, h⟩ := bind_eq_ok.mp h
    dsimp only at h
    split at h
    · cases h
      exact short_value hd
    · cases h

end Json

/-! ## What is reported -/

namespace Binary

theorem powerOfTwo_pos (n : Nat) : 0 < powerOfTwo n := Nat.two_pow_pos n

/-- The integer part of a floating-point number has 1024 bits at most. -/
theorem natAbs_truncate_lt {x : Float} {b : Binary} (h : ofFloat? x = some b) :
    ∃ k ≤ 1024, b.truncate.natAbs < powerOfTwo k := by
  have hfraction : fractionBits x < 2 ^ 52 := Nat.mod_lt _ (powerOfTwo_pos 52)
  have hexponent : exponentBits x < 2 ^ 11 := Nat.mod_lt _ (powerOfTwo_pos 11)
  -- The significand has 53 bits, and the exponent adds 971 at most.
  obtain ⟨hm, hq⟩ : b.m < 2 ^ 53 ∧ b.q ≤ 971 := by
    unfold ofFloat? at h
    dsimp only at h
    split at h
    · cases h
    · split at h
      · cases h
        constructor
        · show fractionBits x < 2 ^ 53
          omega
        · show (-1074 : Int) ≤ 971
          decide
      · cases h
        constructor
        · show fractionBits x + 2 ^ 52 < 2 ^ 53
          omega
        · show (exponentBits x : Int) - 1075 ≤ 971
          omega
  have hwhole : b.m * 2 ^ b.q.toNat < 2 ^ (53 + b.q.toNat) := by
    rw [Nat.pow_add]
    exact Nat.mul_lt_mul_of_pos_right hm (Nat.two_pow_pos _)
  have hpart (k : Nat) : b.m / k < 2 ^ 53 := Nat.lt_of_le_of_lt (Nat.div_le_self b.m k) hm
  have habs : b.truncate.natAbs =
      if b.q ≥ 0 then b.m * 2 ^ b.q.toNat else b.m / 2 ^ (-b.q).toNat := by
    unfold truncate
    dsimp only
    split
    · exact Int.natAbs_neg _
    · rfl
  rw [habs]
  split
  · exact ⟨53 + b.q.toNat, by omega, hwhole⟩
  · exact ⟨53, by decide, hpart _⟩

end Binary

/-- The numbers of a diagnostic are small. -/
structure Diagnostic.Bounded (d : Diagnostic) : Prop where
  line : Json.Small d.line
  column : Json.Small d.column
  endLine : ∀ n ∈ d.endLine, Json.Small n
  endColumn : ∀ n ∈ d.endColumn, Json.Small n

namespace Report

open Json

theorem small_of_integerPart {d : Datum} (hd : Short d) {n : Int} (h : integerPart d = .ok n) :
    Small n := by
  cases hd with
  | int small =>
    cases h
    exact small
  | float x =>
    unfold integerPart at h
    dsimp only at h
    split at h
    · rename_i b hb
      cases h
      obtain ⟨k, hk, hlt⟩ := Binary.natAbs_truncate_lt hb
      have hdigits : k ≤ maxDigits := Nat.le_trans hk (by decide)
      refine (small_iff_natAbs_lt _).mpr ?_
      calc b.truncate.natAbs < powerOfTwo k := hlt
        _ ≤ powerOfTen k := Nat.pow_le_pow_left (by decide) k
        _ ≤ powerOfTen maxDigits := Numeral.powerOfTen_le hdigits
    · cases h
  | null | bool | text | list | mapping =>
    cases h
    exact (by decide : (Nat.toDigits 10 0).length ≤ maxDigits)

theorem small_of_integerPart? {d : Datum} (hd : Short d) {n? : Option Int}
    (h : integerPart? d = .ok n?) : ∀ n ∈ n?, Small n := by
  unfold integerPart? at h
  split at h
  · cases hpart : integerPart d with
    | error f =>
      rw [hpart] at h
      cases h
    | ok n =>
      rw [hpart] at h
      cases h
      rintro _ ⟨⟩
      exact small_of_integerPart hd hpart
  · cases h
    exact fun n hn => nomatch hn

theorem short_field {es : Entries} (h : ∀ e ∈ es, Short e.2) (name : String) :
    Short (es.field name) := by
  unfold Entries.field
  cases hget : Entries.get? (.string name) es with
  | none => exact .null
  | some d =>
    obtain ⟨e, he, rfl⟩ := Entries.mem_of_get? hget
    exact h e he

theorem kept_of_mapObject {es : Entries} {d : Diagnostic} (h : mapObject es = .ok (.kept d)) :
    d.severity = severity (es.field "severity") ∧ integerPart (es.field "line") = .ok d.line ∧
      integerPart (es.field "column") = .ok d.column ∧
      integerPart? (es.field "endLine") = .ok d.endLine ∧
      integerPart? (es.field "endColumn") = .ok d.endColumn := by
  unfold mapObject at h
  dsimp only at h
  split at h
  · split at h
    · cases h
    · split at h
      · cases h
      · obtain ⟨line, hline, h⟩ := bind_eq_ok.mp h
        obtain ⟨column, hcolumn, h⟩ := bind_eq_ok.mp h
        obtain ⟨endLine, hendLine, h⟩ := bind_eq_ok.mp h
        obtain ⟨endColumn, hendColumn, h⟩ := bind_eq_ok.mp h
        cases h
        exact ⟨rfl, hline, hcolumn, hendLine, hendColumn⟩
  · cases h

theorem bounded_of_mapObject {es : Entries} (hes : ∀ e ∈ es, Short e.2) {d : Diagnostic}
    (h : mapObject es = .ok (.kept d)) : d.Bounded := by
  obtain ⟨-, hline, hcolumn, hendLine, hendColumn⟩ := kept_of_mapObject h
  exact ⟨small_of_integerPart (short_field hes _) hline,
    small_of_integerPart (short_field hes _) hcolumn,
    small_of_integerPart? (short_field hes _) hendLine,
    small_of_integerPart? (short_field hes _) hendColumn⟩

theorem mem_mapMessages {ms : List Message} {ds : List Diagnostic}
    (h : (mapMessages ms).result = .ok ds) {d : Diagnostic} (hd : d ∈ ds) :
    ∃ m ∈ ms, mapMessage m = .ok (.kept d) := by
  -- On the messages: the diagnostic comes from the first one or from one behind it.
  induction ms generalizing ds with
  | nil =>
    cases h
    cases hd
  | cons m ms ih =>
    unfold mapMessages at h
    obtain ⟨mapped, hmapped, h⟩ := Logged.result_bind h
    have hlater {ds : List Diagnostic} (h : (mapMessages ms).result = .ok ds) (hd : d ∈ ds) :
        ∃ m' ∈ m :: ms, mapMessage m' = .ok (.kept d) := by
      obtain ⟨m', hm', hkept⟩ := ih h hd
      exact ⟨m', List.mem_cons_of_mem m hm', hkept⟩
    cases mapped with
    | kept d' =>
      obtain ⟨ds', hds', h⟩ := Logged.result_bind h
      cases h
      cases hd with
      | head => exact ⟨m, List.mem_cons_self, hmapped⟩
      | tail _ hd => exact hlater hds' hd
    | suppressed => exact hlater h hd
    | dropped why raw =>
      obtain ⟨_, -, h⟩ := Logged.result_bind h
      exact hlater h hd

def Holds (s : List Char) (message : Entries) : Prop :=
  ∃ first rest items, Json.read s = .ok (.list (.mapping first :: rest)) ∧
    Entries.field "messages" first = .list items ∧ .mapping message ∈ items

/-- Every diagnostic comes from a message that stands in the report. -/
theorem origin {s : List Char} {ds : List Diagnostic} {fix : Option Text}
    (h : (read s).result = .ok (.readable ds fix)) {d : Diagnostic} (hd : d ∈ ds) :
    ∃ message, Holds s message ∧ mapObject message = .ok (.kept d) := by
  unfold read at h
  split at h
  · rename_i whole hread
    unfold ofDatum at h
    split at h
    · cases h
      cases hd
    · rename_i first rest
      unfold ofResult at h
      split at h
      · rename_i es
        dsimp only at h
        split at h
        · rename_i items hitems
          -- Only this branch keeps any message: the diagnostics are mapped one by one.
          obtain ⟨ds', hds, h⟩ := Logged.result_bind h
          cases h
          obtain ⟨m, hm, hkept⟩ := mem_mapMessages hds hd
          obtain ⟨item, hitem, rfl⟩ := List.mem_map.mp hm
          unfold mapMessage at hkept
          split at hkept
          · rename_i hraw
            cases hraw
          · rename_i message hraw
            cases hraw
            exact ⟨message, ⟨es, rest, items, hread, hitems, hitem⟩, hkept⟩
          · cases hkept
        · split at h
          · cases h
          · cases h
            cases hd
      · cases h
    · cases h
  · cases h
  · cases h
  · cases h

theorem bounded_of_read {s : List Char} {ds : List Diagnostic} {fix : Option Text}
    (h : (read s).result = .ok (.readable ds fix)) : ∀ d ∈ ds, d.Bounded := by
  intro d hd
  obtain ⟨message, ⟨first, rest, items, hread, hitems, hmessage⟩, hkept⟩ := origin h hd
  refine bounded_of_mapObject ?_ hkept
  cases short_read hread with
  | list hreport =>
    cases hreport _ List.mem_cons_self with
    | mapping hfirst =>
      have hlist := short_field hfirst "messages"
      rw [hitems] at hlist
      cases hlist with
      | list hmessages =>
        cases hmessages _ hmessage with
        | mapping hvalues => exact hvalues

end Report

end EditorLint
