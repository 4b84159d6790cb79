import EditorLint.Proofs.Findings
import EditorLint.Proofs.Normalizing
import EditorLint.Proofs.Outcomes

/-!
# What a report says

What the linter has written is decoded first, and the value that comes out decides what the
report says (`Says`).  An empty array reports nothing.  Of any other array only the first element
counts, and of that only its messages and its output.

1. Messages that count as nothing (`Vacant`) are no messages; any other value that is no array
   makes the report unreadable (`ofResult_of_other`).
2. A value says at most one thing, which is what is read from it (`Says.result_eq`), and it says
   something where its messages have finite numbers (`exists_says`).
3. What else stands in an array or its first element makes no difference (`ofDatum_congr`).

So decoding a text decides its report and the outcome that shows it (`report_decided`).
-/

namespace EditorLint

namespace Report

/-! ## Values that count as nothing -/

/-- A value counts as nothing: it is null, false, zero, or empty. -/
inductive Vacant : Datum → Prop where
  | null : Vacant .null
  | no : Vacant (.bool false)
  | zero {d : Datum} (exact : Exact d 0) : Vacant d
  | text : Vacant (.text [])
  | list : Vacant (.list [])
  | mapping : Vacant (.mapping [])

theorem exact_int_iff {n : ℤ} {r : ℚ} : Exact (.int n) r ↔ r = n := by
  constructor
  · exact fun h => h.unique (.int n)
  · rintro rfl
    exact .int n

theorem exact_float_iff {x : Float} {r : ℚ} :
    Exact (.float x) r ↔ FloatValue.value? x = some r := by
  constructor
  · intro h
    cases h with
    | float value => exact value
  · exact .float

theorem Vacant.isTruthy {d : Datum} (h : Vacant d) : d.isTruthy = false := by
  cases h with
  | null | no | text | list | mapping => rfl
  | zero exact =>
    cases d with
    | int n =>
      have hzero : n = 0 := by exact_mod_cast (exact_int_iff.mp exact).symm
      simp [Datum.isTruthy, hzero]
    | float x =>
      have hzero := FloatValue.sameNumber_zero_iff.mpr (exact_float_iff.mp exact)
      simp [Datum.isTruthy, hzero]
    | _ => cases exact

theorem vacant_iff {d : Datum} (short : Json.Short d) : Vacant d ↔ d.isTruthy = false := by
  refine ⟨Vacant.isTruthy, fun h => ?_⟩
  cases short with
  | null => exact .null
  | bool b =>
    obtain rfl : b = false := h
    exact .no
  | @int n small =>
    obtain rfl : n = 0 := by simpa [Datum.isTruthy] using h
    exact .zero (exact_int_iff.mpr Int.cast_zero.symm)
  | float x =>
    have hzero : Float.sameNumber x 0 = true := by simpa [Datum.isTruthy] using h
    exact .zero (exact_float_iff.mpr (FloatValue.sameNumber_zero_iff.mp hzero))
  | text t =>
    obtain rfl : t = [] := by simpa [Datum.isTruthy] using h
    exact .text
  | @list ds items =>
    obtain rfl : ds = [] := by simpa [Datum.isTruthy] using h
    exact .list
  | @mapping es values =>
    obtain rfl : es = [] := by simpa [Datum.isTruthy] using h
    exact .mapping

/-! ## What a value says -/

/-- The messages of a result: those that it lists, or none where it has nothing that counts. -/
inductive Lists (es : Entries) : List Datum → Prop where
  | array {items : List Datum} (messages : es.field "messages" = .list items) : Lists es items
  | nothing (vacant : Vacant (es.field "messages")) : Lists es []

/-- What a decoded value says as a report. -/
inductive Says : Datum → Report → Prop where
  | nothing : Says (.list []) (.readable [] none)
  | notArray {v : Datum} (other : ∀ ds, v ≠ .list ds) :
    Says v (.unreadable ("Expected a JSON array, got " ++ v.kind))
  | notObject {first : Datum} {rest : List Datum} (other : ∀ es, first ≠ .mapping es) :
    Says (.list (first :: rest)) (.unreadable ("Expected a result object, got " ++ first.kind))
  | notMessages {es : Entries} {rest : List Datum} (counts : ¬Vacant (es.field "messages"))
    (other : ∀ items, es.field "messages" ≠ .list items) :
    Says (.list (.mapping es :: rest)) (.unreadable "'messages' is not an array")
  | result {es : Entries} {rest items : List Datum} {ds : List Diagnostic} {fix : Option Text}
    (lists : Lists es items) (maps : (mapMessages (items.map .raw)).result = .ok ds)
    (proposes : ∀ t, fix = some t ↔ es.field "output" = .text t) :
    Says (.list (.mapping es :: rest)) (.readable ds fix)

section Says

variable {es : Entries} {rest items : List Datum} {v v' : Datum} {r r' : Report}

theorem ofResult_of_array (messages : es.field "messages" = .list items) :
    ofResult (.mapping es) =
      do return .readable (← mapMessages (items.map .raw)) (es.field "output").text? := by
  simp only [ofResult, messages]

theorem ofResult_of_other (other : ∀ items, es.field "messages" ≠ .list items) :
    ofResult (.mapping es) =
      if (es.field "messages").isTruthy then pure (.unreadable "'messages' is not an array")
      else pure (.readable [] (es.field "output").text?) := by
  unfold ofResult
  dsimp only
  split
  · next items h => exact absurd h (other items)
  · rfl

theorem result_of_lists (lists : Lists es items) {ds : List Diagnostic}
    (maps : (mapMessages (items.map .raw)).result = .ok ds) :
    (ofResult (.mapping es)).result = .ok (.readable ds (es.field "output").text?) := by
  have listed {items : List Datum} (messages : es.field "messages" = .list items)
      (maps : (mapMessages (items.map .raw)).result = .ok ds) :
      (ofResult (.mapping es)).result = .ok (.readable ds (es.field "output").text?) := by
    rw [ofResult_of_array messages, Logged.bind_of_ok maps]
    rfl
  cases lists with
  | array messages => exact listed messages maps
  | nothing vacant =>
    by_cases harray : ∃ items, es.field "messages" = .list items
    · obtain ⟨items, messages⟩ := harray
      have hnone := vacant.isTruthy
      rw [messages] at hnone
      obtain rfl : items = [] := by simpa [Datum.isTruthy] using hnone
      exact listed messages maps
    · rw [ofResult_of_other (not_exists.mp harray), vacant.isTruthy]
      cases maps
      rfl

/-- What a value says is what is read from it. -/
theorem Says.result_eq (short : Json.Short v) (h : Says v r) : (ofDatum v).result = .ok r := by
  cases h with
  | nothing => rfl
  | notArray other =>
    cases v with
    | list ds => exact absurd rfl (other ds)
    | _ => rfl
  | @notObject first rest other =>
    cases first with
    | mapping es => exact absurd rfl (other es)
    | _ => rfl
  | @notMessages es rest counts other =>
    have hcounts : (es.field "messages").isTruthy = true := by
      cases short with
      | list items =>
        cases items _ List.mem_cons_self with
        | mapping values =>
          exact (Bool.not_eq_false _).mp (mt (vacant_iff (short_field values _)).mpr counts)
    show (ofResult (.mapping es)).result = _
    rw [ofResult_of_other other, hcounts]
    rfl
  | @result es rest items ds fix lists maps proposes =>
    have hfix : (es.field "output").text? = fix :=
      Option.ext fun t => text?_eq_some_iff.trans (proposes t).symm
    rw [← hfix]
    exact result_of_lists lists maps

/-- The numbers in the messages of the first result are finite. -/
def FiniteMessages (v : Datum) : Prop :=
  ∀ (es : Entries) (rest items : List Datum), v = .list (.mapping es :: rest) →
    es.field "messages" = .list items → ∀ d ∈ items, (Message.raw d).Finite

theorem exists_says (finite : FiniteMessages v) : ∃ r, Says v r := by
  cases v with
  | list ds =>
    cases ds with
    | nil => exact ⟨_, .nothing⟩
    | cons first rest =>
      cases first with
      | mapping entries =>
        let es : Entries := entries
        by_cases harray : ∃ items, es.field "messages" = .list items
        · obtain ⟨items, messages⟩ := harray
          have hwhole : ∀ m ∈ items.map Message.raw, ∀ f, ¬Breaks m f := by
            intro m hm f
            obtain ⟨d, hd, rfl⟩ := List.mem_map.mp hm
            exact (finite es rest items rfl messages d hd).not_breaks
          obtain ⟨ends, hends⟩ := exists_ends hwhole
          have hmaps := congrArg Logged.result (mapMessages_eq hends)
          exact ⟨_, .result (.array messages) hmaps fun t => text?_eq_some_iff⟩
        · by_cases vacant : Vacant (es.field "messages")
          · exact ⟨_, .result (.nothing vacant) rfl fun t => text?_eq_some_iff⟩
          · exact ⟨_, .notMessages vacant (not_exists.mp harray)⟩
      | _ => exact ⟨_, .notObject fun es h => by cases h⟩
  | _ => exact ⟨_, .notArray fun ds h => by cases h⟩

/-- Two values agree in what is looked at: in the first element, or in its messages and its
output. -/
inductive FirstAlike : Datum → Datum → Prop where
  | element (first : Datum) (rest rest' : List Datum) :
    FirstAlike (.list (first :: rest)) (.list (first :: rest'))
  | fields {es es' : Entries} {rest rest' : List Datum}
    (messages : es.field "messages" = es'.field "messages")
    (output : es.field "output" = es'.field "output") :
    FirstAlike (.list (.mapping es :: rest)) (.list (.mapping es' :: rest'))

theorem ofDatum_congr (h : FirstAlike v v') : ofDatum v = ofDatum v' := by
  cases h with
  | element => rfl
  | fields messages output => simp only [ofDatum, ofResult, messages, output]

end Says

theorem read_of_decoded {s : List Char} {v : Datum} (h : Json.read s = .ok v) :
    read s = ofDatum v := by
  simp only [read, h]

/-- A text that is decoded to a value whose messages have finite numbers is a report that says one
thing, which the value alone decides, and the outcome shows just that.  Neither what follows the
first element of an array nor what else stands in this element makes a difference.  A text with an
error of syntax is an unreadable report. -/
theorem report_decided (s : List Char) (config : Option Path) :
    (∀ v, Json.read s = .ok v → FiniteMessages v →
      (∃ r, (∀ r', Says v r' ↔ r' = r) ∧ (read s).result = .ok r ∧
        (r.outcome config).Shows r.diagnostics r.fix config) ∧
      ∀ s' v', Json.read s' = .ok v' → FirstAlike v v' → read s' = read s) ∧
    ∀ problem left, Json.read s = .error (.malformed problem left) →
      (read s).result =
        .ok (.unreadable ("ESLint JSON parse error: " ++ Json.located s problem left)) := by
  refine ⟨fun v decoded finite => ⟨?_, ?_⟩, ?_⟩
  · obtain ⟨r, hr⟩ := exists_says finite
    have hread {r : Report} (h : Says v r) : (ofDatum v).result = .ok r :=
      h.result_eq (Json.short_read decoded)
    refine ⟨r, fun r' => ⟨fun hr' => ?_, ?_⟩, ?_, Outcome.shows_ofReport _ _ _⟩
    · exact Except.ok.inj ((hread hr').symm.trans (hread hr))
    · rintro rfl
      exact hr
    · rw [read_of_decoded decoded]
      exact hread hr
  · intro s' v' decoded' alike
    rw [read_of_decoded decoded, read_of_decoded decoded', ofDatum_congr alike]
  · intro problem left malformed
    simp only [read, malformed]
    rfl

/-- A message and an empty output, with an element behind them or a field between them; and a text
with an error of syntax. -/
theorem report_decided_output :
    let message : Datum := .mapping [(.string "message", .string "a"), (.string "line", .int 2),
      (.string "column", .int 3)]
    let v : Datum :=
      .list [.mapping [(.string "messages", .list [message]), (.string "output", .text [])], .int 5]
    let v' : Datum := .list [.mapping [(.string "output", .text []), (.string "x", .null),
      (.string "messages", .list [message])]]
    let s := ("[\x7b\"messages\":[\x7b\"message\":\"a\",\"line\":2,\"column\":3\x7d]," ++
      "\"output\":\"\"\x7d,5]").toList
    let s' := ("[\x7b\"output\":\"\",\"x\":null," ++
      "\"messages\":[\x7b\"message\":\"a\",\"line\":2,\"column\":3\x7d]\x7d]").toList
    (Json.read s = .ok v ∧ Json.read s' = .ok v' ∧ FiniteMessages v ∧ FirstAlike v v' ∧
      Json.read ['x'] = .error (.malformed .value 1)) ∧
      (∃ r, (read s).result = .ok r ∧ (read s').result = .ok r ∧ (r.outcome none).status = "ok") ∧
      ∃ reason, (read ['x']).result = .ok (.unreadable reason) := by
  intro message v v' s s'
  have hs : Json.read s = .ok v := by rfl
  have hs' : Json.read s' = .ok v' := by rfl
  have hx : Json.read ['x'] = .error (.malformed .value 1) := by rfl
  have hfinite : FiniteMessages v := by
    intro es rest items hv hitems d hd
    obtain ⟨hes, -⟩ := List.cons.inj (Datum.list.inj hv)
    obtain rfl := Datum.mapping.inj hes
    obtain rfl := Datum.list.inj hitems
    obtain rfl := List.mem_singleton.mp hd
    simp [Message.Finite, message, Datum.string]
  have halike : FirstAlike v v' := .fields rfl rfl
  obtain ⟨⟨r, hmeant, hread, hshows⟩, hsame⟩ := (report_decided s none).1 v hs hfinite
  refine ⟨⟨hs, hs', hfinite, halike, hx⟩, ⟨r, hread, ?_, ?_⟩, _, (report_decided ['x'] none).2 _ _ hx⟩
  · rw [hsame s' v' hs' halike]
    exact hread
  · obtain ⟨ds, hds⟩ : ∃ ds, (mapMessages [.raw message]).result = .ok ds := ⟨_, rfl⟩
    have hr : Says v (.readable ds (some [])) := by
      refine .result (.array rfl) hds fun t => ?_
      show some [] = some t ↔ Datum.text [] = .text t
      simp
    rw [← (hmeant _).mp hr] at hshows ⊢
    rw [hshows.status, if_neg]
    rintro ⟨-, hnone⟩
    cases hnone

end Report

end EditorLint
