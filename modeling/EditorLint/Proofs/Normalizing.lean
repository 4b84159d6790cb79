import EditorLint.Proofs.FloatValues
import EditorLint.Proofs.Overlay
import EditorLint.Report.Read

/-!
# What becomes of messages

A message becomes a diagnostic, is passed over, or is dropped (`Becomes`), unless a place of it is a
number without an integer part (`Breaks`).

1. One message ends in one of these ways, and in no other (`mapMessage_ok_iff`,
   `mapMessage_error_iff`).
2. In a list, every message before the first one that breaks has its own end, and the first one
   that breaks ends the whole reading (`mapMessages_error_iff`, `mapMessages_eq`).
3. A report is lost exactly where its text has too many digits or too much nesting, or where one
   message breaks (`messages_lost_iff`); an infinite line is enough (`messages_lost_infinite`).
4. Where all numbers are finite nothing breaks, and each message is normalized on its own
   (`messages_normalized`).
-/

namespace EditorLint

namespace Logged

variable {α β : Type} {x : Logged α} {f : α → Logged β}

theorem bind_of_ok {a : α} (h : x.result = .ok a) :
    x >>= f = ⟨x.records ++ (f a).records, (f a).result⟩ := by
  show Logged.bind x f = _
  simp only [Logged.bind, h]

theorem bind_of_error {e : Failure} (h : x.result = .error e) :
    x >>= f = ⟨x.records, .error e⟩ := by
  show Logged.bind x f = _
  simp only [Logged.bind, h]

end Logged

/-- Two steps fail if the first one does, or the second one after it. -/
theorem bind_eq_error {ε α β : Type} {x : Except ε α} {g : α → Except ε β} {e : ε} :
    x >>= g = .error e ↔ x = .error e ∨ ∃ a, x = .ok a ∧ g a = .error e := by
  cases x with
  | ok a =>
    show g a = .error e ↔ _
    simp
  | error f =>
    show Except.error f = .error e ↔ _
    simp

namespace Report

/-! ## Numbers -/

/-- A value is a number with this exact value; the truth values are no numbers. -/
inductive Exact : Datum → ℚ → Prop where
  | int (n : ℤ) : Exact (.int n) n
  | float {x : Float} {r : ℚ} (value : FloatValue.value? x = some r) : Exact (.float x) r

/-- A value is a number without an exact value, and asking for its integer part fails. -/
inductive Boundless : Datum → Failure → Prop where
  | nan {x : Float} (nan : x.isNaN = true) : Boundless (.float x) .nanInteger
  | infinite {x : Float} (infinite : x.isInf = true) : Boundless (.float x) .infiniteInteger

def Numeric (d : Datum) : Prop := (∃ r, Exact d r) ∨ ∃ f, Boundless d f

def Whole (d : Datum) (n : ℤ) : Prop := ∃ r, Exact d r ∧ towardZero r = n

/-- An optional number without its fraction; what is no number counts as absent. -/
inductive Optional (d : Datum) : Option ℤ → Prop where
  | given {n : ℤ} (whole : Whole d n) : Optional d (some n)
  | absent (other : ¬Numeric d) : Optional d none

section Numbers

variable {d : Datum} {r : ℚ} {n : ℤ} {f : Failure}

theorem Exact.unique {s : ℚ} (hr : Exact d r) (hs : Exact d s) : r = s := by
  cases hr with
  | int n =>
    cases hs
    rfl
  | float value =>
    cases hs with
    | float value' => exact Option.some.inj (value.symm.trans value')

theorem Boundless.value? {x : Float} (h : Boundless (.float x) f) : FloatValue.value? x = none := by
  apply FloatValue.value?_eq_none.mpr
  apply FloatValue.isFinite_eq_false.mpr
  cases h with
  | nan nan => exact .inl nan
  | infinite infinite => exact .inr infinite

theorem numeric_float (x : Float) : Numeric (.float x) := by
  cases h : FloatValue.value? x with
  | some r => exact .inl ⟨r, .float h⟩
  | none =>
    rcases FloatValue.isFinite_eq_false.mp (FloatValue.value?_eq_none.mp h) with hnan | hinf
    · exact .inr ⟨_, .nan hnan⟩
    · exact .inr ⟨_, .infinite hinf⟩

theorem isNumber_iff : isNumber d = true ↔ Numeric d := by
  constructor
  · intro h
    cases d with
    | int n => exact .inl ⟨n, .int n⟩
    | float x => exact numeric_float x
    | _ => cases h
  · rintro (⟨r, h⟩ | ⟨f, h⟩) <;> cases h <;> rfl

theorem integerPart_of_exact (h : Exact d r) : integerPart d = .ok (towardZero r) := by
  cases h with
  | int n =>
    rw [towardZero_intCast]
    rfl
  | @float x r value =>
    rw [FloatValue.value?_eq] at value
    obtain ⟨b, hb, rfl⟩ := Option.map_eq_some_iff.mp value
    simp only [integerPart, hb, b.truncate_eq]

theorem integerPart_of_boundless (h : Boundless d f) : integerPart d = .error f := by
  have hnone {x : Float} (hx : Boundless (.float x) f) : Binary.ofFloat? x = none := by
    have hvalue := hx.value?
    rw [FloatValue.value?_eq] at hvalue
    exact Option.map_eq_none_iff.mp hvalue
  cases h with
  | nan nan => simp only [integerPart, hnone (.nan nan), nan, if_true]
  | infinite infinite =>
    have hnumber := FloatValue.isNaN_of_isInf infinite
    simp only [integerPart, hnone (.infinite infinite), hnumber, Bool.false_eq_true, if_false]

theorem integerPart_ok_iff (hd : Numeric d) : integerPart d = .ok n ↔ Whole d n := by
  constructor
  · intro h
    rcases hd with ⟨r, hr⟩ | ⟨f, hf⟩
    · exact ⟨r, hr, Except.ok.inj ((integerPart_of_exact hr).symm.trans h)⟩
    · cases (integerPart_of_boundless hf).symm.trans h
  · rintro ⟨r, hr, rfl⟩
    exact integerPart_of_exact hr

theorem integerPart_error_iff (hd : Numeric d) : integerPart d = .error f ↔ Boundless d f := by
  constructor
  · intro h
    rcases hd with ⟨r, hr⟩ | ⟨g, hg⟩
    · cases (integerPart_of_exact hr).symm.trans h
    · rwa [← Except.error.inj ((integerPart_of_boundless hg).symm.trans h)]
  · exact integerPart_of_boundless

theorem integerPart?_ok_iff {n? : Option ℤ} : integerPart? d = .ok n? ↔ Optional d n? := by
  unfold integerPart?
  split
  · next hd =>
    have hnumeric := isNumber_iff.mp hd
    constructor
    · intro h
      cases hpart : integerPart d with
      | error f =>
        rw [hpart] at h
        cases h
      | ok n =>
        rw [hpart] at h
        cases h
        exact .given ((integerPart_ok_iff hnumeric).mp hpart)
    · rintro (⟨whole⟩ | other)
      · rw [(integerPart_ok_iff hnumeric).mpr whole]
        rfl
      · exact absurd hnumeric other
  · next hd =>
    have hother := mt isNumber_iff.mpr hd
    constructor
    · intro h
      cases h
      exact .absent hother
    · rintro (⟨r, hr, -⟩ | -)
      · exact absurd (.inl ⟨r, hr⟩) hother
      · rfl

theorem integerPart?_error_iff : integerPart? d = .error f ↔ Boundless d f := by
  unfold integerPart?
  split
  · next hd =>
    rw [← integerPart_error_iff (isNumber_iff.mp hd)]
    cases integerPart d with
    | ok n => exact ⟨(nomatch ·), (nomatch ·)⟩
    | error g =>
      show Except.error g = Except.error f ↔ _
      simp only [Except.error.injEq]
  · next hd =>
    constructor
    · intro h
      cases h
    · intro h
      exact absurd (isNumber_iff.mpr (.inr ⟨f, h⟩)) hd

end Numbers

/-! ## Severities -/

/-- The severity that a value stands for. -/
inductive Grade (d : Datum) : Severity → Prop where
  | error (two : Exact d 2) : Grade d .error
  | warning (one : Exact d 1) : Grade d .warning
  | info (two : ¬Exact d 2) (one : ¬Exact d 1) : Grade d .info

theorem Grade.unique {d : Datum} {s t : Severity} (hs : Grade d s) (ht : Grade d t) : s = t := by
  have hapart : Exact d 2 → ¬Exact d 1 := fun h2 h1 => absurd (h2.unique h1) (by norm_num)
  cases hs with
  | error two =>
    cases ht with
    | error => rfl
    | warning one => exact absurd one (hapart two)
    | info two' => exact absurd two two'
  | warning one =>
    cases ht with
    | error two => exact absurd one (hapart two)
    | warning => rfl
    | info _ one' => exact absurd one one'
  | info two one =>
    cases ht with
    | error two' => exact absurd two' two
    | warning one' => exact absurd one' one
    | info => rfl

/-- A number is the same key as an integer if that is its value. -/
theorem sameKey_int_iff {d : Datum} {n : ℤ} :
    (isNumber d && d.sameKey (.int n)) = true ↔ Exact d n := by
  cases d with
  | int m =>
    show (m == n) = true ↔ _
    rw [beq_iff_eq]
    constructor
    · rintro rfl
      exact .int m
    · intro h
      exact Int.cast_injective ((Exact.int m).unique h)
  | float x =>
    have hkey : (isNumber (.float x) && (Datum.float x).sameKey (.int n)) =
        (Binary.ofFloat? x).any (·.isInt n) := by
      show Datum.sameKey (.float x) (.int n) = _
      simp only [Datum.sameKey, Datum.asInt?]
      cases Binary.ofFloat? x <;> rfl
    rw [hkey, Option.any_eq_true]
    constructor
    · rintro ⟨b, hb, hn⟩
      exact .float (by rw [FloatValue.value?_eq, hb, Option.map_some, (b.isInt_iff n).mp hn])
    · intro h
      cases h with
      | float value =>
        rw [FloatValue.value?_eq] at value
        obtain ⟨b, hb, hvalue⟩ := Option.map_eq_some_iff.mp value
        exact ⟨b, hb, (b.isInt_iff n).mpr hvalue⟩
  | _ =>
    constructor
    · intro h
      cases h
    · intro h
      cases h

theorem severity_iff {d : Datum} {s : Severity} : severity d = s ↔ Grade d s := by
  have htwo : (isNumber d && d.sameKey (.int 2)) = true ↔ Exact d 2 := sameKey_int_iff
  have hone : (isNumber d && d.sameKey (.int 1)) = true ↔ Exact d 1 := sameKey_int_iff
  have hgrade : Grade d (severity d) := by
    unfold severity
    split
    · next h2 => exact .error (htwo.mp h2)
    · next h2 =>
      split
      · next h1 => exact .warning (hone.mp h1)
      · next h1 => exact .info (mt htwo.mpr h2) (mt hone.mpr h1)
  constructor
  · rintro rfl
    exact hgrade
  · exact hgrade.unique

/-! ## Objects -/

/-- A message has a text, and numbers for its line and column. -/
structure Complete (es : Entries) : Prop where
  message : ∃ t, es.field "message" = .text t
  line : Numeric (es.field "line")
  column : Numeric (es.field "column")

/-- A message is the notice, of severity warning, that a file is ignored. -/
structure Ignored (es : Entries) : Prop where
  severity : Exact (es.field "severity") 1
  message : ∃ rest, es.field "message" = .text (ignoredNotice ++ rest)

/-- A diagnostic is what a message says. -/
structure Describes (es : Entries) (d : Diagnostic) : Prop where
  message : es.field "message" = .text d.message
  line : Whole (es.field "line") d.line
  column : Whole (es.field "column") d.column
  severity : Grade (es.field "severity") d.severity
  endLine : Optional (es.field "endLine") d.endLine
  endColumn : Optional (es.field "endColumn") d.endColumn
  code : ∀ t, d.code = some t ↔ es.field "ruleId" = .text t

/-- Of some numbers the first one without an exact value. -/
inductive FirstBoundless : List Datum → Failure → Prop where
  | here {d : Datum} {ds : List Datum} {f : Failure} (boundless : Boundless d f) :
    FirstBoundless (d :: ds) f
  | later {d : Datum} {ds : List Datum} {f : Failure} (bounded : ∀ g, ¬Boundless d g)
    (rest : FirstBoundless ds f) : FirstBoundless (d :: ds) f

/-- The places of a message, in the order in which they are looked at. -/
def places (es : Entries) : List Datum :=
  [es.field "line", es.field "column", es.field "endLine", es.field "endColumn"]

/-- What becomes of an element of a list of messages. -/
inductive Becomes : Message → Mapped → Prop where
  | normalized (d : Diagnostic) : Becomes (.normalized d) (.kept d)
  | kept {es : Entries} {d : Diagnostic} (heard : ¬Ignored es) (describes : Describes es d) :
    Becomes (.raw (.mapping es)) (.kept d)
  | suppressed {es : Entries} (complete : Complete es) (ignored : Ignored es) :
    Becomes (.raw (.mapping es)) .suppressed
  | incomplete {es : Entries} (incomplete : ¬Complete es) :
    Becomes (.raw (.mapping es)) (.dropped .incomplete (.mapping es))
  | notObject {d : Datum} (other : ∀ es, d ≠ .mapping es) :
    Becomes (.raw d) (.dropped .notObject (.text d.literal))

/-- A message that would become a diagnostic but for one of its places. -/
inductive Breaks : Message → Failure → Prop where
  | boundless {es : Entries} {f : Failure} (complete : Complete es) (heard : ¬Ignored es)
    (first : FirstBoundless (places es) f) : Breaks (.raw (.mapping es)) f

section Objects

variable {es : Entries} {d : Diagnostic} {f : Failure}

theorem mapObject_of_incomplete (h : ¬Complete es) :
    mapObject es = .ok (.dropped .incomplete (.mapping es)) := by
  unfold mapObject
  split
  · next t ht =>
    apply if_pos
    by_contra hnumbers
    simp only [Bool.or_eq_true, Bool.not_eq_true', not_or, Bool.not_eq_false] at hnumbers
    exact h ⟨⟨t, ht⟩, isNumber_iff.mp hnumbers.1, isNumber_iff.mp hnumbers.2⟩
  · rfl

theorem ignored_iff {t : Text} (ht : es.field "message" = .text t) :
    severity (es.field "severity") = .warning ∧ ignoredNotice.isPrefixOf t = true ↔ Ignored es := by
  rw [severity_iff, List.isPrefixOf_iff_prefix]
  constructor
  · rintro ⟨hwarning, rest, rfl⟩
    cases hwarning with
    | warning one => exact ⟨one, rest, ht⟩
  · rintro ⟨one, rest, hrest⟩
    exact ⟨.warning one, rest, Datum.text.inj (hrest.symm.trans ht)⟩

theorem mapObject_of_complete {t : Text} (h : Complete es) (ht : es.field "message" = .text t) :
    mapObject es =
      if severity (es.field "severity") = .warning ∧ ignoredNotice.isPrefixOf t = true then
        .ok .suppressed
      else do
        let line ← integerPart (es.field "line")
        let column ← integerPart (es.field "column")
        let endLine ← integerPart? (es.field "endLine")
        let endColumn ← integerPart? (es.field "endColumn")
        return .kept ⟨t, line, column, severity (es.field "severity"), endLine, endColumn,
          (es.field "ruleId").text?⟩ := by
  unfold mapObject
  simp only [ht, isNumber_iff.mpr h.line, isNumber_iff.mpr h.column, Bool.not_true, Bool.or_self,
    Bool.false_eq_true, if_false]

/-- What is no more ignored is a diagnostic as long as its places have integer parts. -/
theorem mapObject_of_heard {t : Text} (h : Complete es) (heard : ¬Ignored es)
    (ht : es.field "message" = .text t) :
    mapObject es = do
      let line ← integerPart (es.field "line")
      let column ← integerPart (es.field "column")
      let endLine ← integerPart? (es.field "endLine")
      let endColumn ← integerPart? (es.field "endColumn")
      return .kept ⟨t, line, column, severity (es.field "severity"), endLine, endColumn,
        (es.field "ruleId").text?⟩ := by
  rw [mapObject_of_complete h ht, if_neg (mt (ignored_iff ht).mp heard)]

theorem text?_eq_some_iff {v : Datum} {t : Text} : v.text? = some t ↔ v = .text t := by
  cases v <;> simp [Datum.text?]

theorem mapObject_heard_ok_iff (h : Complete es) (heard : ¬Ignored es) {x : Mapped} :
    mapObject es = .ok x ↔ ∃ d, x = .kept d ∧ Describes es d := by
  obtain ⟨t, ht⟩ := h.message
  rw [mapObject_of_heard h heard ht]
  constructor
  · intro hx
    obtain ⟨line, hline, hx⟩ := bind_eq_ok.mp hx
    obtain ⟨column, hcolumn, hx⟩ := bind_eq_ok.mp hx
    obtain ⟨endLine, hendLine, hx⟩ := bind_eq_ok.mp hx
    obtain ⟨endColumn, hendColumn, hx⟩ := bind_eq_ok.mp hx
    refine ⟨_, (Except.ok.inj hx).symm, ?_⟩
    exact ⟨ht, (integerPart_ok_iff h.line).mp hline, (integerPart_ok_iff h.column).mp hcolumn,
      severity_iff.mp rfl, integerPart?_ok_iff.mp hendLine, integerPart?_ok_iff.mp hendColumn,
      fun _ => text?_eq_some_iff⟩
  · rintro ⟨⟨message, line, column, grade, endLine, endColumn, code⟩, rfl, hd⟩
    obtain rfl : t = message := Datum.text.inj (ht.symm.trans hd.message)
    obtain rfl : severity (es.field "severity") = grade := severity_iff.mpr hd.severity
    obtain rfl : (es.field "ruleId").text? = code := by
      apply Option.ext
      intro t
      exact text?_eq_some_iff.trans (hd.code t).symm
    rw [(integerPart_ok_iff h.line).mpr hd.line, (integerPart_ok_iff h.column).mpr hd.column,
      integerPart?_ok_iff.mpr hd.endLine, integerPart?_ok_iff.mpr hd.endColumn]
    rfl

theorem firstBoundless_cons_iff {v : Datum} {vs : List Datum} :
    FirstBoundless (v :: vs) f ↔
      Boundless v f ∨ (∀ g, ¬Boundless v g) ∧ FirstBoundless vs f := by
  constructor
  · intro h
    cases h with
    | here boundless => exact .inl boundless
    | later bounded rest => exact .inr ⟨bounded, rest⟩
  · rintro (boundless | ⟨bounded, rest⟩)
    · exact .here boundless
    · exact .later bounded rest

theorem exists_ok_iff {ε α : Type} {x : Except ε α} : (∃ a, x = .ok a) ↔ ∀ e, x ≠ .error e := by
  cases x <;> simp

theorem mapObject_heard_error_iff (h : Complete es) (heard : ¬Ignored es) :
    mapObject es = .error f ↔ FirstBoundless (places es) f := by
  obtain ⟨t, ht⟩ := h.message
  have hreturn (x : Mapped) : ¬(pure x : Except Failure Mapped) = .error f := (nomatch ·)
  have hnil : ¬FirstBoundless [] f := (nomatch ·)
  rw [mapObject_of_heard h heard ht]
  -- The places are looked at one after the other, and each one has to have an integer part.
  simp only [bind_eq_error, hreturn, exists_and_right, exists_ok_iff, ne_eq, and_false,
    exists_const, integerPart_error_iff h.line, integerPart_error_iff h.column,
    integerPart?_error_iff, places, firstBoundless_cons_iff, hnil]

end Objects

/-! ## Messages -/

theorem Describes.complete {es : Entries} {d : Diagnostic} (h : Describes es d) : Complete es := by
  obtain ⟨line, hline, -⟩ := h.line
  obtain ⟨column, hcolumn, -⟩ := h.column
  exact ⟨⟨d.message, h.message⟩, .inl ⟨line, hline⟩, .inl ⟨column, hcolumn⟩⟩

section Messages

variable {m : Message} {x : Mapped} {f : Failure}

theorem mapMessage_of_becomes (h : Becomes m x) : mapMessage m = .ok x := by
  cases h with
  | normalized d => rfl
  | kept heard describes =>
    exact (mapObject_heard_ok_iff describes.complete heard).mpr ⟨_, rfl, describes⟩
  | suppressed complete ignored =>
    obtain ⟨t, ht⟩ := complete.message
    show mapObject _ = _
    rw [mapObject_of_complete complete ht, if_pos ((ignored_iff ht).mpr ignored)]
  | incomplete incomplete => exact mapObject_of_incomplete incomplete
  | @notObject d other =>
    cases d with
    | mapping es => exact absurd rfl (other es)
    | _ => rfl

theorem mapMessage_of_breaks (h : Breaks m f) : mapMessage m = .error f := by
  cases h with
  | boundless complete heard first => exact (mapObject_heard_error_iff complete heard).mpr first

theorem becomes_or_breaks (m : Message) : (∃ x, Becomes m x) ∨ ∃ f, Breaks m f := by
  cases m with
  | normalized d => exact .inl ⟨_, .normalized d⟩
  | raw d =>
    by_cases hobject : ∃ es, d = .mapping es
    · obtain ⟨es, rfl⟩ := hobject
      by_cases complete : Complete es
      · by_cases ignored : Ignored es
        · exact .inl ⟨_, .suppressed complete ignored⟩
        · cases h : mapObject es with
          | ok x =>
            obtain ⟨d, -, describes⟩ := (mapObject_heard_ok_iff complete ignored).mp h
            exact .inl ⟨_, .kept ignored describes⟩
          | error f =>
            have first := (mapObject_heard_error_iff complete ignored).mp h
            exact .inr ⟨f, .boundless complete ignored first⟩
      · exact .inl ⟨_, .incomplete complete⟩
    · exact .inl ⟨_, .notObject fun es hes => hobject ⟨es, hes⟩⟩

theorem mapMessage_ok_iff : mapMessage m = .ok x ↔ Becomes m x := by
  constructor
  · intro h
    rcases becomes_or_breaks m with ⟨y, hy⟩ | ⟨f, hf⟩
    · rwa [← Except.ok.inj ((mapMessage_of_becomes hy).symm.trans h)]
    · cases (mapMessage_of_breaks hf).symm.trans h
  · exact mapMessage_of_becomes

theorem mapMessage_error_iff : mapMessage m = .error f ↔ Breaks m f := by
  constructor
  · intro h
    rcases becomes_or_breaks m with ⟨y, hy⟩ | ⟨g, hg⟩
    · cases (mapMessage_of_becomes hy).symm.trans h
    · rwa [← Except.error.inj ((mapMessage_of_breaks hg).symm.trans h)]
  · exact mapMessage_of_breaks

theorem Becomes.unique {y : Mapped} (hx : Becomes m x) (hy : Becomes m y) : x = y :=
  Except.ok.inj ((mapMessage_of_becomes hx).symm.trans (mapMessage_of_becomes hy))

theorem Becomes.not_breaks (hx : Becomes m x) : ¬Breaks m f := by
  intro hf
  cases (mapMessage_of_becomes hx).symm.trans (mapMessage_of_breaks hf)

end Messages

/-- A message that does not break is kept if it is a diagnostic, or complete and to be heard. -/
theorem becomes_kept_iff {m : Message} (h : ∀ f, ¬Breaks m f) :
    (∃ d, Becomes m (.kept d)) ↔ (∃ d, m = .normalized d) ∨
      ∃ es, m = .raw (.mapping es) ∧ Complete es ∧ ¬Ignored es := by
  constructor
  · rintro ⟨d, hd⟩
    cases hd with
    | normalized => exact .inl ⟨d, rfl⟩
    | @kept es _ heard describes => exact .inr ⟨es, rfl, describes.complete, heard⟩
  · rintro (⟨d, rfl⟩ | ⟨es, rfl, complete, heard⟩)
    · exact ⟨d, .normalized d⟩
    · rcases becomes_or_breaks (.raw (.mapping es)) with ⟨x, hx⟩ | ⟨f, hf⟩
      · cases hx with
        | @kept _ d _ describes => exact ⟨d, .kept heard describes⟩
        | suppressed _ ignored => exact absurd ignored heard
        | incomplete incomplete => exact absurd complete incomplete
        | notObject other => exact absurd rfl (other es)
      · exact absurd hf (h f)

/-! ## Lists of messages -/

def Mapped.diagnostic? : Mapped → Option Diagnostic
  | .kept d => some d
  | .suppressed | .dropped _ _ => none

def Mapped.warning? : Mapped → Option Log.Record
  | .dropped why raw => some (droppedRecord why raw)
  | .kept _ | .suppressed => none

def Broken (ms : List Message) (f : Failure) : Prop :=
  ∃ before m after, ms = before ++ m :: after ∧ (∀ n ∈ before, ∀ g, ¬Breaks n g) ∧ Breaks m f

section Lists

variable {m : Message} {x : Mapped} {f : Failure} {ms : List Message} {ends : List Mapped}

theorem mapMessages_of_becomes (h : Becomes m x) (rest : List Message) :
    mapMessages (m :: rest) = ⟨x.warning?.toList ++ (mapMessages rest).records,
      (mapMessages rest).result.map (x.diagnostic?.toList ++ ·)⟩ := by
  rw [mapMessages, mapMessage_of_becomes h, Logged.bind_of_ok rfl]
  cases x with
  | kept d =>
    cases hrest : (mapMessages rest).result with
    | ok ds =>
      simp only [Logged.bind_of_ok hrest]
      simp [Logged.ofExcept, Mapped.warning?, Mapped.diagnostic?, Except.map, pure]
    | error f =>
      simp only [Logged.bind_of_error hrest]
      simp [Logged.ofExcept, Mapped.warning?, Except.map]
  | suppressed =>
    cases (mapMessages rest) with | mk records result =>
    cases result <;> simp [Logged.ofExcept, Mapped.warning?, Mapped.diagnostic?, Except.map]
  | dropped why raw =>
    have htell : (Logged.tell (droppedRecord why raw)).result = .ok () := rfl
    simp only [Logged.bind_of_ok htell]
    cases (mapMessages rest) with | mk records result =>
    cases result <;>
      simp [Logged.ofExcept, Logged.tell, Mapped.warning?, Mapped.diagnostic?, Except.map]

theorem mapMessages_of_breaks (h : Breaks m f) (rest : List Message) :
    mapMessages (m :: rest) = ⟨[], .error f⟩ := by
  rw [mapMessages, mapMessage_of_breaks h, Logged.bind_of_error rfl]
  rfl

/-- What becomes of the messages gives the diagnostics and the warnings, in order. -/
theorem mapMessages_eq (h : List.Forall₂ Becomes ms ends) : mapMessages ms =
    ⟨ends.filterMap Mapped.warning?, .ok (ends.filterMap Mapped.diagnostic?)⟩ := by
  induction h with
  | nil => rfl
  | @cons m x ms ends hm _ ih =>
    rw [mapMessages_of_becomes hm, ih]
    cases x <;> simp [List.filterMap_cons, Mapped.warning?, Mapped.diagnostic?, Except.map]

theorem exists_ends (h : ∀ m ∈ ms, ∀ g, ¬Breaks m g) : ∃ ends, List.Forall₂ Becomes ms ends := by
  induction ms with
  | nil => exact ⟨[], .nil⟩
  | cons m ms ih =>
    obtain ⟨hm, hms⟩ := List.forall_mem_cons.mp h
    obtain ⟨ends, hends⟩ := ih hms
    rcases becomes_or_breaks m with ⟨x, hx⟩ | ⟨f, hf⟩
    · exact ⟨x :: ends, .cons hx hends⟩
    · exact absurd hf (hm f)

/-- Something becomes of all messages, or there is a first one that breaks. -/
theorem becomes_or_broken (ms : List Message) :
    (∃ ends, List.Forall₂ Becomes ms ends) ∨ ∃ f, Broken ms f := by
  induction ms with
  | nil => exact .inl ⟨[], .nil⟩
  | cons m ms ih =>
    rcases becomes_or_breaks m with ⟨x, hx⟩ | ⟨f, hf⟩
    · rcases ih with ⟨ends, hends⟩ | ⟨f, before, n, after, rfl, hbefore, hn⟩
      · exact .inl ⟨x :: ends, .cons hx hends⟩
      · have hfirst : ∀ k ∈ m :: before, ∀ g, ¬Breaks k g :=
          List.forall_mem_cons.mpr ⟨fun g => hx.not_breaks, hbefore⟩
        exact .inr ⟨f, m :: before, n, after, rfl, hfirst, hn⟩
    · exact .inr ⟨f, [], m, ms, rfl, fun n hn => absurd hn List.not_mem_nil, hf⟩

theorem mapMessages_of_broken (h : Broken ms f) : (mapMessages ms).result = .error f := by
  obtain ⟨before, m, after, rfl, hbefore, hm⟩ := h
  obtain ⟨ends, hends⟩ := exists_ends hbefore
  clear hbefore
  -- On the messages before: each one adds to what comes after it, and keeps a failure as it is.
  induction hends with
  | nil => rw [List.nil_append, mapMessages_of_breaks hm]
  | cons hx _ ih =>
    rw [List.cons_append, mapMessages_of_becomes hx, ih]
    rfl

theorem mapMessages_error_iff : (mapMessages ms).result = .error f ↔ Broken ms f := by
  constructor
  · intro h
    rcases becomes_or_broken ms with ⟨ends, hends⟩ | ⟨g, hg⟩
    · rw [mapMessages_eq hends] at h
      cases h
    · rwa [← Except.error.inj ((mapMessages_of_broken hg).symm.trans h)]
  · exact mapMessages_of_broken

theorem ends_unique (h : List.Forall₂ Becomes ms ends) (other : List Mapped) :
    List.Forall₂ Becomes ms other ↔ other = ends := by
  constructor
  · intro hother
    induction h generalizing other with
    | nil =>
      cases hother
      rfl
    | cons hx _ ih =>
      cases hother with
      | cons hy hys => rw [hx.unique hy, ih _ hys]
  · rintro rfl
    exact h

theorem becomes_normalized (ds : List Diagnostic) :
    List.Forall₂ Becomes (ds.map .normalized) (ds.map .kept) := by
  induction ds with
  | nil => exact .nil
  | cons d ds ih => exact .cons (.normalized d) ih

theorem mapMessages_normalized (ds : List Diagnostic) :
    mapMessages (ds.map .normalized) = ⟨[], .ok ds⟩ := by
  rw [mapMessages_eq (becomes_normalized ds)]
  simp [List.filterMap_map, Function.comp_def, Mapped.warning?, Mapped.diagnostic?]

end Lists

/-! ## Reports -/

/-- A report that is not read: its text has an integer with too many digits or is nested too
deeply, or a message in it breaks. -/
inductive Lost (s : List Char) : Failure → Prop where
  | digits {count : Nat} (read : Json.read s = .error (.digits count)) :
    Lost s (.tooManyDigits count)
  | depth {object : Bool} (read : Json.read s = .error (.depth object)) :
    Lost s (.nestedTooDeep object)
  | message {es : Entries} {rest items : List Datum} {f : Failure}
    (read : Json.read s = .ok (.list (.mapping es :: rest)))
    (messages : es.field "messages" = .list items) (broken : Broken (items.map .raw) f) : Lost s f

theorem read_of_messages {s : List Char} {es : Entries} {rest items : List Datum}
    (h : Json.read s = .ok (.list (.mapping es :: rest)))
    (hitems : es.field "messages" = .list items) :
    read s = do return .readable (← mapMessages (items.map .raw)) (es.field "output").text? := by
  simp only [read, h, ofDatum, ofResult, hitems]

theorem ofDatum_error {d : Datum} {f : Failure} (h : (ofDatum d).result = .error f) :
    ∃ (es : Entries) (rest items : List Datum), d = .list (.mapping es :: rest) ∧
      es.field "messages" = .list items ∧ (mapMessages (items.map .raw)).result = .error f := by
  cases d with
  | list ds =>
    cases ds with
    | nil => cases h
    | cons first rest =>
      cases first with
      | mapping es =>
        simp only [ofDatum, ofResult] at h
        split at h
        · next items hitems =>
          refine ⟨es, rest, items, rfl, hitems, ?_⟩
          cases hmessages : (mapMessages (items.map .raw)).result with
          | ok ds =>
            rw [Logged.bind_of_ok hmessages] at h
            cases h
          | error g =>
            rw [Logged.bind_of_error hmessages] at h
            exact congrArg Except.error (Except.error.inj h)
        · split at h <;> cases h
      | _ => cases h
  | _ => cases h

theorem read_error_iff {s : List Char} {f : Failure} :
    (read s).result = .error f ↔ Lost s f := by
  constructor
  · intro hf
    cases h : Json.read s with
    | error e =>
      cases e with
      | malformed problem left => simp [read, h, pure] at hf
      | digits count =>
        simp only [read, h] at hf
        cases hf
        exact .digits h
      | depth object =>
        simp only [read, h] at hf
        cases hf
        exact .depth h
    | ok d =>
      simp only [read, h] at hf
      obtain ⟨es, rest, items, rfl, hitems, hfailed⟩ := ofDatum_error hf
      exact .message h hitems (mapMessages_error_iff.mp hfailed)
  · rintro (h | h | ⟨h, hitems, broken⟩)
    · simp only [read, h]
      rfl
    · simp only [read, h]
      rfl
    · rw [read_of_messages h hitems, Logged.bind_of_error (mapMessages_of_broken broken)]

/-- A list of messages is read as far as something becomes of each message: each one gives its
diagnostic or its warning, whatever the others are, and a report proposes its output besides.  The
first message that breaks loses them all, and so does the text of a report that has too many digits
or too much nesting; nothing else does. -/
theorem messages_lost_iff (ms : List Message) (s : List Char) :
    (∀ f, (mapMessages ms).result = .error f ↔ Broken ms f) ∧
    ((¬∃ f, Broken ms f) → ∃ ends, List.Forall₂ Becomes ms ends ∧
      (mapMessages ms).result = .ok (ends.filterMap Mapped.diagnostic?)) ∧
    (∀ f, (read s).result = .error f ↔ Lost s f) ∧
    ∀ (es : Entries) (rest items : List Datum), Json.read s = .ok (.list (.mapping es :: rest)) →
      es.field "messages" = .list items → (¬∃ f, Lost s f) →
      ∃ ends, List.Forall₂ Becomes (items.map .raw) ends ∧ (read s).result =
        .ok (.readable (ends.filterMap Mapped.diagnostic?) (es.field "output").text?) := by
  refine ⟨fun f => mapMessages_error_iff, ?_, fun f => read_error_iff, ?_⟩
  · intro hwhole
    rcases becomes_or_broken ms with ⟨ends, hends⟩ | hbroken
    · exact ⟨ends, hends, by rw [mapMessages_eq hends]⟩
    · exact absurd hbroken hwhole
  · intro es rest items h hitems hwhole
    rcases becomes_or_broken (items.map .raw) with ⟨ends, hends⟩ | ⟨f, hbroken⟩
    · refine ⟨ends, hends, ?_⟩
      rw [read_of_messages h hitems, mapMessages_eq hends]
      rfl
    · exact absurd ⟨f, .message h hitems hbroken⟩ hwhole

/-- One infinite line is enough to lose a good message and the proposed text. -/
theorem messages_lost_infinite :
    let s := ("[\x7b\"messages\":[\x7b\"message\":\"a\",\"line\":1,\"column\":1\x7d," ++
      "\x7b\"message\":\"b\",\"line\":1e999,\"column\":1\x7d],\"output\":\"x\"\x7d]").toList
    ¬∃ report, (read s).result = .ok report := by
  intro s
  have hlost : (read s).result.toOption.isNone = true := by decide +kernel
  rintro ⟨report, h⟩
  rw [h] at hlost
  cases hlost

/-! ## Finite numbers -/

def Message.Finite : Message → Prop
  | .raw (.mapping es) => ∀ e ∈ es, ∀ x, e.2 = .float x → x.isFinite = true
  | .raw _ | .normalized _ => True

theorem FirstBoundless.of_mem {ds : List Datum} {f : Failure} (h : FirstBoundless ds f) :
    ∃ d ∈ ds, Boundless d f := by
  induction h with
  | here boundless => exact ⟨_, List.mem_cons_self, boundless⟩
  | later _ _ ih =>
    obtain ⟨d, hd, boundless⟩ := ih
    exact ⟨d, List.mem_cons_of_mem _ hd, boundless⟩

/-- A boundless value at a place of a message stands in the message. -/
theorem boundless_field {es : Entries} {name : String} {f : Failure}
    (h : Boundless (es.field name) f) : ∃ e ∈ es, Boundless e.2 f := by
  unfold Entries.field at h
  cases hget : Entries.get? (.string name) es with
  | none =>
    rw [hget] at h
    cases h
  | some d =>
    rw [hget] at h
    obtain ⟨e, he, rfl⟩ := Entries.mem_of_get? hget
    exact ⟨e, he, h⟩

theorem Message.Finite.not_breaks {m : Message} {f : Failure} (h : m.Finite) : ¬Breaks m f := by
  intro hbreaks
  cases hbreaks with
  | @boundless es f complete heard first =>
    obtain ⟨d, hd, boundless⟩ := first.of_mem
    have hplace : ∃ name, d = es.field name := by
      simp only [places, List.mem_cons, List.not_mem_nil, or_false] at hd
      rcases hd with rfl | rfl | rfl | rfl <;> exact ⟨_, rfl⟩
    obtain ⟨name, rfl⟩ := hplace
    obtain ⟨⟨key, v⟩, he, hv⟩ := boundless_field boundless
    -- Only a float is boundless, and the floats of the message are finite.
    cases v with
    | float x =>
      have hinfinite := FloatValue.value?_eq_none.mp hv.value?
      rw [h _ he x rfl] at hinfinite
      cases hinfinite
    | _ => cases hv

/-- Elements with finite numbers end in exactly one way each.  An object is kept if it has a text
and numbers for its line and column and is not the notice of an ignored file, and so is a
diagnostic.  Those that are kept give the diagnostics and those that are malformed a warning each,
in the order of the elements.  Two lists one after the other give the diagnostics of both, and
diagnostics stay as they are. -/
theorem messages_normalized (ms : List Message) (finite : ∀ m ∈ ms, m.Finite) :
    (∀ m ∈ ms, (∃ d, Becomes m (.kept d)) ↔ (∃ d, m = .normalized d) ∨
      ∃ es, m = .raw (.mapping es) ∧ Complete es ∧ ¬Ignored es) ∧
    ∃ ends, (∀ other, List.Forall₂ Becomes ms other ↔ other = ends) ∧
      (mapMessages ms).result = .ok (ends.filterMap Mapped.diagnostic?) ∧
      (mapMessages ms).records = ends.filterMap Mapped.warning? ∧
      (∀ ns, (∀ n ∈ ns, n.Finite) → ∃ ds, (mapMessages ns).result = .ok ds ∧
        mapMessages (ms ++ ns) = ⟨(mapMessages ms).records ++ (mapMessages ns).records,
          .ok (ends.filterMap Mapped.diagnostic? ++ ds)⟩) ∧
      mapMessages ((ends.filterMap Mapped.diagnostic?).map .normalized) =
        ⟨[], .ok (ends.filterMap Mapped.diagnostic?)⟩ := by
  have hends {ns : List Message} (h : ∀ n ∈ ns, n.Finite) : ∃ ends, List.Forall₂ Becomes ns ends :=
    exists_ends fun n hn g => (h n hn).not_breaks
  refine ⟨fun m hm => becomes_kept_iff fun f => (finite m hm).not_breaks, ?_⟩
  obtain ⟨ends, h⟩ := hends finite
  refine ⟨ends, ends_unique h, ?_, ?_, ?_, mapMessages_normalized _⟩
  · rw [mapMessages_eq h]
  · rw [mapMessages_eq h]
  · intro ns hns
    obtain ⟨ends', h'⟩ := hends hns
    refine ⟨ends'.filterMap Mapped.diagnostic?, ?_, ?_⟩
    · rw [mapMessages_eq h']
    · rw [mapMessages_eq (List.rel_append h h'), mapMessages_eq h, mapMessages_eq h',
        List.filterMap_append, List.filterMap_append]

/-- A diagnostic, an error at a line with a fraction, a truth value, and a notice. -/
theorem messages_normalized_mixed :
    let d : Diagnostic := ⟨"a", 1, 1, .info, none, none, none⟩
    let ms : List Message := [.normalized d,
      .raw (.mapping [(.string "message", .string "b"), (.string "line", .float 2.5),
        (.string "column", .int 3), (.string "severity", .float 2), (.string "endLine", .bool true),
        (.string "ruleId", .string "r")]),
      .raw (.bool true),
      .raw (.mapping [(.string "message", .string "File ignored."), (.string "line", .int 0),
        (.string "column", .int 0), (.string "severity", .int 1)])]
    (∀ m ∈ ms, m.Finite) ∧ ∃ ends, List.Forall₂ Becomes ms ends ∧
      ends.filterMap Mapped.diagnostic? = [d, ⟨"b", 2, 3, .error, none, none, some "r"⟩] ∧
      (ends.filterMap Mapped.warning?).length = 1 := by
  intro d ms
  have hfinite : ∀ m ∈ ms, m.Finite := by
    have hline : (2.5 : Float).isFinite = true := by decide +kernel
    have hseverity : (2 : Float).isFinite = true := by decide +kernel
    simp [ms, Message.Finite, Datum.string, List.forall_mem_cons, -List.mem_cons, -Prod.forall,
      hline, hseverity]
  obtain ⟨-, ends, hunique, hresult, hrecords, -⟩ := messages_normalized ms hfinite
  have hread :
      (mapMessages ms).result.toOption = some [d, ⟨"b", 2, 3, .error, none, none, some "r"⟩] ∧
      (mapMessages ms).records.length = 1 := by
    decide +kernel
  rw [hresult, hrecords] at hread
  exact ⟨hfinite, ends, (hunique ends).mpr rfl, Option.some.inj hread.1, hread.2⟩

end Report

end EditorLint
