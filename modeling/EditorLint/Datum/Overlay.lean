import EditorLint.Datum.Basic

/-!
# Overlays

One mapping laid over another: mappings at the same key are overlaid in turn, and any
other value replaces what lies below it.  The keys of the lower mapping come first, in
their order, and the new ones after them.

Embedded: `_deep_merge`, as a function of values; which mappings it shares with its arguments
is not seen here.
-/

namespace EditorLint.Entries

mutual

/-- A value laid over what stands at its key. -/
def cover (below : Option Datum) : Datum → Datum
  | .mapping es =>
    match below.map Datum.opened with
    | some (.mapping old) => .mapping (overlay old es)
    | _ => .mapping es
  | d => d

/-- The entries of `over` laid over those of `base`. -/
def overlay (base : List (Datum × Datum)) : List (Datum × Datum) → List (Datum × Datum)
  | [] => base
  | (key, value) :: rest => overlay (insert key (cover (get? key base) value) base) rest

end

end EditorLint.Entries
