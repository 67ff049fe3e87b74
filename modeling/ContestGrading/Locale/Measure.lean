import ContestGrading.Locale.Basic
import ContestGrading.Template.Fill
/-!
# Durations and sizes

A duration is shown in seconds with three decimals. A size is shown in the
first unit, from bytes to tebibytes, in which the number shown stays below
the unit's limit: 1024 for bytes, which stay as they are, and 1000 for the
larger units, which keep three significant digits.

Results:
* `settle_limit`: the number shown stays below the limit of its unit, unless
  the unit is the largest.
-/
namespace ContestGrading

/-- A duration in seconds, in the language of the translation. -/
def durationText (tr : Translation) (seconds : Binary64) : Except TemplateError Text :=
  Template.format (tr.gettext "%.3f s") [.number seconds]

namespace Size

/-- A unit of sizes: `1024` to the power of its index. -/
inductive Unit where
  | byte
  | kibibyte
  | mebibyte
  | gibibyte
  | tebibyte
  deriving DecidableEq

namespace Unit

def symbol : Unit → Text
  | .byte => "B"
  | .kibibyte => "KiB"
  | .mebibyte => "MiB"
  | .gibibyte => "GiB"
  | .tebibyte => "TiB"

/-- From this number on the next unit is taken. -/
def limit : Unit → Binary64
  | .byte => .ofNat 1024
  | _ => .ofNat 1000

/-- The next larger unit. -/
def next? : Unit → Option Unit
  | .byte => some .kibibyte
  | .kibibyte => some .mebibyte
  | .mebibyte => some .gibibyte
  | .gibibyte => some .tebibyte
  | .tebibyte => none

/-- How many larger units there are. -/
def above : Unit → Nat
  | .byte => 4
  | .kibibyte => 3
  | .mebibyte => 2
  | .gibibyte => 1
  | .tebibyte => 0

theorem above_next {u v : Unit} (h : u.next? = some v) : v.above < u.above := by
  cases u <;> simp [next?] at h <;> subst h <;> decide

end Unit

/-- The number shown for a value in a unit. -/
def shown (unit : Unit) (value : Binary64) : Binary64 :=
  if unit = .byte then value
  else if value.isFinite then (value.toSignificant 3).toBinary64
  else value

/-- The unit in which a value in `unit` is shown, and the number shown. -/
def settle (unit : Unit) (value : Binary64) : Unit × Binary64 :=
  match _h : unit.next? with
  | none => (unit, shown unit value)
  | some larger =>
    if unit.limit ≤ shown unit value then settle larger (value / .ofNat 1024)
    else (unit, shown unit value)
termination_by unit.above
decreasing_by exact Unit.above_next _h

/-- A number of bytes as its unit and the number shown. -/
def ofBytes (bytes : Binary64) : Unit × Binary64 := settle .byte bytes

theorem settle_limit (unit : Unit) (value : Binary64) :
    (settle unit value).1 = .tebibyte ∨
      ¬ (settle unit value).1.limit ≤ (settle unit value).2 := by
  induction h : unit.above using Nat.strongRecOn generalizing unit value with
  | ind n ih =>
    rw [settle]
    split
    next hn => left; cases unit <;> simp [Unit.next?] at hn ⊢
    next larger hn =>
      split
      next => exact ih larger.above (h ▸ Unit.above_next hn) larger _ rfl
      next hl => exact .inr hl

end Size

/-- A size in bytes, in the language of the translation. -/
def sizeText (tr : Translation) (bytes : Binary64) : Except TemplateError Text :=
  let (unit, number) := Size.ofBytes bytes
  Template.format (tr.gettext (("%s " : Text) ++ unit.symbol)) [.number number]

end ContestGrading
