import ContestGrading.Decimal.Basic
import ContestGrading.Text.Blank
/-!
# Reading numerals

A decimal numeral is digits with an optional point and exponent. It is read
three ways: as a whole text (`ofText`, which also takes a blank text as
zero and numerals in base 2, 8 and 16), as the longest numeral at the start
of a text (`leading`), and as the digits at the start (`leadingInteger`).
Blanks in front are skipped; only the first way also skips those behind.

Results:
* `ofText_of_blank`: a blank text denotes zero.
-/
namespace ContestGrading

namespace Decimal

/-- The digits at the start of a text, and what follows them. -/
def spanDigits (t : Text) : List Nat × Text :=
  let (ds, rest) := t.span Text.isDigit
  (ds.map fun u => u.toNat - 48, rest)

/-- An exponent at the start of a text, zero if there is none. -/
def readExponent (t : Text) : Int × Text :=
  match t with
  | [] => (0, [])
  | e :: after =>
    if e = 101 ∨ e = 69 then
      let (negative, unsigned) :=
        match after with
        | 43 :: rest => (false, rest)
        | 45 :: rest => (true, rest)
        | rest => (false, rest)
      match spanDigits unsigned with
      | ([], _) => (0, t)
      | (ds, rest) => (if negative then -(ofDigits ds : Int) else ofDigits ds, rest)
    else (0, t)

/-- The longest unsigned decimal numeral at the start of a text: digits
with an optional point among or beside them, then an optional exponent. -/
def readUnsigned? (negative : Bool) (t : Text) : Option (Decimal × Text) :=
  let (whole, afterWhole) := spanDigits t
  let (fraction, afterFraction) :=
    match afterWhole with
    | 46 :: rest => spanDigits rest
    | rest => ([], rest)
  if whole.isEmpty && fraction.isEmpty then none
  else
    let (exponent, rest) := readExponent afterFraction
    some (⟨negative, ofDigits (whole ++ fraction), exponent - fraction.length⟩, rest)

/-- A sign at the start of a text. -/
def readSign : Text → Bool × Text
  | 43 :: rest => (false, rest)
  | 45 :: rest => (true, rest)
  | t => (false, t)

end Decimal

namespace Binary64

open Decimal

def infinityText : Text := "Infinity"

/-- The longest number at the start of a text, and what follows it. -/
def readLeading? (t : Text) : Option (Binary64 × Text) :=
  let (negative, unsigned) := readSign t
  if infinityText.isPrefixOf unsigned then
    some (.infinite negative, unsigned.drop infinityText.length)
  else (readUnsigned? negative unsigned).map fun (d, rest) => (d.toBinary64, rest)

/-- The number at the start of a text, NaN if there is none. -/
def leading (t : Text) : Binary64 := ((readLeading? t.trimStart).map (·.1)).getD .nan

/-- The integer at the start of a text, NaN if there is none. -/
def leadingInteger (t : Text) : Binary64 :=
  let (negative, unsigned) := readSign t.trimStart
  match spanDigits unsigned with
  | ([], _) => .nan
  | (ds, _) => Decimal.toBinary64 ⟨negative, ofDigits ds, 0⟩

/-- Digits of a base up to 16, at least one and nothing else. -/
def readBase? (base : Nat) (t : Text) : Option Nat := do
  let ds ← t.mapM Text.hexValue?
  if ds.isEmpty || ds.any (base ≤ ·) then none
  else some (ds.foldl (fun n d => base * n + d) 0)

/-- The numeral of a base that `0x`, `0o` or `0b` announces. -/
def readPrefixed? : Text → Option Nat
  | 48 :: mark :: ds =>
    if mark = 120 ∨ mark = 88 then readBase? 16 ds
    else if mark = 111 ∨ mark = 79 then readBase? 8 ds
    else if mark = 98 ∨ mark = 66 then readBase? 2 ds
    else none
  | _ => none

/-- The number that a whole text denotes, NaN if it denotes none; a blank
text denotes zero. -/
def ofText (t : Text) : Binary64 :=
  match t.trim with
  | [] => zero
  | body =>
    match readPrefixed? body with
    | some n => ofNat n
    | none =>
      match readLeading? body with
      | some (x, []) => x
      | _ => .nan

theorem ofText_of_blank {t : Text} (h : ∀ u ∈ t, Text.isBlank u = true) : ofText t = zero := by
  have hd : t.trimStart = [] := by
    unfold Text.trimStart
    induction t with
    | nil => rfl
    | cons u us ih =>
      rw [List.dropWhile_cons_of_pos (h u (by simp)), ih fun v hv => h v (by simp [hv])]
  have : t.trim = [] := by rw [Text.trim, hd]; rfl
  rw [ofText, this]

end Binary64

end ContestGrading
