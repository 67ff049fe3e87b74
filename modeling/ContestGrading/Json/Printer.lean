import ContestGrading.Json.Basic
import ContestGrading.Decimal.Notation
/-!
# Writing JSON

`print` writes a value on one line, or over lines indented by a number of
spaces per level. Numbers take the plain notation; NaN and the infinities
become `null`, and both zeros `0`. In a string only the quote, the
backslash, control characters and lone surrogates are escaped.

Results:
* `quote_nil`: the empty string.
* `printNumber_nan`: a number that JSON lacks is `null`.
-/
namespace ContestGrading.Json

/-- `\u` and four hexadecimal digits. -/
def hexEscape (u : UInt16) : Text :=
  let digit (n : Nat) : UInt16 := UInt16.ofNat (if n < 10 then 48 + n else 87 + n)
  let n := u.toNat
  [92, 117, digit (n / 4096), digit (n / 256 % 16), digit (n / 16 % 16), digit (n % 16)]

/-- A unit of a string that is not half of a surrogate pair. -/
def quoteUnit (u : UInt16) : Text :=
  if u = 34 then [92, 34]
  else if u = 92 then [92, 92]
  else if u = 8 then [92, 98]
  else if u = 12 then [92, 102]
  else if u = 10 then [92, 110]
  else if u = 13 then [92, 114]
  else if u = 9 then [92, 116]
  else if u < 32 || Text.isHighSurrogate u || Text.isLowSurrogate u then hexEscape u
  else [u]

def quoteUnits : Text → Text
  | [] => []
  | [u] => quoteUnit u
  | u :: v :: rest =>
    if Text.isHighSurrogate u && Text.isLowSurrogate v then u :: v :: quoteUnits rest
    else quoteUnit u ++ quoteUnits (v :: rest)

/-- A string between quotes. -/
def quote (t : Text) : Text := 34 :: (quoteUnits t ++ [34])

def printNumber (x : Binary64) : Text := if x.isFinite then x.toText else "null"

/-- A line end and the spaces of a level, nothing on one line. -/
def lineStart (indent depth : Nat) : Text :=
  if indent = 0 then [] else 10 :: List.replicate (indent * depth) 32

/-- Parts between brackets, each on its own line. -/
def printParts (indent depth : Nat) (opening closing : UInt16) (parts : List Text) : Text :=
  if parts.isEmpty then [opening, closing]
  else
    let separator : Text := 44 :: lineStart indent (depth + 1)
    opening :: (lineStart indent (depth + 1) ++ separator.intercalate parts ++
      lineStart indent depth ++ [closing])

mutual

/-- The value as text, inside `depth` levels. -/
def printAt (indent depth : Nat) : Json → Text
  | .null => "null"
  | .bool true => "true"
  | .bool false => "false"
  | .number x => printNumber x
  | .string s => quote s
  | .list items => printParts indent depth 91 93 (printItems indent (depth + 1) items)
  | .object members => printParts indent depth 123 125 (printMembers indent (depth + 1) members)

def printItems (indent depth : Nat) : List Json → List Text
  | [] => []
  | item :: rest => printAt indent depth item :: printItems indent depth rest

def printMembers (indent depth : Nat) : List (Text × Json) → List Text
  | [] => []
  | (key, value) :: rest =>
    (quote key ++ (if indent = 0 then [58] else [58, 32]) ++ printAt indent depth value) ::
      printMembers indent depth rest

end

/-- The value as text, with `indent` spaces per level; on one line for none. -/
def print (indent : Nat) (value : Json) : Text := printAt indent 0 value

theorem quote_nil : quote [] = [34, 34] := rfl

theorem printNumber_nan : printNumber .nan = ("null" : Text) := rfl

end ContestGrading.Json
