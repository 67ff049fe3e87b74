import ContestGrading.Binary64.Basic
import ContestGrading.Text.Basic
/-!
# Message templates

A template is literal text with placeholders. A placeholder says where its
value comes from, how the value is converted, and how the result is signed,
cut and padded.

Results:
* `Conversion.isSigned_demandsNumber`: a signed conversion takes numbers only.
-/
namespace ContestGrading

/-- An argument of a template. -/
inductive Argument where
  | number (value : Binary64)
  | text (value : Text)
  deriving DecidableEq

/-- How a value is converted, by the letter that asks for it. -/
inductive Conversion where
  /-- `b`: the integer in base two. -/
  | binary
  /-- `c`: the code unit of that number. -/
  | unit
  /-- `d` and `i`: the integer in base ten. -/
  | integer
  /-- `e`: an exponent always. -/
  | exponential
  /-- `f`: a number of decimal places. -/
  | fixed
  /-- `g`: a number of significant digits. -/
  | significant
  /-- `j`: as JSON. -/
  | json
  /-- `o`: the low 32 bits in base eight. -/
  | octal
  /-- `s`: as text. -/
  | text
  /-- `t`: whether it counts as true. -/
  | truth
  /-- `T`: what kind of value it is. -/
  | kind
  /-- `u`: the low 32 bits in base ten. -/
  | unsigned
  /-- `v`: the value itself. -/
  | value
  /-- `x` and `X`: the low 32 bits in base sixteen. -/
  | hexadecimal (upper : Bool)
  deriving DecidableEq

namespace Conversion

/-- The conversion that a letter asks for. -/
def ofUnit? (u : UInt16) : Option Conversion :=
  if u = 98 then some .binary
  else if u = 99 then some .unit
  else if u = 100 ∨ u = 105 then some .integer
  else if u = 101 then some .exponential
  else if u = 102 then some .fixed
  else if u = 103 then some .significant
  else if u = 106 then some .json
  else if u = 111 then some .octal
  else if u = 115 then some .text
  else if u = 116 then some .truth
  else if u = 84 then some .kind
  else if u = 117 then some .unsigned
  else if u = 118 then some .value
  else if u = 120 then some (.hexadecimal false)
  else if u = 88 then some (.hexadecimal true)
  else none

/-- The argument has to be a number or the text of one. -/
def demandsNumber : Conversion → Bool
  | .binary | .unit | .integer | .exponential | .fixed | .significant | .unsigned
  | .hexadecimal _ => true
  | _ => false

/-- The sign of the argument is shown apart from its text. -/
def isSigned : Conversion → Bool
  | .integer | .exponential | .fixed | .significant => true
  | _ => false

theorem isSigned_demandsNumber {c : Conversion} (h : c.isSigned = true) :
    c.demandsNumber = true := by
  cases c <;> first | rfl | cases h

end Conversion

/-- Where a placeholder takes its value from. -/
inductive Source where
  /-- The next argument in turn. -/
  | next
  /-- The argument at that place, counted from one. -/
  | position (index : Nat)
  /-- The first argument's property, and that one's property, and so on. -/
  | path (keys : List Text)
  deriving DecidableEq

structure Placeholder where
  source : Source
  /-- A sign is shown for positive numbers too. -/
  plus : Bool
  /-- What fills the width: a space if nothing else is asked for. -/
  fill : UInt16
  /-- The filling goes to the right. -/
  left : Bool
  width : Option Nat
  precision : Option Nat
  conversion : Conversion
  deriving DecidableEq

/-- A part of a template. -/
inductive Piece where
  | literal (text : Text)
  | placeholder (placeholder : Placeholder)
  deriving DecidableEq

/-- Why a template cannot be read or filled. -/
inductive TemplateError where
  | unexpectedPlaceholder
  | malformedKey
  | mixedSources
  /-- A property of nothing; `before` is the key that gave nothing. -/
  | missingProperty (key : Text) (before : Option Text)
  | notANumber (kind : Text)
  /-- The conversion does not apply to that kind of value. -/
  | misapplied
  /-- A count of digits outside what the conversion admits. -/
  | digitCount
  /-- The placeholder is wider than the longest text. -/
  | tooLong
  deriving DecidableEq

end ContestGrading
