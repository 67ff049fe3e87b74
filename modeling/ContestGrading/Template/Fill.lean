import ContestGrading.Template.Parser
import ContestGrading.Decimal.Numeral
import ContestGrading.Json.Printer
/-!
# Filling templates

`format` reads a template and fills it. A conversion turns an argument into
text; for the signed ones the sign is then taken off and put in front of the
padding of zeros, and every other result is padded as it is.

No placeholder may be wider than the longest text. A text gets as long as
what is filled in makes it.

Results:
* `fill_nil`: no pieces, no text.
* `format_nil`: an empty template is filled with nothing.
* `pad_of_le`: a text as wide as asked for is not padded.
* `convert_text`: a text is inserted as it is.
-/
namespace ContestGrading

namespace Argument

def asText : Argument → Text
  | .number x => x.toText
  | .text t => t

/-- The number that an argument is or writes, NaN if it writes none. -/
def asNumber : Argument → Binary64
  | .number x => x
  | .text t => .ofText t

/-- The number that an argument is or starts with. -/
def leadingNumber : Argument → Binary64
  | .number x => x
  | .text t => .leading t

def kind : Argument → Text
  | .number _ => "number"
  | .text _ => "string"

def isTrue : Argument → Bool
  | .number x => !(x.isZero || x.isNaN)
  | .text t => !t.isEmpty

/-- A property that an argument has of its own, as a value: a text has its
length, and a number has none. What every text or every number could have
beside that, such as operations on it, is taken for missing. -/
def property? : Argument → Text → Option Argument
  | .text t, key => if key = Text.ofString "length" then some (.number (.ofNat t.length)) else none
  | .number _, _ => none

end Argument

namespace Template

/-! ## Values -/

/-- The text of an argument, or of a missing one. -/
def textOf (arg : Option Argument) : Text := arg.elim "undefined" Argument.asText

/-- The integer that the text of an argument starts with. -/
def integerOf (arg : Option Argument) : Binary64 := .leadingInteger (textOf arg)

/-- The low `bits` bits of the integer part; none are set in NaN and the
infinities. -/
def lowBits (bits : Nat) (x : Binary64) : Nat := (x.truncate % Binary64.powerOfTwo bits).toNat

/-- The digits of a number in a base up to 16, in front of `rest`. -/
def baseDigits (base : Nat) (upper : Bool) : Nat → Nat → Text → Text
  | 0, _, rest => rest
  | fuel + 1, n, rest =>
    let d := n % base
    let u := UInt16.ofNat (if d < 10 then 48 + d else if upper then 55 + d else 87 + d)
    if n < base then u :: rest else baseDigits base upper fuel (n / base) (u :: rest)

/-- The numeral in a base from 2 to 16. -/
def inBase (base : Nat) (upper : Bool) (n : Nat) : Text :=
  baseDigits base upper (n.log2 + 1) n []

/-- The integer in base two with its sign. -/
def binaryText (x : Binary64) : Text :=
  if x.isFinite then
    Decimal.signText (x.negative && !x.isZero) ++ inBase 2 false x.truncate.natAbs
  else x.toText

/-- The first units of a text, all of them without a precision. -/
def cut (precision : Option Nat) (t : Text) : Text := precision.elim t fun n => t.take n

/-! ## Conversions -/

/-- The most digits that a conversion can be asked for. -/
def digitLimit : Nat := 100

/-- An exponent always; a count of digits is not judged for what has none. -/
def exponentialOf (precision : Option Nat) (x : Binary64) : Except TemplateError Text :=
  match precision with
  | none => .ok x.shortestExponentialText
  | some places =>
    if !x.isFinite then .ok x.toText
    else if digitLimit < places then .error .digitCount
    else .ok (x.exponentialText places)

def fixedOf (precision : Option Nat) (x : Binary64) : Except TemplateError Text :=
  match precision with
  | none => .ok x.toText
  | some places => if digitLimit < places then .error .digitCount else .ok (x.fixedText places)

/-- A number of significant digits, which only a number can have. -/
def significantOf (precision : Option Nat) (arg : Option Argument) : Except TemplateError Text :=
  match precision, arg with
  | none, arg => .ok (arg.elim .nan Argument.leadingNumber).toText
  | some count, some (.number x) =>
    if !x.isFinite then .ok x.toText
    else if count = 0 ∨ digitLimit < count then .error .digitCount
    else .ok (x.toSignificant count).toBinary64.toText
  | some _, _ => .error .misapplied

def jsonOf : Option Argument → Text
  | none => "undefined"
  | some (.number x) => Json.printNumber x
  | some (.text t) => Json.quote t

def valueOf (precision : Option Nat) : Option Argument → Except TemplateError Text
  | none => .error .misapplied
  | some (.number x) => if precision.isSome then .error .misapplied else .ok x.toText
  | some (.text t) => .ok (cut precision t)

/-- The text of a value under a conversion. -/
def convert (p : Placeholder) (arg : Option Argument) : Except TemplateError Text :=
  let number := arg.elim .nan Argument.leadingNumber
  match p.conversion with
  | .binary => .ok (binaryText (integerOf arg))
  | .unit => .ok [UInt16.ofNat (lowBits 16 (integerOf arg))]
  | .integer => .ok (integerOf arg).toText
  | .exponential => exponentialOf p.precision number
  | .fixed => fixedOf p.precision number
  | .significant => significantOf p.precision arg
  | .json => .ok (jsonOf arg)
  | .octal => .ok (inBase 8 false (lowBits 32 (integerOf arg)))
  | .text => .ok (cut p.precision (textOf arg))
  | .truth => .ok (cut p.precision (if arg.any Argument.isTrue then "true" else "false"))
  | .kind => .ok (cut p.precision (arg.elim "undefined" Argument.kind))
  | .unsigned => .ok (Decimal.natText (lowBits 32 (integerOf arg)))
  | .value => valueOf p.precision arg
  | .hexadecimal upper => .ok (inBase 16 upper (lowBits 32 (integerOf arg)))

/-! ## Signs and padding -/

def dropSign : Text → Text
  | 43 :: rest => rest
  | 45 :: rest => rest
  | t => t

/-- The sign that is set apart, and the rest of the text. -/
def splitSign (p : Placeholder) (arg : Option Argument) (t : Text) : Text × Text :=
  let positive := decide (Binary64.zero ≤ arg.elim .nan Argument.asNumber)
  if p.conversion.isSigned && (!positive || p.plus) then
    ([if positive then 43 else 45], dropSign t)
  else ([], t)

/-- A sign and a text in their width. -/
def pad (p : Placeholder) (sign body : Text) : Text :=
  let filling := List.replicate (p.width.getD 0 - (sign.length + body.length)) p.fill
  if p.left then sign ++ body ++ filling
  else if p.fill = 48 then sign ++ filling ++ body
  else filling ++ sign ++ body

/-- The units that the longest text has. -/
def widthLimit : Nat := 536870888

/-- One placeholder with its value. -/
def fillPlaceholder (p : Placeholder) (arg : Option Argument) : Except TemplateError Text :=
  if p.conversion.demandsNumber && (arg.elim .nan Argument.asNumber).isNaN &&
      !(arg matches some (.number _)) then
    .error (.notANumber (arg.elim "undefined" Argument.kind))
  else do
    let t ← convert p arg
    if p.conversion = .json then return t
    if widthLimit < p.width.getD 0 then .error .tooLong
    else
      let (sign, body) := splitSign p arg t
      return pad p sign body

/-! ## Whole templates -/

/-- The value at the end of a path. -/
def follow (value : Option Argument) (before : Option Text) :
    List Text → Except TemplateError (Option Argument)
  | [] => .ok value
  | key :: rest =>
    match value with
    | none => .error (.missingProperty key before)
    | some arg => follow (arg.property? key) (some key) rest

/-- The value of a placeholder, `turn` arguments having been taken in turn,
and how many have been then. -/
def resolve (args : List Argument) (turn : Nat) :
    Source → Except TemplateError (Option Argument × Nat)
  | .next => .ok (args[turn]?, turn + 1)
  | .position index => .ok (args[index - 1]?, turn)
  | .path keys => (follow args.head? none keys).map (·, turn)

/-- One piece, and how many arguments have been taken in turn then. -/
def fillPiece (args : List Argument) (turn : Nat) :
    Piece → Except TemplateError (Text × Nat)
  | .literal t => .ok (t, turn)
  | .placeholder p => do
    let (arg, turn) ← resolve args turn p.source
    return (← fillPlaceholder p arg, turn)

/-- The pieces to come, filled. -/
def fillFrom (args : List Argument) (turn : Nat) : List Piece → Except TemplateError Text
  | [] => .ok []
  | piece :: rest => do
    let (filled, turn) ← fillPiece args turn piece
    return filled ++ (← fillFrom args turn rest)

/-- The text of the pieces with these arguments. -/
def fill (pieces : List Piece) (args : List Argument) : Except TemplateError Text :=
  fillFrom args 0 pieces

/-- The text of a template with these arguments. -/
def format (template : Text) (args : List Argument) : Except TemplateError Text := do
  fill (← parse template) args

theorem fill_nil (args : List Argument) : fill [] args = .ok [] := rfl

theorem format_nil (args : List Argument) : format [] args = .ok [] := rfl

theorem pad_of_le {p : Placeholder} {sign body : Text}
    (h : p.width.getD 0 ≤ sign.length + body.length) : pad p sign body = sign ++ body := by
  simp [pad, Nat.sub_eq_zero_of_le h]

theorem convert_text {p : Placeholder} (hc : p.conversion = .text) (hp : p.precision = none)
    (t : Text) : convert p (some (.text t)) = .ok t := by
  simp [convert, hc, hp, cut, textOf, Argument.asText]

end Template

namespace TemplateError

/-- The error in words. -/
def message : TemplateError → Text
  | .unexpectedPlaceholder => "[sprintf] unexpected placeholder"
  | .malformedKey => "[sprintf] failed to parse named argument key"
  | .mixedSources =>
    "[sprintf] mixing positional and named placeholders is not (yet) supported"
  | .missingProperty key before =>
    ("[sprintf] Cannot access property \"" : Text) ++ key ++
      ("\" of undefined value \"" : Text) ++ before.getD "undefined" ++ ("\"" : Text)
  | .notANumber kind => ("[sprintf] expecting number but found " : Text) ++ kind
  | .misapplied => "the conversion does not apply to the argument"
  | .digitCount => "digit count out of range"
  | .tooLong => "text too long"

end TemplateError

end ContestGrading
