import ContestGrading.Template.Basic
import ContestGrading.Decimal.Digits
/-!
# Reading templates

`Piece.parse` reads a whole template: text up to a percent sign, `%%` for
the sign itself, and placeholders. Named and other placeholders do not mix;
the first error from the left is the one reported.

Results:
* `parse_nil`: an empty template has no pieces.
* `parse_percent`: a lone percent sign is refused.
-/
namespace ContestGrading.Template

/-! ## Names -/

def isNameStart (u : UInt16) : Bool := Text.isLetter u || u = 95

def isNamePart (u : UInt16) : Bool := isNameStart u || Text.isDigit u

/-- An identifier at the start of a text. -/
def readIdentifier? (t : Text) : Option (Text × Text) :=
  match t with
  | u :: _ => if isNameStart u then some (t.span isNamePart) else none
  | [] => none

/-- Further keys of a path: an identifier behind a point, or digits between
brackets. Every key takes at least two units, so the length bounds them. -/
def readKeys? : Nat → Text → Option (List Text)
  | _, [] => some []
  | 0, _ => none
  | fuel + 1, 46 :: rest => do
    let (key, rest) ← readIdentifier? rest
    return key :: (← readKeys? fuel rest)
  | fuel + 1, 91 :: rest =>
    match rest.span Text.isDigit with
    | (key@(_ :: _), 93 :: rest) => do return key :: (← readKeys? fuel rest)
    | _ => none
  | _, _ => none

/-- The keys that a name between parentheses lists. -/
def readPath? (name : Text) : Option (List Text) := do
  let (key, rest) ← readIdentifier? name
  return key :: (← readKeys? rest.length rest)

/-! ## Placeholders -/

def numberOf (ds : Text) : Nat := Decimal.ofDigits (ds.map fun u => u.toNat - 48)

/-- Where the value comes from, as written: nothing, a position or a name. -/
inductive WrittenSource where
  | next
  | position (index : Nat)
  | name (name : Text)

/-- The source of a placeholder, read behind the percent sign. What does not
close is no source and left to be read as something else. -/
def readSource (t : Text) : WrittenSource × Text :=
  match t with
  | 40 :: rest =>
    match rest.span (· != 41) with
    | (name@(_ :: _), 41 :: rest) => (.name name, rest)
    | _ => (.next, t)
  | u :: _ =>
    if 49 ≤ u ∧ u ≤ 57 then
      match t.span Text.isDigit with
      | (ds, 36 :: rest) => (.position (numberOf ds), rest)
      | _ => (.next, t)
    else (.next, t)
  | [] => (.next, t)

/-- The filling asked for: a zero, or any unit but `$` behind a quote. -/
def readFill (t : Text) : UInt16 × Text :=
  match t with
  | 48 :: rest => (48, rest)
  | 39 :: u :: rest => if u = 36 then (32, t) else (u, rest)
  | _ => (32, t)

/-- Whether the unit comes next, and what follows it. -/
def readFlag (u : UInt16) (t : Text) : Bool × Text :=
  match t with
  | v :: rest => if v = u then (true, rest) else (false, t)
  | [] => (false, t)

def readWidth (t : Text) : Option Nat × Text :=
  match t.span Text.isDigit with
  | ([], _) => (none, t)
  | (ds, rest) => (some (numberOf ds), rest)

def readPrecision (t : Text) : Option Nat × Text :=
  match t with
  | 46 :: rest =>
    match rest.span Text.isDigit with
    | ([], _) => (none, t)
    | (ds, rest) => (some (numberOf ds), rest)
  | _ => (none, t)

/-- A placeholder as written, read behind the percent sign. -/
def readPlaceholder? (t : Text) : Option (WrittenSource × (Source → Placeholder) × Text) :=
  let (source, t) := readSource t
  let (plus, t) := readFlag 43 t
  let (fill, t) := readFill t
  let (left, t) := readFlag 45 t
  let (width, t) := readWidth t
  let (precision, t) := readPrecision t
  match t with
  | [] => none
  | u :: rest =>
    (Conversion.ofUnit? u).map fun conversion =>
      (source, fun source => ⟨source, plus, fill, left, width, precision, conversion⟩, rest)

/-! ## The whole template -/

/-- Which kinds of placeholder have been met. -/
structure Met where
  named : Bool
  unnamed : Bool

/-- The source that is written, unless it does not mix with those met. -/
def settleSource (met : Met) : WrittenSource → Except TemplateError (Source × Met)
  | .name name =>
    match readPath? name with
    | none => .error .malformedKey
    | some keys =>
      if met.unnamed then .error .mixedSources else .ok (.path keys, { met with named := true })
  | .next =>
    if met.named then .error .mixedSources else .ok (.next, { met with unnamed := true })
  | .position index =>
    if met.named then .error .mixedSources
    else .ok (.position index, { met with unnamed := true })

/-- The pieces of the text to come. Every piece takes at least one unit, so
the length bounds them. -/
def parseFrom : Nat → Met → Text → Except TemplateError (List Piece)
  | _, _, [] => .ok []
  | 0, _, _ => .ok []
  | fuel + 1, met, 37 :: 37 :: rest => do
    return .literal [37] :: (← parseFrom fuel met rest)
  | fuel + 1, met, 37 :: rest =>
    match readPlaceholder? rest with
    | none => .error .unexpectedPlaceholder
    | some (written, placeholder, rest) => do
      let (source, met) ← settleSource met written
      return .placeholder (placeholder source) :: (← parseFrom fuel met rest)
  | fuel + 1, met, t => do
    let (literal, rest) := t.span (· != 37)
    return .literal literal :: (← parseFrom fuel met rest)

/-- The pieces of a template. -/
def parse (t : Text) : Except TemplateError (List Piece) := parseFrom t.length ⟨false, false⟩ t

theorem parse_nil : parse [] = .ok [] := rfl

theorem parse_percent : parse [37] = .error .unexpectedPlaceholder := rfl

end ContestGrading.Template
