import ContestGrading.Json.Basic
import ContestGrading.Decimal.Numeral
/-!
# Reading JSON

`Json.parse?` reads a whole text as one JSON value: no comments, no trailing
commas, no blank but space, tab, line feed and carriage return, no control
character in a string, and surrogates of any kind through `\u`.

Results:
* `parse?_nil`: an empty text holds no value.
* `skipBlanks_length_le`: skipping blanks only shortens.
-/
namespace ContestGrading.Json

def isBlank (u : UInt16) : Bool := u = 32 || u = 9 || u = 10 || u = 13

def skipBlanks (t : Text) : Text := t.dropWhile isBlank

/-- The unit that a one-letter escape stands for. -/
def escape? (u : UInt16) : Option UInt16 :=
  if u = 34 ∨ u = 92 ∨ u = 47 then some u
  else if u = 98 then some 8
  else if u = 102 then some 12
  else if u = 110 then some 10
  else if u = 114 then some 13
  else if u = 116 then some 9
  else none

/-- Four hexadecimal digits as one unit. -/
def hexUnit? (a b c d : UInt16) : Option UInt16 := do
  let a ← Text.hexValue? a
  let b ← Text.hexValue? b
  let c ← Text.hexValue? c
  let d ← Text.hexValue? d
  return UInt16.ofNat (((a * 16 + b) * 16 + c) * 16 + d)

/-- The rest of a string up to its closing quote, behind `done` (the units
so far, the last first). -/
def readString (done : Text) : Text → Option (Text × Text)
  | [] => none
  | 34 :: rest => some (done.reverse, rest)
  | 92 :: 117 :: a :: b :: c :: d :: rest =>
    match hexUnit? a b c d with
    | some u => readString (u :: done) rest
    | none => none
  | 92 :: e :: rest =>
    match escape? e with
    | some u => readString (u :: done) rest
    | none => none
  | u :: rest => if u < 32 ∨ u = 92 then none else readString (u :: done) rest

/-- A number: no leading zero, no leading plus, digits on both sides of a
point. What cannot go on is left for the caller to refuse. -/
def readNumber (t : Text) : Option (Json × Text) :=
  let (negative, unsigned) :=
    match t with
    | 45 :: rest => (true, rest)
    | rest => (false, rest)
  let (whole, afterWhole) := Decimal.spanDigits unsigned
  if whole.isEmpty || (whole.head? == some 0 && 1 < whole.length) then none
  else
    let (fraction, afterFraction) :=
      match afterWhole with
      | 46 :: rest =>
        match Decimal.spanDigits rest with
        | ([], _) => ([], afterWhole)
        | found => found
      | rest => ([], rest)
    let (exponent, rest) := Decimal.readExponent afterFraction
    let d : Decimal := ⟨negative, Decimal.ofDigits (whole ++ fraction), exponent - fraction.length⟩
    some (.number d.toBinary64, rest)

/-- A fixed word at the start of a text. -/
def readWord (word : Text) (value : Json) (t : Text) : Option (Json × Text) :=
  if word.isPrefixOf t then some (value, t.drop word.length) else none

/-- A value without parts. -/
def readAtom (t : Text) : Option (Json × Text) :=
  match t with
  | 34 :: rest => (readString [] rest).map fun (s, rest) => (.string s, rest)
  | 116 :: _ => readWord "true" (.bool true) t
  | 102 :: _ => readWord "false" (.bool false) t
  | 110 :: _ => readWord "null" .null t
  | _ => readNumber t

mutual

/-- A value at the start of a text. -/
def readValue : Nat → Text → Option (Json × Text)
  | 0, _ => none
  | fuel + 1, t =>
    match skipBlanks t with
    | 91 :: rest =>
      match skipBlanks rest with
      | 93 :: rest => some (.list [], rest)
      | rest => (readItems fuel [] rest).map fun (items, rest) => (.list items, rest)
    | 123 :: rest =>
      match skipBlanks rest with
      | 125 :: rest => some (.object [], rest)
      | rest =>
        (readMembers fuel [] rest).map fun (entries, rest) =>
          (.object (Members.ofList entries), rest)
    | t => readAtom t

/-- The items of a list up to its closing bracket, behind `done` (the items
so far, the last first). -/
def readItems : Nat → List Json → Text → Option (List Json × Text)
  | 0, _, _ => none
  | fuel + 1, done, t =>
    match readValue fuel t with
    | none => none
    | some (value, rest) =>
      match skipBlanks rest with
      | 44 :: rest => readItems fuel (value :: done) rest
      | 93 :: rest => some ((value :: done).reverse, rest)
      | _ => none

/-- The members of an object up to its closing brace, behind `done` (the
members so far, the last first). -/
def readMembers : Nat → List (Text × Json) → Text → Option (List (Text × Json) × Text)
  | 0, _, _ => none
  | fuel + 1, done, t =>
    match skipBlanks t with
    | 34 :: rest =>
      match readString [] rest with
      | none => none
      | some (key, rest) =>
        match skipBlanks rest with
        | 58 :: rest =>
          match readValue fuel rest with
          | none => none
          | some (value, rest) =>
            match skipBlanks rest with
            | 44 :: rest => readMembers fuel ((key, value) :: done) rest
            | 125 :: rest => some (((key, value) :: done).reverse, rest)
            | _ => none
        | _ => none
    | _ => none

end

/-- The value that a whole text holds. Each step into a value or past a
comma leaves at least one unit behind, so twice the length bounds the steps. -/
def parse? (t : Text) : Option Json :=
  match readValue (2 * t.length + 2) t with
  | some (value, rest) => if (skipBlanks rest).isEmpty then some value else none
  | none => none

theorem parse?_nil : parse? [] = none := rfl

theorem skipBlanks_length_le (t : Text) : (skipBlanks t).length ≤ t.length :=
  (List.dropWhile_suffix isBlank).length_le

end ContestGrading.Json
