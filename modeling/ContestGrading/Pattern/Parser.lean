import ContestGrading.Pattern.Basic
import ContestGrading.Decimal.Digits
import ContestGrading.Text.Identifier
/-!
# Reading patterns

The written form of a pattern, read unit by unit. A brace that opens no
count, a closing bracket and a backslash that opens no escape stand for
themselves; a number after a backslash refers to a group if there are that
many in the whole pattern and is an octal escape otherwise; `\k` refers to a
named group in a pattern that names one.

Results:
* `parse?_nil`: the empty pattern matches where it stands.
* `parse?_open`: a group that is not closed is refused.
-/
namespace ContestGrading.Pattern

/-! ## Names of groups -/

/-- The unit that four hexadecimal digits write. -/
def readHexUnit? : Text → Option (UInt16 × Text)
  | a :: b :: c :: d :: rest => do
    let ds ← [a, b, c, d].mapM Text.hexValue?
    return (UInt16.ofNat (ds.foldl (fun n v => 16 * n + v) 0), rest)
  | _ => none

/-- The low half of a surrogate pair, written as an escape. -/
def readLowEscape? : Text → Option (UInt16 × Text)
  | 92 :: 117 :: rest => (readHexUnit? rest).filter fun found => Text.isLowSurrogate found.1
  | _ => none

/-- The code point of a surrogate pair. -/
def pairPoint (high low : UInt16) : Nat :=
  0x10000 + (high.toNat - 0xD800) * 0x400 + (low.toNat - 0xDC00)

/-- A code point at the start of a name, written out or as an escape. -/
def readNamePoint? : Text → Option (Nat × Text)
  | 92 :: 117 :: 123 :: rest =>
    let (ds, rest) := rest.span fun u => (Text.hexValue? u).isSome
    match ds, rest with
    | [], _ => none
    | ds, 125 :: rest => some (ds.foldl (fun n u => 16 * n + (Text.hexValue? u).getD 0) 0, rest)
    | _, _ => none
  | 92 :: 117 :: rest => do
    let (u, rest) ← readHexUnit? rest
    match readLowEscape? rest with
    | some (v, after) =>
      if Text.isHighSurrogate u then some (pairPoint u v, after) else some (u.toNat, rest)
    | none => some (u.toNat, rest)
  | 92 :: _ => none
  | u :: v :: rest =>
    if Text.isHighSurrogate u && Text.isLowSurrogate v then some (pairPoint u v, rest)
    else some (u.toNat, v :: rest)
  | [u] => some (u.toNat, [])
  | [] => none

/-- The rest of a name up to its closing angle bracket, which may be written
as an escape too, behind `done` (the code points so far, the last first). -/
def readNameRest : Nat → List Nat → Text → Option (List Nat × Text)
  | 0, _, _ => none
  | fuel + 1, done, t =>
    match readNamePoint? t with
    | none => none
    | some (n, rest) =>
      if done.isEmpty then
        if Text.isIdentifierStart n then readNameRest fuel [n] rest else none
      else if n = 62 then some (done.reverse, rest)
      else if Text.isIdentifierPart n then readNameRest fuel (n :: done) rest
      else none

/-- A name and its closing angle bracket. -/
def readName? (t : Text) : Option (List Nat × Text) := readNameRest (t.length + 1) [] t

/-! ## What the whole pattern holds -/

/-- The groups of a pattern in order, each with its name if it has one. -/
def scanGroups : Nat → (inClass : Bool) → Text → List (Option (List Nat))
  | 0, _, _ => []
  | fuel + 1, inClass, t =>
    match t with
    | [] => []
    | 92 :: _ :: rest => scanGroups fuel inClass rest
    | u :: rest =>
      if inClass then scanGroups fuel (u != 93) rest
      else if u = 91 then scanGroups fuel true rest
      else if u = 40 then
        match rest with
        | 63 :: 60 :: mark :: after =>
          if mark = 61 ∨ mark = 33 then scanGroups fuel false (mark :: after)
          else some ((readName? (mark :: after)).elim [] (·.1)) :: scanGroups fuel false (mark :: after)
        | 63 :: after => scanGroups fuel false after
        | rest => none :: scanGroups fuel false rest
      else scanGroups fuel false rest

/-- What has to be known of the whole pattern to read a part of it. -/
structure Outline where
  groupNames : List (Option (List Nat))

namespace Outline

def groupCount (o : Outline) : Nat := o.groupNames.length

def namesGroups (o : Outline) : Bool := o.groupNames.any (·.isSome)

/-- The number of the group of that name. -/
def indexOf? (o : Outline) (name : List Nat) : Option Nat :=
  (o.groupNames.findIdx? (· == some name)).map (· + 1)

end Outline

/-! ## Escapes and classes -/

/-- An octal escape of up to three digits, below 256. -/
def readOctal (t : Text) : UInt16 × Text :=
  let isOctal (u : UInt16) : Bool := 48 ≤ u && u ≤ 55
  match t with
  | a :: b :: c :: rest =>
    if isOctal b then
      if isOctal c && a.toNat < 52 then
        (UInt16.ofNat (((a.toNat - 48) * 8 + (b.toNat - 48)) * 8 + (c.toNat - 48)), rest)
      else (UInt16.ofNat ((a.toNat - 48) * 8 + (b.toNat - 48)), c :: rest)
    else (a - 48, b :: c :: rest)
  | [a, b] =>
    if isOctal b then (UInt16.ofNat ((a.toNat - 48) * 8 + (b.toNat - 48)), []) else (a - 48, [b])
  | [a] => (a - 48, [])
  | [] => (0, [])

/-- The class that a letter names after a backslash. -/
def namedClass? (u : UInt16) : Option ClassItem :=
  if u = 100 then some (.named .digit false)
  else if u = 68 then some (.named .digit true)
  else if u = 115 then some (.named .space false)
  else if u = 83 then some (.named .space true)
  else if u = 119 then some (.named .word false)
  else if u = 87 then some (.named .word true)
  else none

/-- The unit that an escape stands for, read behind the backslash. A letter
`c` without a control letter leaves the backslash to stand for itself; in a
class a digit or low line is a control letter too. -/
def readUnitEscape? (outline : Outline) (inClass : Bool) : Text → Option (UInt16 × Text)
  | [] => none
  | u :: rest =>
    if u = 102 then some (12, rest)
    else if u = 110 then some (10, rest)
    else if u = 114 then some (13, rest)
    else if u = 116 then some (9, rest)
    else if u = 118 then some (11, rest)
    else if u = 99 then
      match rest with
      | letter :: after =>
        if Text.isLetter letter || (inClass && (Text.isDigit letter || letter = 95)) then
          some (letter % 32, after)
        else some (92, u :: rest)
      | [] => some (92, u :: rest)
    else if u = 120 then
      match rest with
      | a :: b :: after =>
        match Text.hexValue? a, Text.hexValue? b with
        | some a, some b => some (UInt16.ofNat (a * 16 + b), after)
        | _, _ => some (u, rest)
      | rest => some (u, rest)
    else if u = 117 then
      match readHexUnit? rest with
      | some found => some found
      | none => some (u, rest)
    else if 48 ≤ u && u ≤ 55 then some (readOctal (u :: rest))
    else if u = 107 && outline.namesGroups then none
    else some (u, rest)

/-- One item of a class: a unit, or a named class. -/
def readClassAtom? (outline : Outline) : Text → Option ((UInt16 ⊕ ClassItem) × Text)
  | [] => none
  | 92 :: rest =>
    match rest with
    | [] => none
    | 98 :: after => some (.inl 8, after)
    | u :: after =>
      match namedClass? u with
      | some item => some (.inr item, after)
      | none => (readUnitEscape? outline true rest).map fun (u, after) => (.inl u, after)
  | u :: rest => some (.inl u, rest)

def atomItem : UInt16 ⊕ ClassItem → ClassItem
  | .inl u => .single u
  | .inr item => item

/-- The items of a class up to its closing bracket, behind `done`. A hyphen
between two units makes a range; beside a named class it is a unit. -/
def readClassItems (outline : Outline) :
    Nat → List ClassItem → Text → Option (List ClassItem × Text)
  | 0, _, _ => none
  | fuel + 1, done, t =>
    match t with
    | [] => none
    | 93 :: rest => some (done.reverse, rest)
    | t =>
      match readClassAtom? outline t with
      | none => none
      | some (first, rest) =>
        match rest with
        | 45 :: 93 :: after => some ((.single 45 :: atomItem first :: done).reverse, after)
        | 45 :: after =>
          match readClassAtom? outline after with
          | none => none
          | some (second, rest) =>
            match first, second with
            | .inl low, .inl high =>
              if low ≤ high then readClassItems outline fuel (.range low high :: done) rest else none
            | first, second =>
              readClassItems outline fuel
                (atomItem second :: .single 45 :: atomItem first :: done) rest
        | rest => readClassItems outline fuel (atomItem first :: done) rest

/-! ## Counts -/

/-- Counts from here on mean no limit. -/
def countLimit : Nat := 2147483647

def countOf (ds : Text) : Nat :=
  min (Decimal.ofDigits (ds.map fun u => u.toNat - 48)) countLimit

/-- A count between braces: how often at least and at most. -/
def readBraces? : Text → Option ((Nat × Nat) × Text)
  | 123 :: rest =>
    let (least, rest) := rest.span Text.isDigit
    if least.isEmpty then none
    else
      match rest with
      | 125 :: rest => some ((countOf least, countOf least), rest)
      | 44 :: 125 :: rest => some ((countOf least, countLimit), rest)
      | 44 :: rest =>
        let (most, rest) := rest.span Text.isDigit
        match most, rest with
        | _ :: _, 125 :: rest => some ((countOf least, countOf most), rest)
        | _, _ => none
      | _ => none
  | _ => none

/-- A repetition mark, if one comes next. -/
def readRepetition? : Text → Option ((Nat × Nat) × Text)
  | 42 :: rest => some ((0, countLimit), rest)
  | 43 :: rest => some ((1, countLimit), rest)
  | 63 :: rest => some ((0, 1), rest)
  | t => readBraces? t

/-- The node repeated as the marks that come next say; refused if the least
count exceeds the most. -/
def readRepeated? (node : Node) (t : Text) : Option (Node × Text) :=
  match readRepetition? t with
  | none => some (node, t)
  | some ((least, most), rest) =>
    if most < least then none
    else
      let most := if most = countLimit then none else some most
      match rest with
      | 63 :: rest => some (.repeated node least most false, rest)
      | rest => some (.repeated node least most true, rest)

/-! ## The grammar -/

/-- What has been read of the groups: how many, and which names. -/
structure Progress where
  opened : Nat
  names : List (List Nat)

/-- The most groups that a pattern can have. -/
def groupLimit : Nat := 32767

/-- One more group, if there may be one more. -/
def Progress.open? (progress : Progress) : Option Progress :=
  if progress.opened < groupLimit then some { progress with opened := progress.opened + 1 } else none

/-- A group that refers to one by number, if there are that many groups. -/
def readReference? (outline : Outline) (t : Text) : Option (Nat × Text) :=
  let (ds, rest) := t.span Text.isDigit
  let index := Decimal.ofDigits (ds.map fun u => u.toNat - 48)
  if index ≤ outline.groupCount then some (index, rest) else none

/-- An escape outside a class, read behind the backslash; the flag tells
whether it may be repeated. -/
def readEscape? (outline : Outline) : Text → Option ((Node × Bool) × Text)
  | [] => none
  | u :: rest =>
    if u = 98 then some ((.wordBoundary false, false), rest)
    else if u = 66 then some ((.wordBoundary true, false), rest)
    else
      match namedClass? u with
      | some item => some ((.oneOf false [item], true), rest)
      | none =>
        let plain := (readUnitEscape? outline false (u :: rest)).map fun (unit, rest) =>
          ((Node.unit unit, true), rest)
        if 49 ≤ u ∧ u ≤ 57 then
          match readReference? outline (u :: rest) with
          | some (index, rest) => some ((.backreference index, true), rest)
          | none => plain
        else if u = 107 && outline.namesGroups then
          match rest with
          | 60 :: after => do
            let (name, after) ← readName? after
            let index ← outline.indexOf? name
            return ((.backreference index, true), after)
          | _ => none
        else plain

mutual

/-- Alternatives up to the end or a closing parenthesis. -/
def readAlternatives (outline : Outline) :
    Nat → Progress → Text → Option (Node × Progress × Text)
  | 0, _, _ => none
  | fuel + 1, progress, t =>
    match readTerms outline fuel progress t with
    | none => none
    | some (first, progress, rest) =>
      match rest with
      | 124 :: rest =>
        match readAlternatives outline fuel progress rest with
        | none => none
        | some (second, progress, rest) => some (.either first second, progress, rest)
      | rest => some (first, progress, rest)

/-- Terms up to the end, a bar or a closing parenthesis. -/
def readTerms (outline : Outline) :
    Nat → Progress → Text → Option (Node × Progress × Text)
  | 0, _, _ => none
  | fuel + 1, progress, t =>
    match t with
    | [] => some (.empty, progress, [])
    | 124 :: _ => some (.empty, progress, t)
    | 41 :: _ => some (.empty, progress, t)
    | t =>
      match readTerm outline fuel progress t with
      | none => none
      | some ((node, repeatable), progress, rest) =>
        match if repeatable then readRepeated? node rest else some (node, rest) with
        | none => none
        | some (node, rest) =>
          match readTerms outline fuel progress rest with
          | none => none
          | some (others, progress, rest) => some (.sequence node others, progress, rest)

/-- One term without its repetition; the flag tells whether it may have one. -/
def readTerm (outline : Outline) :
    Nat → Progress → Text → Option ((Node × Bool) × Progress × Text)
  | 0, _, _ => none
  | fuel + 1, progress, t =>
    match t with
    | [] => none
    | 94 :: rest => some ((.textStart, false), progress, rest)
    | 36 :: rest => some ((.textEnd, false), progress, rest)
    | 46 :: rest => some ((.anyInLine, true), progress, rest)
    | 92 :: rest => (readEscape? outline rest).map fun (found, rest) => (found, progress, rest)
    | 91 :: 94 :: rest =>
      (readClassItems outline (rest.length + 1) [] rest).map fun (items, rest) =>
        ((.oneOf true items, true), progress, rest)
    | 91 :: rest =>
      (readClassItems outline (rest.length + 1) [] rest).map fun (items, rest) =>
        ((.oneOf false items, true), progress, rest)
    | 40 :: 63 :: 58 :: rest => readGroup outline fuel (·) true progress rest
    | 40 :: 63 :: 61 :: rest => readGroup outline fuel (.look false false) true progress rest
    | 40 :: 63 :: 33 :: rest => readGroup outline fuel (.look false true) true progress rest
    | 40 :: 63 :: 60 :: 61 :: rest => readGroup outline fuel (.look true false) false progress rest
    | 40 :: 63 :: 60 :: 33 :: rest => readGroup outline fuel (.look true true) false progress rest
    | 40 :: 63 :: 60 :: rest =>
      match readName? rest with
      | none => none
      | some (name, rest) =>
        if progress.names.contains name then none
        else
          match progress.open? with
          | none => none
          | some progress =>
            readGroup outline fuel (.capture progress.opened) true
              { progress with names := name :: progress.names } rest
    | 40 :: 63 :: _ => none
    | 40 :: rest =>
      match progress.open? with
      | none => none
      | some progress => readGroup outline fuel (.capture progress.opened) true progress rest
    | u :: rest =>
      if u = 42 ∨ u = 43 ∨ u = 63 ∨ (readBraces? (u :: rest)).isSome then none
      else some ((.unit u, true), progress, rest)

/-- The inside of a group and its closing parenthesis. -/
def readGroup (outline : Outline) :
    Nat → (Node → Node) → Bool → Progress → Text → Option ((Node × Bool) × Progress × Text)
  | 0, _, _, _, _ => none
  | fuel + 1, wrap, repeatable, progress, t =>
    match readAlternatives outline fuel progress t with
    | some (body, progress, 41 :: rest) => some ((wrap body, repeatable), progress, rest)
    | _ => none

end

/-- The pattern that a text writes. Every fourth step at the latest leaves a
unit behind, so four times the length bounds the steps. -/
def parse? (t : Text) : Option Node :=
  let outline : Outline := ⟨scanGroups (t.length + 1) false t⟩
  match readAlternatives outline (4 * t.length + 4) ⟨0, []⟩ t with
  | some (node, _, []) => some node
  | _ => none

theorem parse?_nil : parse? [] = some .empty := rfl

theorem parse?_open : parse? [40] = none := rfl

end ContestGrading.Pattern
