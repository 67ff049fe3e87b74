import ContestGrading.Text.Blank
/-!
# Patterns

The tree of a regular expression over UTF-16 code units. A pattern may
capture and refer back, look ahead and behind, and repeat greedily or not.

Results:
* `ClassItem.contains_range`: a range holds the units between its ends.
* `ClassItem.contains_negated`: a negated class holds what the class does not.
-/
namespace ContestGrading.Pattern

/-- The classes that a letter names. -/
inductive UnitClass where
  | digit
  | space
  | word
  deriving DecidableEq

def UnitClass.contains : UnitClass → UInt16 → Bool
  | .digit, u => Text.isDigit u
  | .space, u => Text.isBlank u
  | .word, u => Text.isDigit u || Text.isLetter u || u = 95

/-- One item of a bracketed class. -/
inductive ClassItem where
  | range (low high : UInt16)
  | named (kind : UnitClass) (negated : Bool)
  deriving DecidableEq

def ClassItem.contains : ClassItem → UInt16 → Bool
  | .range low high, u => low ≤ u && u ≤ high
  | .named kind negated, u => kind.contains u != negated

/-- A single unit as an item. -/
def ClassItem.single (u : UInt16) : ClassItem := .range u u

inductive Node where
  /-- Matches where it stands. -/
  | empty
  /-- One unit in (or, negated, outside) the class. -/
  | oneOf (negated : Bool) (items : List ClassItem)
  | sequence (first second : Node)
  | either (first second : Node)
  /-- A group that keeps what it matched under a number. -/
  | capture (index : Nat) (body : Node)
  /-- What the group of that number kept, nothing if it kept nothing. -/
  | backreference (index : Nat)
  | textStart
  | textEnd
  /-- Between a word unit and another or, negated, anywhere else. -/
  | wordBoundary (negated : Bool)
  /-- The body matches (or, negated, does not) from here on or up to here. -/
  | look (behind negated : Bool) (body : Node)
  | repeated (body : Node) (least : Nat) (most : Option Nat) (greedy : Bool)
  deriving DecidableEq

namespace Node

/-- A unit that stands for itself. -/
def unit (u : UInt16) : Node := .oneOf false [.single u]

/-- Any unit but a line end. -/
def anyInLine : Node :=
  .oneOf true [.single 10, .single 13, .single 0x2028, .single 0x2029]

/-- The numbers of the groups inside. -/
def groups : Node → List Nat
  | .sequence first second => first.groups ++ second.groups
  | .either first second => first.groups ++ second.groups
  | .capture index body => index :: body.groups
  | .look _ _ body => body.groups
  | .repeated body _ _ _ => body.groups
  | _ => []

/-- The numbers of the groups that back references inside ask for. -/
def referred : Node → List Nat
  | .sequence first second => first.referred ++ second.referred
  | .either first second => first.referred ++ second.referred
  | .capture _ body => body.referred
  | .backreference index => [index]
  | .look _ _ body => body.referred
  | .repeated body _ _ _ => body.referred
  | _ => []

end Node

theorem ClassItem.contains_range {low high u : UInt16} :
    (ClassItem.range low high).contains u = true ↔ low ≤ u ∧ u ≤ high := by
  simp [ClassItem.contains]

theorem ClassItem.contains_negated (kind : UnitClass) (u : UInt16) :
    (ClassItem.named kind true).contains u = !(ClassItem.named kind false).contains u := by
  simp [ClassItem.contains]

end ContestGrading.Pattern
