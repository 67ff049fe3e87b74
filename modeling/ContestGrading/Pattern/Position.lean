import ContestGrading.Pattern.Basic
/-!
# Positions in a text

A position stands between two units of a text and knows what the groups of a
pattern have kept on the way to it. It moves by one unit or over a given text,
forward or backward.

Results:
* `step?_start_backward`: nothing lies before the start of a text.
* `kept?_keep`: what was kept last under a number is found there.
-/
namespace ContestGrading.Pattern

/-- What a group has kept. -/
structure Capture where
  index : Nat
  text : Text
  deriving Ord

/-- A position in a text: the units before it (the nearest first), those
after it, how many there are of each, and what the groups have kept. -/
structure Position where
  before : Text
  after : Text
  passed : Nat
  left : Nat
  captures : List Capture

namespace Position

/-- The start of a text. -/
def start (t : Text) : Position := ⟨[], t, 0, t.length, []⟩

/-- The order of the positions of one text, by place and then by captures. -/
def order (p q : Position) : Ordering :=
  (compare p.passed q.passed).then (compare p.captures q.captures)

/-- The unit next to the position, and the position beyond it. -/
def step? (backward : Bool) (p : Position) : Option (UInt16 × Position) :=
  match backward, p.before, p.after with
  | false, before, u :: after =>
    some (u, ⟨u :: before, after, p.passed + 1, p.left - 1, p.captures⟩)
  | true, u :: before, after =>
    some (u, ⟨before, u :: after, p.passed - 1, p.left + 1, p.captures⟩)
  | _, _, _ => none

/-- How far the text goes on in the direction of matching. -/
def remaining (backward : Bool) (p : Position) : Nat :=
  if backward then p.passed else p.left

/-- The text between two positions, in either order. -/
def textBetween (p q : Position) : Text :=
  if p.passed ≤ q.passed then p.after.take (q.passed - p.passed)
  else q.after.take (p.passed - q.passed)

/-- The position beyond the given text, if that is what comes next. -/
def skip? (backward : Bool) (t : Text) (p : Position) : Option Position :=
  if backward then
    if t.reverse.isPrefixOf p.before then
      some ⟨p.before.drop t.length, t ++ p.after, p.passed - t.length, p.left + t.length, p.captures⟩
    else none
  else if t.isPrefixOf p.after then
    some ⟨t.reverse ++ p.before, p.after.drop t.length, p.passed + t.length, p.left - t.length,
      p.captures⟩
  else none

def keep (index : Nat) (t : Text) (p : Position) : Position :=
  { p with captures := ⟨index, t⟩ :: p.captures.filter fun c => c.index != index }

/-- Forgets what the groups of the list have kept. -/
def forget (groups : List Nat) (p : Position) : Position :=
  { p with captures := p.captures.filter fun c => !groups.contains c.index }

def kept? (index : Nat) (p : Position) : Option Text :=
  (p.captures.find? fun c => c.index == index).map (·.text)

/-- A word unit on one side only. -/
def atWordBoundary (p : Position) : Bool :=
  p.before.head?.any (UnitClass.word.contains ·) != p.after.head?.any (UnitClass.word.contains ·)

theorem step?_start_backward (t : Text) : (start t).step? true = none := rfl

theorem kept?_keep (index : Nat) (t : Text) (p : Position) :
    (p.keep index t).kept? index = some t := by
  simp [keep, kept?]

end Position

end ContestGrading.Pattern
