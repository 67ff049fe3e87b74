import ContestGrading.Pattern.Position
import ContestGrading.Pattern.Trail
/-!
# Matching

A pattern leads from a position of a text to others: those that it can have
matched up to, the most wanted first and each once. Alternatives come in
their order, and a repetition goes on only where its body has moved. Inside a
look behind everything runs from right to left. Groups keep what they matched
only if a back reference asks for it, so without back references there are
never more positions than the text has places. A pattern is found in a text
if it leads anywhere from some position.

Results:
* `run_empty`, `run_either`, `run_sequence`: one step of the matcher.
* `foundIn_of_matchesStart`: a match at the start is a match somewhere.
-/
namespace ContestGrading.Pattern

/-- The positions that a pattern leads to, the most wanted first. -/
abbrev Matcher := Position → List Position

/-- Drops every position that was wanted more before. -/
def distinct (ps : List Position) : List Position := Trail.distinct Position.order ps

/-- A position at which a repetition has been, and how many more rounds it
might do there. -/
structure Turn where
  rounds : Option Nat
  position : Position

def Turn.order (a b : Turn) : Ordering :=
  (compare a.rounds b.rounds).then (a.position.order b.position)

/-- Repeats a body as often as wanted and possible. A round that does not
move leads nowhere; `limit` bounds the rounds that move. -/
def repeatFreely (body : Matcher) (backward greedy : Bool) :
    (limit : Nat) → Turn → Trail Turn Turn.order → Trail Turn Turn.order
  | 0, turn, trail => trail.insert turn
  | limit + 1, turn, trail =>
    let further (trail : Trail Turn Turn.order) : Trail Turn Turn.order :=
      if turn.rounds = some 0 then trail
      else
        (body turn.position).foldl (fun trail q =>
          if q.remaining backward < turn.position.remaining backward then
            repeatFreely body backward greedy limit ⟨turn.rounds.map (· - 1), q⟩ trail
          else trail) trail
    if trail.contains turn then trail
    else if greedy then (further trail).insert turn
    else further (trail.insert turn)

/-- Repeats a body a number of times, whether it moves or not. -/
def repeatExactly (body : Matcher) : Nat → List Position → List Position
  | 0, ps => ps
  | times + 1, ps => repeatExactly body times (distinct (ps.flatMap body))

/-- As many rounds as can matter where `remaining` units are left. Of more
rounds than that, two in a row do not move; the first of them is undone by
the second, which starts where it started and forgets what it kept. -/
def roundsNeeded (remaining : Nat) : Nat := 2 * remaining + 2

namespace Node

/-- Matches a pattern from a position on, forward or backward; the groups of
the list keep what they match. -/
def run (referred : List Nat) : Node → (backward : Bool) → Matcher
  | .empty, _, p => [p]
  | .oneOf negated items, backward, p =>
    match p.step? backward with
    | some (u, q) => if items.any (·.contains u) != negated then [q] else []
    | none => []
  | .sequence first second, backward, p =>
    if backward then
      distinct ((second.run referred backward p).flatMap (first.run referred backward))
    else distinct ((first.run referred backward p).flatMap (second.run referred backward))
  | .either first second, backward, p =>
    distinct (first.run referred backward p ++ second.run referred backward p)
  | .capture index body, backward, p =>
    let ends := body.run referred backward p
    if referred.contains index then ends.map fun q => q.keep index (p.textBetween q) else ends
  | .backreference index, backward, p =>
    match p.kept? index with
    | none => [p]
    | some t => (p.skip? backward t).toList
  | .textStart, _, p => if p.before.isEmpty then [p] else []
  | .textEnd, _, p => if p.after.isEmpty then [p] else []
  | .wordBoundary negated, _, p => if p.atWordBoundary != negated then [p] else []
  | .look behind negated body, _, p =>
    match body.run referred behind p with
    | q :: _ => if negated then [] else [{ p with captures := q.captures }]
    | [] => if negated then [p] else []
  | .repeated body least most greedy, backward, p =>
    let groups := body.groups
    let round : Matcher := fun q => body.run referred backward (q.forget groups)
    let limit := p.remaining backward
    let rounds := most.map (· - least)
    let starts := repeatExactly round (min least (roundsNeeded limit)) [p]
    let trail := starts.foldl (fun trail q =>
      repeatFreely round backward greedy limit ⟨rounds, q⟩ trail) .empty
    distinct (trail.toList.map (·.position))

/-- Matches from a position on. -/
def matchesAt (node : Node) (p : Position) : Bool := !(node.run node.referred false p).isEmpty

/-- Matches from the start of a text on. -/
def matchesStart (node : Node) (t : Text) : Bool := node.matchesAt (.start t)

/-- Matches from this position or, going through the units after it, from a
later one on. -/
def matchesFrom (node : Node) (p : Position) : Text → Bool
  | [] => node.matchesAt p
  | _ :: rest =>
    node.matchesAt p || (p.step? false).any fun found => node.matchesFrom found.2 rest

/-- Matches somewhere in a text. -/
def foundIn (node : Node) (t : Text) : Bool := node.matchesFrom (.start t) t

theorem run_empty (referred : List Nat) (backward : Bool) (p : Position) :
    run referred .empty backward p = [p] := rfl

theorem run_either (referred : List Nat) (first second : Node) (backward : Bool) (p : Position) :
    run referred (.either first second) backward p =
      distinct (first.run referred backward p ++ second.run referred backward p) := rfl

theorem run_sequence (referred : List Nat) (first second : Node) (p : Position) :
    run referred (.sequence first second) false p =
      distinct ((first.run referred false p).flatMap (second.run referred false)) := rfl

theorem foundIn_of_matchesStart {node : Node} {t : Text} (h : node.matchesStart t = true) :
    node.foundIn t = true := by
  cases t with
  | nil => exact h
  | cons u after => exact Bool.or_eq_true_iff.mpr (.inl h)

end Node

end ContestGrading.Pattern
