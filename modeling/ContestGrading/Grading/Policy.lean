import ContestGrading.Binary64.Arithmetic
import ContestGrading.Text.Basic
/-!
# Outcome labels and group policies

An outcome is a number, nominally between 0 and 1. A group policy folds the
outcomes of a subtask into the fraction of its score: the least outcome,
their product, or their mean.

Results:
* `ofName?_name`, `name_of_ofName?`: a policy is found under its own name only.
* `classify_nan`: an outcome that is no number is partially correct.
-/
namespace ContestGrading

/-- What a contestant is told of an outcome. -/
inductive OutcomeLabel where
  | correct
  | partiallyCorrect
  | notCorrect
  deriving DecidableEq

namespace OutcomeLabel

def text : OutcomeLabel → Text
  | .correct => "Correct"
  | .partiallyCorrect => "Partially correct"
  | .notCorrect => "Not correct"

/-- The label of an outcome: nothing at or below zero, everything from one on. -/
def classify (outcome : Binary64) : OutcomeLabel :=
  if outcome ≤ .zero then .notCorrect
  else if .one ≤ outcome then .correct
  else .partiallyCorrect

theorem classify_nan : classify .nan = .partiallyCorrect := rfl

end OutcomeLabel

inductive Policy where
  | minimum
  | product
  | mean
  deriving DecidableEq

namespace Policy

def name : Policy → Text
  | .minimum => "min"
  | .product => "mul"
  | .mean => "sum"

/-- The policy of that name. -/
def ofName? (name : Text) : Option Policy :=
  [minimum, product, mean].find? fun p => p.name == name

/-- The fraction of the score that the outcomes of a subtask earn. -/
def reduce : Policy → List Binary64 → Binary64
  | .minimum, outcomes => .minimum outcomes
  | .product, outcomes => .product outcomes
  | .mean, outcomes => .sum outcomes / .ofNat outcomes.length

/-- The label of a single outcome, the same under every policy. -/
def classify (_ : Policy) (outcome : Binary64) : OutcomeLabel := .classify outcome

theorem ofName?_name (p : Policy) : ofName? p.name = some p := by
  cases p <;> rfl

theorem name_of_ofName? {name : Text} {p : Policy} (h : ofName? name = some p) :
    p.name = name := by
  have := List.find?_some h
  simpa using this

end Policy

end ContestGrading
