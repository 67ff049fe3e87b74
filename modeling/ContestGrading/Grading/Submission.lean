import ContestGrading.Json.Basic
/-!
# Testcases and submissions

What is graded: a submission with one evaluation per testcase it was run
on. When several evaluations share a codename, the last one counts.

Results:
* `evaluation?_concat_self`, `evaluation?_concat_of_ne`: the last one counts.
-/
namespace ContestGrading

structure Testcase where
  codename : Text
  isPublic : Bool
  deriving DecidableEq

structure Evaluation where
  codename : Text
  /-- Nominally between 0 and 1. -/
  outcome : Binary64
  /-- The status text: a template and its arguments, if it is well formed. -/
  text : Json
  /-- In seconds. -/
  executionTime : Option Binary64
  /-- In bytes. -/
  executionMemory : Option Binary64
  /-- What else is recorded with it. -/
  extra : Members Json := []

structure Submission where
  /-- False if it did not compile or was never run. -/
  evaluated : Bool
  evaluations : List Evaluation

namespace Submission

/-- The evaluation that counts for a testcase. -/
def evaluation? (s : Submission) (codename : Text) : Option Evaluation :=
  s.evaluations.reverse.find? fun ev => ev.codename == codename

theorem evaluation?_concat_self (b : Bool) (evs : List Evaluation) (ev : Evaluation) :
    evaluation? ⟨b, evs ++ [ev]⟩ ev.codename = some ev := by
  simp [evaluation?]

theorem evaluation?_concat_of_ne (b : Bool) (evs : List Evaluation) {ev : Evaluation}
    {codename : Text} (h : ev.codename ≠ codename) :
    evaluation? ⟨b, evs ++ [ev]⟩ codename = evaluation? ⟨b, evs⟩ codename := by
  simp [evaluation?, h]

end Submission

end ContestGrading
