import ContestGrading.Grading.Policy
import ContestGrading.Grading.Submission
/-!
# Feedback on the testcases of a subtask

The full feedback details every testcase; the public one keeps the detail of
the public testcases only. In restricted feedback a detail is shown only
while no earlier public testcase of the subtask had the worst outcome, so
that a hidden failure shows nowhere.

Results:
* `length_feedbackFrom`: both lists have one entry per evaluation.
-/
namespace ContestGrading

/-- What is known of a testcase that was run. -/
structure TestcaseDetail where
  codename : Text
  outcome : Text
  text : Json
  time : Option Binary64
  memory : Option Binary64
  /-- The detail is shown in restricted feedback. -/
  shownRestricted : Bool

/-- A testcase as it appears in a breakdown. -/
inductive TestcaseFeedback where
  | detailed (detail : TestcaseDetail)
  | hidden (codename : Text)

namespace TestcaseFeedback

def codename : TestcaseFeedback → Text
  | .detailed d => d.codename
  | .hidden codename => codename

end TestcaseFeedback

/-- The detail of an evaluation. -/
def Evaluation.detail (ev : Evaluation) (label : OutcomeLabel) (shown : Bool) : TestcaseDetail :=
  ⟨ev.codename, label.text, ev.text, ev.executionTime, ev.executionMemory, shown⟩

/-- The full and the public feedback on a subtask's testcases. -/
structure Feedback where
  testcases : List TestcaseDetail
  publicTestcases : List TestcaseFeedback

/-- The feedback on the evaluations to come. `shown` tells whether no public
testcase so far had the outcome `worst`, or a lesser one. -/
def feedbackFrom (isPublic : Text → Bool) (classify : Binary64 → OutcomeLabel)
    (worst : Binary64) : (shown : Bool) → List Evaluation → Feedback
  | _, [] => ⟨[], []⟩
  | shown, ev :: rest =>
    let detail := ev.detail (classify ev.outcome) shown
    let visible := isPublic ev.codename
    let others :=
      feedbackFrom isPublic classify worst (shown && !(visible && ev.outcome ≤ worst)) rest
    ⟨detail :: others.testcases,
      (if visible then .detailed detail else .hidden ev.codename) :: others.publicTestcases⟩

/-- The feedback on the evaluations of a subtask, in their order. -/
def buildFeedback (evaluations : List Evaluation) (isPublic : Text → Bool)
    (classify : Binary64 → OutcomeLabel) : Feedback :=
  feedbackFrom isPublic classify (.minimum (evaluations.map (·.outcome))) true evaluations

theorem length_feedbackFrom (isPublic : Text → Bool) (classify : Binary64 → OutcomeLabel)
    (worst : Binary64) (shown : Bool) (evaluations : List Evaluation) :
    (feedbackFrom isPublic classify worst shown evaluations).testcases.length =
        evaluations.length ∧
      (feedbackFrom isPublic classify worst shown evaluations).publicTestcases.length =
        evaluations.length := by
  induction evaluations generalizing shown with
  | nil => exact ⟨rfl, rfl⟩
  | cons ev rest ih => simp [feedbackFrom, ih]

end ContestGrading
