import ContestGrading.Journal
import ContestGrading.Grading.ScoreType
import ContestGrading.Grading.StatusText
import ContestGrading.Locale.Measure
/-!
# Rendering a breakdown

A breakdown, full or public, is turned into rows for display. Testcases
whose detail is hidden, or not shown in restricted feedback, keep their
codename alone. A malformed status is noted and does not stop the
rendering; a translated template that cannot be filled does.

Results:
* `renderTestcase_hidden`: a hidden testcase shows its codename alone.
* `renderTestcase_restricted`: so does a detail that is not shown.
-/
namespace ContestGrading

/-- How much of a breakdown is shown. -/
inductive FeedbackLevel where
  | full
  | restricted
  deriving DecidableEq

/-- Unless more is asked for, the feedback is restricted. -/
def FeedbackLevel.default : FeedbackLevel := .restricted

/-- What a row tells of a testcase beside its codename. -/
structure RenderedDetail where
  outcome : Text
  text : Text
  time : Option Text
  memory : Option Text

structure RenderedTestcase where
  codename : Text
  detail : Option RenderedDetail

/-- What a row tells of a subtask's score. -/
structure RenderedScore where
  score : Text
  status : Text

structure RenderedSubtask where
  index : Binary64
  title : Text
  score : Option RenderedScore
  testcases : List RenderedTestcase

/-- A rendering: the statuses that failed are noted. -/
abbrev Rendering := Journal StatusError TemplateError

namespace Rendering

/-- A measure that may be missing. -/
def measure (text : Binary64 → Except TemplateError Text) :
    Option Binary64 → Rendering (Option Text)
  | none => .done none
  | some x => .ofExcept ((text x).map some)

/-- The row of a detail that is shown. -/
def renderDetail (tr : Translation) (d : TestcaseDetail) : Rendering RenderedTestcase := do
  let line := statusLine tr d.text
  .noteAll line.failure.toList
  let time ← measure (durationText tr) d.time
  let memory ← measure (sizeText tr) d.memory
  return ⟨d.codename, some ⟨tr.gettext d.outcome, line.text, time, memory⟩⟩

/-- The row of a testcase. -/
def renderTestcase (tr : Translation) (level : FeedbackLevel) :
    TestcaseFeedback → Rendering RenderedTestcase
  | .hidden codename => .done ⟨codename, none⟩
  | .detailed d =>
    if level = .restricted ∧ d.shownRestricted = false then .done ⟨d.codename, none⟩
    else renderDetail tr d

/-- The title of a subtask without one of its own. -/
def plainTitle (tr : Translation) (index : Binary64) : Except TemplateError Text :=
  Template.format (tr.gettext "Subtask %d") [.number index]

/-- The score and status of a subtask. -/
def renderScore (tr : Translation) (s : SubtaskScore) : RenderedScore :=
  { score := scoreText (s.fraction * s.maxScore) ++ (" / " : Text) ++ scoreText s.maxScore
    status := tr.gettext (OutcomeLabel.classify s.fraction).text }

/-- The row of a subtask. -/
def renderSubtask (tr : Translation) (level : FeedbackLevel) (s : SubtaskFeedback) :
    Rendering RenderedSubtask := do
  let testcases ← .forEach (renderTestcase tr level) s.testcases
  let title ←
    match s.score.bind (·.title) with
    | some title => .done title
    | none => .ofExcept (plainTitle tr s.index)
  return ⟨s.index, title, s.score.map (renderScore tr), testcases⟩

end Rendering

/-- The rows of a breakdown. -/
def renderFeedback (tr : Translation) (level : FeedbackLevel) (subtasks : List SubtaskFeedback) :
    Rendering (List RenderedSubtask) :=
  .forEach (Rendering.renderSubtask tr level) subtasks

namespace Rendering

theorem renderTestcase_hidden (tr : Translation) (level : FeedbackLevel) (codename : Text) :
    renderTestcase tr level (.hidden codename) = .done ⟨codename, none⟩ := rfl

theorem renderTestcase_restricted (tr : Translation) {d : TestcaseDetail}
    (h : d.shownRestricted = false) :
    renderTestcase tr .restricted (.detailed d) = .done ⟨d.codename, none⟩ := by
  simp [renderTestcase, h]

end Rendering

end ContestGrading
