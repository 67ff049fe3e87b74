import ContestGrading.Grading.Rendering
import ContestGrading.Store.Documents
/-!
# Results as JSON

How breakdowns, results and rows are written as JSON, member by member in
their order. What is missing has no member.

Results:
* `toJson_hidden`: of a hidden testcase only its codename is written.
-/
namespace ContestGrading

/-- An object's only member, to be put beside others. -/
def Members.single (key : Text) (value : Json) : Members Json := [(key, value)]

open Members (single)

namespace TestcaseDetail

def toJson (d : TestcaseDetail) : Json :=
  .object [
    ("idx", .string d.codename),
    ("outcome", .string d.outcome),
    ("text", d.text),
    ("time", .ofMeasure d.time),
    ("memory", .ofMeasure d.memory),
    ("show_in_restricted_feedback", .bool d.shownRestricted)]

end TestcaseDetail

namespace TestcaseFeedback

def toJson : TestcaseFeedback → Json
  | .detailed d => d.toJson
  | .hidden codename => .object [("idx", .string codename)]

theorem toJson_hidden (codename : Text) :
    toJson (.hidden codename) = .object [("idx", .string codename)] := rfl

end TestcaseFeedback

namespace SubtaskFeedback

/-- The members that tell the score. -/
def scoreMembers (s : SubtaskScore) : Members Json :=
  [("score_fraction", .number s.fraction), ("max_score", .number s.maxScore)]

/-- The member that tells the title, if there is one. -/
def titleMembers (s : SubtaskScore) : Members Json :=
  s.title.toList.map fun title => ("alt_title", .string title)

def toJson (s : SubtaskFeedback) : Json :=
  .object (single "idx" (.number s.index) ++ s.score.elim [] scoreMembers ++
    single "testcases" (.list (s.testcases.map TestcaseFeedback.toJson)) ++
    s.score.elim [] titleMembers)

end SubtaskFeedback

namespace ScoreResult

def toMembers (r : ScoreResult) : Members Json := [
  ("score", .number r.score),
  ("subtasks", .list (r.subtasks.map SubtaskFeedback.toJson)),
  ("publicScore", .number r.publicScore),
  ("publicSubtasks", .list (r.publicSubtasks.map SubtaskFeedback.toJson)),
  ("rankingDetails", .list (r.rankingDetails.map .string))]

end ScoreResult

namespace SubmissionScore

def toMembers (s : SubmissionScore) : Members Json :=
  single "submissionId" (.string s.submission) ++ single "datasetId" (.string s.dataset) ++
    single "maxScore" (.number s.maxScore) ++
    single "maxPublicScore" (.number s.maxPublicScore) ++ s.result.toMembers

end SubmissionScore

namespace RenderedTestcase

/-- A member whose value may be missing. -/
def optional (key : Text) (value : Option Text) : Members Json :=
  value.toList.map fun t => (key, .string t)

def detailMembers (d : RenderedDetail) : Members Json :=
  single "outcome" (.string d.outcome) ++ single "text" (.string d.text) ++
    optional "time" d.time ++ optional "memory" d.memory

def toJson (tc : RenderedTestcase) : Json :=
  .object (single "idx" (.string tc.codename) ++ tc.detail.elim [] detailMembers)

end RenderedTestcase

namespace RenderedSubtask

def scoreMembers (s : RenderedScore) : Members Json :=
  [("score", .string s.score), ("status", .string s.status)]

def toJson (s : RenderedSubtask) : Json :=
  .object (single "idx" (.number s.index) ++ single "title" (.string s.title) ++
    s.score.elim [] scoreMembers ++
    single "testcases" (.list (s.testcases.map RenderedTestcase.toJson)))

end RenderedSubtask

end ContestGrading
