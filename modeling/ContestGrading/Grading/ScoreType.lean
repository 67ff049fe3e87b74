import ContestGrading.Decimal.General
import ContestGrading.Grading.Feedback
import ContestGrading.Grading.Targets
/-!
# Score types

A score type grades submissions subtask by subtask. Its maximal scores add
up the weights; grading a submission gives a full breakdown, a public one,
in which a subtask with a private testcase has no score, and a line for the
ranking.

Results:
* `grade_unevaluated`: what was not evaluated scores nothing.
* `evaluationsOf_ok`: a graded subtask has an evaluation for every testcase.
-/
namespace ContestGrading

/-- Stored data that does not fit the configuration it is scored against. -/
inductive IntegrityError where
  | noEvaluation (codename : Text) (subtask : Nat)
  | noDataset (dataset : Text)
  | noResult (submission dataset : Text)
  /-- What a store finds on its own account. -/
  | reported (finding : Text)
  deriving DecidableEq

def IntegrityError.message : IntegrityError → Text
  | .noEvaluation codename subtask =>
    ("Testcase " : Text) ++ codename ++ (" of subtask " : Text) ++ Decimal.natText subtask ++
      (" has no evaluation" : Text)
  | .noDataset dataset => ("Can not find dataset " : Text) ++ dataset
  | .noResult submission dataset =>
    ("Can not find result of submission " : Text) ++ submission ++ (" on dataset " : Text) ++
      dataset
  | .reported finding => finding

/-! ## Results -/

/-- The score of a subtask as far as a breakdown tells it. -/
structure SubtaskScore where
  /-- Kept as a fraction, so that a subtask of weight zero can be correct. -/
  fraction : Binary64
  maxScore : Binary64
  title : Option Text

/-- A subtask in a breakdown; without a score if it is not to be told. -/
structure SubtaskFeedback where
  index : Binary64
  score : Option SubtaskScore
  testcases : List TestcaseFeedback

structure ScoreResult where
  score : Binary64
  subtasks : List SubtaskFeedback
  publicScore : Binary64
  publicSubtasks : List SubtaskFeedback
  rankingDetails : List Text

structure MaxScores where
  maxScore : Binary64
  maxPublicScore : Binary64
  headers : List Text

/-! ## Score types -/

/-- A subtask with its testcases. -/
structure Subtask where
  parameter : Parameter
  testcases : List Text

structure ScoreType where
  policy : Policy
  testcases : List Testcase
  subtasks : List Subtask

namespace ScoreType

/-- The score type of a policy, with these parameters and testcases. -/
def ofPolicy (policy : Policy) (parameters : Json) (testcases : List Testcase) :
    Except ConfigurationError ScoreType := do
  let parameters ← Parameter.parse parameters
  let codenames := testcases.map (·.codename)
  if ¬ codenames.Nodup then .error .duplicateCodenames
  else
    let targets ← Targets.resolve (parameters.map (·.target)) codenames
    return ⟨policy, testcases, List.zipWith Subtask.mk parameters targets⟩

/-- The score type of that name. -/
def create (name : Text) (parameters : Json) (testcases : List Testcase) :
    Except ConfigurationError ScoreType :=
  match Policy.ofName? name with
  | none => .error (.unknownScoreType name)
  | some policy => ofPolicy policy parameters testcases

def parameters (st : ScoreType) : List Parameter := st.subtasks.map (·.parameter)

def targets (st : ScoreType) : List (List Text) := st.subtasks.map (·.testcases)

/-- A testcase that is known and public. -/
def isPublic (st : ScoreType) (codename : Text) : Bool :=
  (st.testcases.find? fun tc => tc.codename == codename).any (·.isPublic)

/-- All testcases of the subtask are public. -/
def isFullyPublic (st : ScoreType) (s : Subtask) : Bool := s.testcases.all st.isPublic

/-! ## Maximal scores -/

/-- The heading of a subtask's column in the ranking. -/
def header (number : Nat) (p : Parameter) : Text :=
  p.title.getD (("Subtask " : Text) ++ Decimal.natText number) ++ (" (" : Text) ++
    scoreText p.weight ++ (")" : Text)

/-- The maximal scores once the subtasks to come are added. -/
def addMaxScores (st : ScoreType) (number : Nat) (so : MaxScores) : List Subtask → MaxScores
  | [] => so
  | s :: rest =>
    addMaxScores st (number + 1)
      { maxScore := so.maxScore + s.parameter.weight
        maxPublicScore :=
          if st.isFullyPublic s then so.maxPublicScore + s.parameter.weight
          else so.maxPublicScore
        headers := so.headers ++ [header number s.parameter] }
      rest

def maxScores (st : ScoreType) : MaxScores := addMaxScores st 1 ⟨.zero, .zero, []⟩ st.subtasks

/-! ## Grading -/

/-- A subtask that has been graded. -/
structure Graded where
  number : Nat
  fraction : Binary64
  score : Binary64
  fullyPublic : Bool
  feedback : SubtaskFeedback
  publicFeedback : SubtaskFeedback

/-- The evaluations of the testcases of a subtask, in their order. -/
def evaluationsOf (submission : Submission) (number : Nat) :
    List Text → Except IntegrityError (List Evaluation)
  | [] => .ok []
  | codename :: rest =>
    match submission.evaluation? codename with
    | none => .error (.noEvaluation codename number)
    | some ev => (evaluationsOf submission number rest).map (ev :: ·)

/-- The grading of a subtask from its evaluations. -/
def gradedOf (st : ScoreType) (number : Nat) (s : Subtask) (evaluations : List Evaluation) :
    Graded :=
  let feedback := buildFeedback evaluations st.isPublic st.policy.classify
  let fraction := st.policy.reduce (evaluations.map (·.outcome))
  let entry : SubtaskFeedback :=
    { index := .ofNat number
      score := some ⟨fraction, s.parameter.weight, s.parameter.title⟩
      testcases := feedback.testcases.map .detailed }
  { number
    fraction
    score := fraction * s.parameter.weight
    fullyPublic := st.isFullyPublic s
    feedback := entry
    publicFeedback :=
      if st.isFullyPublic s then entry else ⟨.ofNat number, none, feedback.publicTestcases⟩ }

/-- The subtasks to come that can be graded, and the error at the first that
can not. -/
def gradeFrom (st : ScoreType) (submission : Submission) (number : Nat) :
    List Subtask → List Graded × Option IntegrityError
  | [] => ([], none)
  | s :: rest =>
    match evaluationsOf submission number s.testcases with
    | .error error => ([], some error)
    | .ok evaluations =>
      let (graded, error) := gradeFrom st submission (number + 1) rest
      (gradedOf st number s evaluations :: graded, error)

/-- The result before any subtask. -/
def noResult : ScoreResult := ⟨.zero, [], .zero, [], []⟩

/-- The result with one more subtask. -/
def record (so : ScoreResult) (g : Graded) : ScoreResult :=
  { score := so.score + g.score
    subtasks := so.subtasks ++ [g.feedback]
    publicScore := if g.fullyPublic then so.publicScore + g.score else so.publicScore
    publicSubtasks := so.publicSubtasks ++ [g.publicFeedback]
    rankingDetails := so.rankingDetails ++ [scoreText g.score] }

/-- A grading: the subtasks graded, and the result unless one of them can
not be. -/
structure Grading where
  graded : List Graded
  outcome : Except IntegrityError ScoreResult

/-- Grades a submission. -/
def grade (st : ScoreType) (submission : Submission) : Grading :=
  if !submission.evaluated then
    ⟨[], .ok { noResult with rankingDetails := st.subtasks.map fun _ => scoreText .zero }⟩
  else
    match gradeFrom st submission 1 st.subtasks with
    | (graded, some error) => ⟨graded, .error error⟩
    | (graded, none) => ⟨graded, .ok (graded.foldl record noResult)⟩

/-- The result of a submission. -/
def computeScore (st : ScoreType) (submission : Submission) :
    Except IntegrityError ScoreResult :=
  (st.grade submission).outcome

theorem grade_unevaluated (st : ScoreType) {submission : Submission}
    (h : submission.evaluated = false) :
    st.grade submission =
      ⟨[], .ok { noResult with rankingDetails := st.subtasks.map fun _ => scoreText .zero }⟩ := by
  simp [grade, h]

theorem evaluationsOf_ok {submission : Submission} {number : Nat} {codenames : List Text}
    {evaluations : List Evaluation}
    (h : evaluationsOf submission number codenames = .ok evaluations) :
    evaluations.length = codenames.length := by
  induction codenames generalizing evaluations with
  | nil => cases h; rfl
  | cons codename rest ih =>
    unfold evaluationsOf at h
    split at h
    next => cases h
    next ev hev =>
      cases hr : evaluationsOf submission number rest with
      | error e => rw [hr] at h; cases h
      | ok evs => rw [hr] at h; cases h; simp [ih hr]

end ScoreType

end ContestGrading
