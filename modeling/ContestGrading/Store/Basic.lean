import ContestGrading.Journal
import ContestGrading.Grading.ScoreType
/-!
# Stores and the scoring of a submission

A store gives datasets and submissions by their identifiers. Scoring reads
the dataset, builds its score type, reads the submission and grades it; what
is logged and what is asked of a database is noted on the way.

Results:
* `scoreSubmission_eq_of_dataset_error`: without a dataset nothing else is read.
-/
namespace ContestGrading

/-- How much a log line matters. -/
inductive LogLevel where
  | error
  | info
  | verbose
  deriving DecidableEq

namespace LogLevel

def name : LogLevel → Text
  | .error => "error"
  | .info => "info"
  | .verbose => "verbose"

/-- From the most to the least important. -/
def rank : LogLevel → Nat
  | .error => 0
  | .info => 1
  | .verbose => 2

end LogLevel

/-! ## Identifiers -/

/-- Twelve bytes as hexadecimal digits in lower case. -/
def ValidHex (hex : Text) : Prop :=
  hex.length = 24 ∧ hex.all (fun u => Text.isDigit u || (97 ≤ u && u ≤ 102)) = true

instance (hex : Text) : Decidable (ValidHex hex) := inferInstanceAs (Decidable (_ ∧ _))

/-- The identifier of a stored document. -/
structure ObjectId where
  hex : Text
  valid : ValidHex hex
  deriving DecidableEq

/-- The identifier that a text writes, in letters of either case. -/
def ObjectId.parse? (t : Text) : Option ObjectId :=
  let hex := t.map Text.lowerUnit
  if h : ValidHex hex then some ⟨hex, h⟩ else none

/-- What an identifier is meant to identify. -/
inductive Identified where
  | dataset
  | submission
  deriving DecidableEq

/-! ## Notes and errors -/

/-- What a database is asked for. -/
inductive Query where
  | dataset (id : ObjectId)
  | result (submission dataset : ObjectId)
  deriving DecidableEq

/-- What happens while a submission is scored. -/
inductive ScoringNote where
  | logged (level : LogLevel) (message : Text)
  | connected
  | queried (query : Query)
  | closed
  deriving DecidableEq

inductive ScoringError where
  | configuration (error : ConfigurationError)
  | integrity (error : IntegrityError)
  | invalidId (what : Identified) (text : Text)

def ScoringError.message : ScoringError → Text
  | .configuration error => error.message
  | .integrity error => error.message
  | .invalidId .dataset text => ("Invalid Dataset Id: " : Text) ++ text
  | .invalidId .submission text => ("Invalid Submission Id: " : Text) ++ text

/-- A step of scoring. -/
abbrev Scoring := Journal ScoringNote ScoringError

/-! ## Scoring -/

/-- A dataset to score against. -/
structure Dataset where
  id : Text
  scoreType : Text
  /-- Missing parameters are no list, like any other value that is none. -/
  parameters : Option Json
  testcases : List Testcase

/-- Where datasets and submissions come from. -/
structure OutcomeStore where
  dataset : (id : Text) → Scoring Dataset
  submission : (submission dataset : Text) → Scoring Submission

/-- The score of a submission against a dataset. -/
structure SubmissionScore where
  submission : Text
  dataset : Text
  maxScore : Binary64
  maxPublicScore : Binary64
  result : ScoreResult

namespace Scoring

def startLine (submission dataset : Text) : ScoringNote :=
  .logged .verbose
    (("Scoring submission " : Text) ++ submission ++ (" on dataset " : Text) ++ dataset)

def subtaskLine (g : ScoreType.Graded) : ScoringNote :=
  .logged .verbose
    (("Subtask " : Text) ++ Decimal.natText g.number ++ (": fraction " : Text) ++
      g.fraction.toText ++ (", score " : Text) ++ g.score.toText)

def endLine (submission : Text) (max : MaxScores) (so : ScoreResult) : ScoringNote :=
  .logged .info
    (("Submission " : Text) ++ submission ++ (": " : Text) ++ so.score.toText ++
      (" / " : Text) ++ max.maxScore.toText ++ (" (public " : Text) ++ so.publicScore.toText ++
      (" / " : Text) ++ max.maxPublicScore.toText ++ (")" : Text))

end Scoring

open Scoring in
/-- Scores a submission against a dataset, both as the store has them. -/
def scoreSubmission (store : OutcomeStore) (submission dataset : Text) :
    Scoring SubmissionScore := do
  .note (startLine submission dataset)
  let data ← store.dataset dataset
  let scoreType ← .ofExcept
    ((ScoreType.create data.scoreType (data.parameters.getD .null) data.testcases).mapError .configuration)
  let found ← store.submission submission dataset
  let grading := scoreType.grade found
  .noteAll (grading.graded.map subtaskLine)
  let so ← .ofExcept (grading.outcome.mapError .integrity)
  let max := scoreType.maxScores
  .note (endLine submission max so)
  return ⟨submission, dataset, max.maxScore, max.maxPublicScore, so⟩

theorem scoreSubmission_eq_of_dataset_error {store : OutcomeStore} {submission dataset : Text}
    {notes : List ScoringNote} {error : ScoringError}
    (h : store.dataset dataset = ⟨notes, .error error⟩) :
    scoreSubmission store submission dataset =
      ⟨Scoring.startLine submission dataset :: notes, .error error⟩ := by
  simp [scoreSubmission, bind, Journal.andThen, Journal.note, h]

end ContestGrading
