import ContestGrading.Store.Basic
/-!
# The document database

Datasets and results are documents under identifiers of 24 hexadecimal
digits. A lookup takes the first document that fits; an identifier that is
not well formed is refused before the database is asked. A result counts as
evaluated when the document says that the evaluation ended well.

Results:
* `readDataset_invalid`, `readSubmission_invalid`: a refused identifier asks nothing.
-/
namespace ContestGrading

structure DatasetDocument where
  id : ObjectId
  scoreType : Text
  parameters : Option Json
  testcases : List Testcase

structure ResultDocument where
  submission : ObjectId
  dataset : ObjectId
  compilationOutcome : Option Text
  evaluationOutcome : Option Text
  evaluations : List Evaluation

/-- The documents of the two collections, in their order. -/
structure Database where
  datasets : List DatasetDocument
  results : List ResultDocument

namespace Database

/-- The identifier that a text writes; other texts are refused. -/
def requireId (what : Identified) (text : Text) : Scoring ObjectId :=
  match ObjectId.parse? text with
  | some id => .done id
  | none => .fail (.invalidId what text)

/-- The first dataset document with that identifier. -/
def findDataset? (db : Database) (id : ObjectId) : Option DatasetDocument :=
  db.datasets.find? fun d => d.id = id

/-- The first result document of that submission on that dataset. -/
def findResult? (db : Database) (submission dataset : ObjectId) : Option ResultDocument :=
  db.results.find? fun r => r.submission = submission ∧ r.dataset = dataset

def successText : Text := "ok"

/-- A result document as a submission. -/
def submissionOf (r : ResultDocument) : Submission :=
  ⟨r.evaluationOutcome == some successText, r.evaluations⟩

def readDataset (db : Database) (text : Text) : Scoring Dataset := do
  let id ← requireId .dataset text
  .note (.queried (.dataset id))
  match db.findDataset? id with
  | some d => .done ⟨d.id.hex, d.scoreType, d.parameters, d.testcases⟩
  | none => .fail (.integrity (.noDataset text))

def readSubmission (db : Database) (submission dataset : Text) : Scoring Submission := do
  let submissionId ← requireId .submission submission
  let datasetId ← requireId .dataset dataset
  .note (.queried (.result submissionId datasetId))
  match db.findResult? submissionId datasetId with
  | some r => .done (submissionOf r)
  | none => .fail (.integrity (.noResult submission dataset))

/-- The database as a store. -/
def store (db : Database) : OutcomeStore := ⟨db.readDataset, db.readSubmission⟩

theorem readDataset_invalid (db : Database) {text : Text} (h : ObjectId.parse? text = none) :
    db.readDataset text = .fail (.invalidId .dataset text) := by
  simp [readDataset, requireId, h, bind, Journal.andThen, Journal.fail]

theorem readSubmission_invalid (db : Database) {submission : Text} (dataset : Text)
    (h : ObjectId.parse? submission = none) :
    db.readSubmission submission dataset = .fail (.invalidId .submission submission) := by
  simp [readSubmission, requireId, h, bind, Journal.andThen, Journal.fail]

end Database

end ContestGrading
