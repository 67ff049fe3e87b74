import ContestGrading.Store.Database
/-!
# Documents as JSON

How datasets, results and evaluations are written as JSON. Members of an
evaluation that are not known are kept beside it.

Results:
* `measure?_ofMeasure`: a measure that may be missing is read as it is written.
-/
namespace ContestGrading

namespace Json

def number? : Json → Option Binary64
  | .number x => some x
  | _ => none

def string? : Json → Option Text
  | .string t => some t
  | _ => none

def bool? : Json → Option Bool
  | .bool b => some b
  | _ => none

def list? : Json → Option (List Json)
  | .list items => some items
  | _ => none

def members? : Json → Option (Members Json)
  | .object members => some members
  | _ => none

/-- A number that may be missing, written as null. -/
def ofMeasure : Option Binary64 → Json
  | none => .null
  | some x => .number x

/-- A number or null. -/
def measure? : Json → Option (Option Binary64)
  | .null => some none
  | .number x => some (some x)
  | _ => none

theorem measure?_ofMeasure (x : Option Binary64) : measure? (ofMeasure x) = some x := by
  cases x <;> rfl

end Json

namespace Testcase

def ofJson? (value : Json) : Option Testcase := do
  let members ← value.members?
  let codename ← (← members.get? "codename").string?
  let isPublic ← (← members.get? "isPublic").bool?
  return ⟨codename, isPublic⟩

def toJson (tc : Testcase) : Json :=
  .object [("codename", .string tc.codename), ("isPublic", .bool tc.isPublic)]

end Testcase

namespace Evaluation

/-- The keys that are known. -/
def knownKeys : List Text :=
  ["codename", "outcome", "text", "executionTime", "executionMemory"]

def ofJson? (value : Json) : Option Evaluation := do
  let members ← value.members?
  let codename ← (← members.get? "codename").string?
  let outcome ← (← members.get? "outcome").number?
  let text ← members.get? "text"
  let time ← (← members.get? "executionTime").measure?
  let memory ← (← members.get? "executionMemory").measure?
  return {
    codename, outcome, text
    executionTime := time
    executionMemory := memory
    extra := members.filter fun m => !knownKeys.contains m.1 }

/-- The members that are known by name. -/
def knownMembers (ev : Evaluation) : Members Json := [
  ("codename", .string ev.codename),
  ("outcome", .number ev.outcome),
  ("text", ev.text),
  ("executionTime", .ofMeasure ev.executionTime),
  ("executionMemory", .ofMeasure ev.executionMemory)]

def toJson (ev : Evaluation) : Json := .object (ev.knownMembers ++ ev.extra)

end Evaluation

/-- The evaluations of a document, or of a submission. -/
def evaluationsOfJson? (value : Json) : Option (List Evaluation) := do
  (← value.list?).mapM Evaluation.ofJson?

namespace DatasetDocument

def ofJson? (value : Json) : Option DatasetDocument := do
  let members ← value.members?
  let id ← ObjectId.parse? (← (← members.get? "_id").string?)
  let scoreType ← (← members.get? "scoreType").string?
  let testcases ← (← (← members.get? "testcases").list?).mapM Testcase.ofJson?
  return ⟨id, scoreType, members.get? "scoreTypeParameters", testcases⟩

end DatasetDocument

namespace ResultDocument

def ofJson? (value : Json) : Option ResultDocument := do
  let members ← value.members?
  let submission ← ObjectId.parse? (← (← members.get? "submissionId").string?)
  let dataset ← ObjectId.parse? (← (← members.get? "datasetId").string?)
  let evaluations ← evaluationsOfJson? (← members.get? "evaluations")
  return {
    submission, dataset, evaluations
    compilationOutcome := (members.get? "compilationOutcome").bind Json.string?
    evaluationOutcome := (members.get? "evaluationOutcome").bind Json.string? }

end ResultDocument

namespace Database

/-- The documents that are in a collection. -/
def collection (members : Members Json) (key : Text) : List Json :=
  ((members.get? key).bind Json.list?).getD []

/-- The database that an object of two collections describes. -/
def ofJson? (value : Json) : Option Database := do
  let members ← value.members?
  let datasets ← (collection members "dataset").mapM DatasetDocument.ofJson?
  let results ← (collection members "submission_result").mapM ResultDocument.ofJson?
  return ⟨datasets, results⟩

end Database

end ContestGrading
