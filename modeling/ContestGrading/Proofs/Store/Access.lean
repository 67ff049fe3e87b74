import ContestGrading.Proofs.Store.Scoring
import ContestGrading.Store.Database
/-!
# Access to the database

The database is asked by identifiers, and an identifier is written with 24
hexadecimal digits of either case. A text that is none is refused before
anything is asked, so what is asked for depends on the digits alone. Scoring a
submission asks for the dataset and then for the result, as far as it gets.

Results:
* `ObjectId.parse?_eq_some_iff`: which texts write an identifier, and which one.
* `readDataset_valid`, `readSubmission_valid`: what a lookup asks and finds.
* `scoreSubmission_on`: what a scoring asks and finds, by the identifiers alone.
* `scoreSubmission_asks`: how far a scoring gets.
* `access_disciplined`: what reaches the database in any number of calls.
-/
namespace ContestGrading

/-! ## Identifiers -/

namespace Text

theorem isSome_hexValue? {u : UInt16} :
    (hexValue? u).isSome = true ↔
      (48 ≤ u.toNat ∧ u.toNat ≤ 57) ∨ (65 ≤ u.toNat ∧ u.toNat ≤ 70) ∨
        (97 ≤ u.toNat ∧ u.toNat ≤ 102) := by
  unfold hexValue? isDigit
  simp only [Bool.and_eq_true, decide_eq_true_eq, UInt16.le_iff_toNat_le, UInt16.reduceToNat]
  split
  · simp
    omega
  · split
    · simp
      omega
    · split
      · simp
        omega
      · simp
        omega

theorem toNat_lowerUnit (u : UInt16) :
    (lowerUnit u).toNat = if 65 ≤ u.toNat ∧ u.toNat ≤ 90 then u.toNat + 32 else u.toNat := by
  unfold lowerUnit
  simp only [Bool.and_eq_true, decide_eq_true_eq, UInt16.le_iff_toNat_le, UInt16.reduceToNat]
  split
  · simp only [UInt16.toNat_add, UInt16.reduceToNat]
    omega
  · rfl

/-- In lower case the digits of either case, and nothing else, are those of
an identifier. -/
theorem valid_lowerUnit (u : UInt16) :
    (isDigit (lowerUnit u) || (97 ≤ lowerUnit u && lowerUnit u ≤ 102)) = true ↔
      (hexValue? u).isSome = true := by
  rw [isSome_hexValue?]
  unfold isDigit
  simp only [Bool.or_eq_true, Bool.and_eq_true, decide_eq_true_eq, UInt16.le_iff_toNat_le,
    UInt16.reduceToNat, toNat_lowerUnit]
  split
  · omega
  · omega

/-- The texts differ only in the case of their letters. -/
def SameLetters (s t : Text) : Prop := s.map lowerUnit = t.map lowerUnit

end Text

/-- A text that writes an identifier: 24 hexadecimal digits, of either case. -/
def IsId (t : Text) : Prop := t.length = 24 ∧ ∀ u ∈ t, (Text.hexValue? u).isSome = true

/-- The text writes this identifier, which has the same digits in lower case. -/
def Writes (t : Text) (id : ObjectId) : Prop := IsId t ∧ id.hex = t.map Text.lowerUnit

theorem validHex_map_lowerUnit {t : Text} : ValidHex (t.map Text.lowerUnit) ↔ IsId t := by
  unfold ValidHex IsId
  rw [List.length_map, List.all_map, List.all_eq_true]
  apply and_congr_right
  intro
  apply forall₂_congr
  intro u hu
  exact Text.valid_lowerUnit u

namespace ObjectId

theorem parse?_eq_some_iff {t : Text} {id : ObjectId} : parse? t = some id ↔ Writes t id := by
  unfold parse? Writes
  rw [← validHex_map_lowerUnit]
  by_cases h : ValidHex (t.map Text.lowerUnit)
  · rcases id with ⟨hex, hvalid⟩
    simp only [h, dite_true, Option.some.injEq, ObjectId.mk.injEq, true_and]
    exact eq_comm
  · simp [h]

theorem parse?_eq_none_iff {t : Text} : parse? t = none ↔ ¬ IsId t := by
  unfold parse?
  rw [← validHex_map_lowerUnit]
  by_cases h : ValidHex (t.map Text.lowerUnit)
  · simp [h]
  · simp [h]

theorem parse?_congr {s t : Text} (h : s.SameLetters t) : parse? s = parse? t := by
  unfold Text.SameLetters at h
  unfold parse?
  rw [h]

end ObjectId

theorem isId_iff {t : Text} : IsId t ↔ ∃ id, ObjectId.parse? t = some id := by
  rw [← Option.ne_none_iff_exists', ne_eq, ObjectId.parse?_eq_none_iff, not_not]

/-! ## What is asked of the database -/

/-- What reaches the database, of a note: all but the lines of the log. -/
def ScoringNote.database? : ScoringNote → Option ScoringNote
  | .logged .. => none
  | .connected => some .connected
  | .queried query => some (.queried query)
  | .closed => some .closed

/-- What a database is asked for a submission on a dataset. A text that is no
identifier is not asked for, and after a dataset that cannot be scored
against nothing is. -/
inductive Asked (submission dataset : Text) : List Query → Prop where
  | nothing : Asked submission dataset []
  | dataset {d : ObjectId} (hd : ObjectId.parse? dataset = some d) :
    Asked submission dataset [.dataset d]
  | both {d s : ObjectId} (hd : ObjectId.parse? dataset = some d)
    (hs : ObjectId.parse? submission = some s) : Asked submission dataset [.dataset d, .result s d]

namespace Query

/-- The collection that is asked. -/
def collection : Query → Text
  | .dataset _ => "dataset"
  | .result _ _ => "submission_result"

end Query

theorem Asked.collection_prefix {submission dataset : Text} {queries : List Query}
    (h : Asked submission dataset queries) :
    queries.map Query.collection <+: ["dataset", "submission_result"] := by
  cases h with
  | nothing => exact List.nil_prefix
  | dataset hd => exact ⟨[_], rfl⟩
  | both hd hs => exact List.prefix_rfl

/-! ## Lookups -/

/-- The dataset of a document. -/
def DatasetDocument.read (doc : DatasetDocument) : Dataset :=
  ⟨doc.id.hex, doc.scoreType, doc.parameters, doc.testcases⟩

namespace Database

theorem readDataset_valid (db : Database) {text : Text} {d : ObjectId}
    (h : ObjectId.parse? text = some d) :
    db.readDataset text =
      ⟨[.queried (.dataset d)],
        match db.findDataset? d with
        | some doc => .ok doc.read
        | none => .error (.integrity (.noDataset text))⟩ := by
  simp only [readDataset, requireId, h, Journal.bind_eq, Journal.done_andThen]
  cases db.findDataset? d with
  | none => rfl
  | some doc => rfl

theorem readSubmission_valid (db : Database) {submission dataset : Text} {s d : ObjectId}
    (hs : ObjectId.parse? submission = some s) (hd : ObjectId.parse? dataset = some d) :
    db.readSubmission submission dataset =
      ⟨[.queried (.result s d)],
        match db.findResult? s d with
        | some r => .ok (submissionOf r)
        | none => .error (.integrity (.noResult submission dataset))⟩ := by
  simp only [readSubmission, requireId, hs, hd, Journal.bind_eq, Journal.done_andThen]
  cases db.findResult? s d with
  | none => rfl
  | some r => rfl

/-- The submission is judged before the dataset. -/
theorem readSubmission_invalid_dataset (db : Database) {submission dataset : Text} {s : ObjectId}
    (hs : ObjectId.parse? submission = some s) (hd : ObjectId.parse? dataset = none) :
    db.readSubmission submission dataset = .fail (.invalidId .dataset dataset) := by
  simp only [readSubmission, requireId, hs, hd, Journal.bind_eq, Journal.done_andThen]
  rfl

/-- Reading a dataset asks by the identifier that the text writes. -/
theorem readDataset_on (db : Database) (text : Text) :
    (db.readDataset text).notes = ((ObjectId.parse? text).map (.queried <| .dataset ·)).toList ∧
    (db.readDataset text).outcome.toOption =
      ((ObjectId.parse? text).bind db.findDataset?).map DatasetDocument.read := by
  cases hd : ObjectId.parse? text with
  | none =>
    rw [readDataset_invalid db hd]
    exact ⟨rfl, rfl⟩
  | some d =>
    rw [readDataset_valid db hd, Option.bind_some]
    refine ⟨rfl, ?_⟩
    cases db.findDataset? d with
    | none => rfl
    | some doc => rfl

/-- Reading a submission asks by both identifiers, or not at all. -/
theorem readSubmission_on (db : Database) (submission dataset : Text) :
    (db.readSubmission submission dataset).notes =
      ((ObjectId.parse? submission).bind fun s =>
        (ObjectId.parse? dataset).map fun d => .queried (.result s d)).toList ∧
    (db.readSubmission submission dataset).outcome.toOption =
      ((ObjectId.parse? submission).bind fun s =>
        (ObjectId.parse? dataset).bind fun d => db.findResult? s d).map submissionOf := by
  cases hs : ObjectId.parse? submission with
  | none =>
    rw [readSubmission_invalid db dataset hs]
    exact ⟨rfl, rfl⟩
  | some s =>
    cases hd : ObjectId.parse? dataset with
    | none =>
      rw [readSubmission_invalid_dataset db hs hd]
      exact ⟨rfl, rfl⟩
    | some d =>
      rw [readSubmission_valid db hs hd]
      simp only [Option.bind_some]
      refine ⟨rfl, ?_⟩
      cases db.findResult? s d with
      | none => rfl
      | some r => rfl

end Database

/-! ## The scoring of a submission -/

/-- The result as the score of a submission on a dataset with that score type. -/
def ScoreResult.named (so : ScoreResult) (st : ScoreType) (submission dataset : Text) :
    SubmissionScore :=
  ⟨submission, dataset, st.maxScores.maxScore, st.maxScores.maxPublicScore, so⟩

namespace Scoring

/-- Grading what was read asks for nothing more. -/
theorem seen_grading (submission dataset : Text) (st : ScoreType) (found : Submission) :
    (grading submission dataset st found).seen ScoringNote.database? = [] := by
  have hlines : (Journal.noteAll ((st.grade found).graded.map subtaskLine) :
      Scoring Unit).seen ScoringNote.database? = [] := by
    refine List.filterMap_eq_nil_iff.mpr fun note hnote => ?_
    obtain ⟨g, -, rfl⟩ := List.mem_map.mp hnote
    rfl
  refine (Journal.seen_andThen_of_quiet _ fun _ => ?_).trans hlines
  exact Journal.seen_andThen_of_quiet (.ofExcept _) fun so => rfl

/-- A grading ends as the score type computes. -/
theorem outcome_grading_eq (submission dataset : Text) (st : ScoreType) (found : Submission) :
    (grading submission dataset st found).outcome =
      ((st.computeScore found).map fun so => so.named st submission dataset).mapError
        .integrity := by
  cases h : st.computeScore found with
  | error e =>
    obtain ⟨-, i, j, codename, lines, -, -, -, heq⟩ :=
      @grading_of_error st found submission dataset e h
    rw [heq]
    rfl
  | ok so =>
    obtain ⟨lines, -, heq⟩ := @grading_of_ok st found submission dataset so h
    rw [heq]
    rfl

/-- A grading finds what the score type computes. -/
theorem outcome_grading (submission dataset : Text) (st : ScoreType) (found : Submission) :
    (grading submission dataset st found).outcome.toOption =
      (st.computeScore found).toOption.map fun so => so.named st submission dataset := by
  rw [outcome_grading_eq]
  cases st.computeScore found <;> rfl

end Scoring

namespace Database

/-- The score type of the first dataset document with that identifier. -/
def scoreType? (db : Database) (d : ObjectId) : Option ScoreType :=
  (db.findDataset? d).bind fun doc => doc.read.build.toOption

/-- What the scoring of a submission asks for. -/
def scoringQueries (db : Database) : (submission dataset : Option ObjectId) → List Query
  | _, none => []
  | submission, some d =>
    .dataset d :: if (db.scoreType? d).isSome then (submission.map (.result · d)).toList else []

/-- What the scoring of a submission finds: the score type and the result. -/
def scoringResult (db : Database) (submission dataset : Option ObjectId) :
    Option (ScoreType × ScoreResult) := do
  let d ← dataset
  let st ← db.scoreType? d
  let s ← submission
  let r ← db.findResult? s d
  let so ← (st.computeScore (submissionOf r)).toOption
  return (st, so)

theorem scoreType?_eq_some_iff {db : Database} {d : ObjectId} {st : ScoreType} :
    db.scoreType? d = some st ↔
      ∃ doc, db.findDataset? d = some doc ∧ doc.read.build = .ok st := by
  unfold scoreType?
  rw [Option.bind_eq_some_iff]
  apply exists_congr
  intro doc
  cases doc.read.build with
  | error e => simp [Except.toOption]
  | ok st' => simp [Except.toOption]

section Plan

variable {db : Database} {d : ObjectId} {st : ScoreType}

/-- Without a score type nothing is asked after the dataset, or found. -/
theorem scoring_of_none (submission : Option ObjectId) (h : db.scoreType? d = none) :
    db.scoringQueries submission (some d) = [.dataset d] ∧
      db.scoringResult submission (some d) = none := by
  simp [scoringQueries, scoringResult, h]

theorem scoringQueries_of_some (submission : Option ObjectId) (h : db.scoreType? d = some st) :
    db.scoringQueries submission (some d) =
      .dataset d :: (submission.map (.result · d)).toList := by
  simp [scoringQueries, h]

theorem scoringResult_of_some (submission : Option ObjectId) (h : db.scoreType? d = some st) :
    db.scoringResult submission (some d) = (do
      let s ← submission
      let r ← db.findResult? s d
      let so ← (st.computeScore (submissionOf r)).toOption
      return (st, so)) := by
  simp [scoringResult, h]

end Plan

/-- From the reading of the submission on. -/
theorem grading_on (db : Database) {submission dataset : Text} {d : ObjectId} {st : ScoreType}
    (hd : ObjectId.parse? dataset = some d) (hst : db.scoreType? d = some st) :
    let s := ObjectId.parse? submission
    let j := (db.readSubmission submission dataset).andThen (Scoring.grading submission dataset st)
    .queried (.dataset d) :: j.seen ScoringNote.database? =
      (db.scoringQueries s (some d)).map .queried ∧
    j.outcome.toOption =
      (db.scoringResult s (some d)).map fun found => found.2.named found.1 submission dataset := by
  dsimp only
  rw [Journal.seen_andThen_of_quiet _ (Scoring.seen_grading submission dataset st),
    scoringQueries_of_some _ hst, scoringResult_of_some _ hst]
  cases hs : ObjectId.parse? submission with
  | none =>
    rw [readSubmission_invalid db dataset hs]
    exact ⟨rfl, rfl⟩
  | some s =>
    rw [readSubmission_valid db hs hd]
    refine ⟨rfl, ?_⟩
    cases hr : db.findResult? s d with
    | none => simp [Journal.andThen, Except.toOption, hr]
    | some r =>
      rw [Journal.outcome_andThen rfl, Scoring.outcome_grading]
      simp only [Option.bind_eq_bind, Option.bind_some, hr]
      cases (st.computeScore (submissionOf r)).toOption with
      | none => rfl
      | some so => rfl

/-- What a scoring asks and what it finds depends on the identifiers that the
texts write. -/
theorem scoreSubmission_on (db : Database) (submission dataset : Text) :
    let s := ObjectId.parse? submission
    let d := ObjectId.parse? dataset
    (scoreSubmission db.store submission dataset).seen ScoringNote.database? =
      (db.scoringQueries s d).map .queried ∧
    (scoreSubmission db.store submission dataset).outcome.toOption =
      (db.scoringResult s d).map fun found => found.2.named found.1 submission dataset := by
  dsimp only
  cases hd : ObjectId.parse? dataset with
  | none =>
    rw [scoreSubmission_eq_of_dataset_error (readDataset_invalid db hd)]
    exact ⟨rfl, rfl⟩
  | some d =>
    have hread := readDataset_valid db hd
    cases hdoc : db.findDataset? d with
    | none =>
      have hnone : db.scoreType? d = none := by simp [scoreType?, hdoc]
      obtain ⟨hqueries, hresult⟩ := scoring_of_none (ObjectId.parse? submission) hnone
      rw [hdoc] at hread
      rw [scoreSubmission_eq_of_dataset_error hread, hqueries, hresult]
      exact ⟨rfl, rfl⟩
    | some doc =>
      rw [hdoc] at hread
      cases hbuild : doc.read.build with
      | error e =>
        have hnone : db.scoreType? d = none := by
          simp [scoreType?, hdoc, hbuild, Except.toOption]
        obtain ⟨hqueries, hresult⟩ := scoring_of_none (ObjectId.parse? submission) hnone
        rw [scoreSubmission_of_build_error hread hbuild, hqueries, hresult]
        exact ⟨rfl, rfl⟩
      | ok st =>
        have hst : db.scoreType? d = some st := scoreType?_eq_some_iff.mpr ⟨doc, hdoc, hbuild⟩
        rw [scoreSubmission_of_build_ok hread hbuild]
        exact db.grading_on hd hst

/-! ## How far a scoring gets -/

theorem asked_scoringQueries (db : Database) (submission dataset : Text) :
    Asked submission dataset
      (db.scoringQueries (ObjectId.parse? submission) (ObjectId.parse? dataset)) := by
  cases hd : ObjectId.parse? dataset with
  | none => exact .nothing
  | some d =>
    cases hst : db.scoreType? d with
    | none =>
      rw [(scoring_of_none _ hst).1]
      exact .dataset hd
    | some st =>
      rw [scoringQueries_of_some _ hst]
      cases hs : ObjectId.parse? submission with
      | none => exact .dataset hd
      | some s => exact .both hd hs

theorem scoringQueries_eq_nil_iff {db : Database} {s d : Option ObjectId} :
    db.scoringQueries s d = [] ↔ d = none := by
  cases d with
  | none => simp [scoringQueries]
  | some d => simp [scoringQueries]

theorem length_scoringQueries {db : Database} {s d : Option ObjectId} :
    (db.scoringQueries s d).length = 2 ↔
      (∃ id, s = some id) ∧ ∃ id doc st, d = some id ∧
        db.findDataset? id = some doc ∧ doc.read.build = .ok st := by
  cases d with
  | none => simp [scoringQueries]
  | some id =>
    cases hst : db.scoreType? id with
    | none =>
      rw [(scoring_of_none s hst).1]
      constructor
      · intro h
        cases h
      · rintro ⟨-, id', doc, st, hid, hdoc, hbuild⟩
        cases hid
        have hsome := scoreType?_eq_some_iff.mpr ⟨doc, hdoc, hbuild⟩
        cases hst.symm.trans hsome
    | some st =>
      obtain ⟨doc, hdoc, hbuild⟩ := scoreType?_eq_some_iff.mp hst
      rw [scoringQueries_of_some s hst]
      cases s with
      | none => simp
      | some id' =>
        simp only [Option.map_some, Option.toList_some, List.length_cons, List.length_nil, true_iff]
        exact ⟨⟨id', rfl⟩, id, doc, st, rfl, hdoc, hbuild⟩

/-- A score is found only after the result was asked for. -/
theorem length_of_scoringResult {db : Database} {s d : Option ObjectId}
    {found : ScoreType × ScoreResult} (h : db.scoringResult s d = some found) :
    (db.scoringQueries s d).length = 2 := by
  simp only [scoringResult, Option.bind_eq_bind, Option.bind_eq_some_iff] at h
  obtain ⟨id, hd, st, hst, id', hs, -⟩ := h
  obtain ⟨doc, hdoc, hbuild⟩ := scoreType?_eq_some_iff.mp hst
  exact length_scoringQueries.mpr ⟨⟨id', hs⟩, id, doc, st, hd, hdoc, hbuild⟩

end Database

/-- What the scoring asks of the database: nothing but the dataset and the
result, and both if it succeeds. -/
theorem scoreSubmission_asks (db : Database) (submission dataset : Text) :
    ∃ queries, Asked submission dataset queries ∧
      (scoreSubmission db.store submission dataset).seen ScoringNote.database? =
        queries.map .queried ∧
      ∀ found, (scoreSubmission db.store submission dataset).outcome = .ok found →
        queries.length = 2 := by
  obtain ⟨hseen, hresult⟩ := db.scoreSubmission_on submission dataset
  refine ⟨_, db.asked_scoringQueries submission dataset, hseen, ?_⟩
  intro found hfound
  rw [hfound] at hresult
  obtain ⟨result, hresult, -⟩ := Option.map_eq_some_iff.mp hresult.symm
  exact Database.length_of_scoringResult hresult

/-! ## Any number of calls -/

/-- A call to the database, or one that scores a submission with it. -/
inductive StoreCall where
  | readDataset (dataset : Text)
  | readSubmission (submission dataset : Text)
  | score (submission dataset : Text)

/-- What a call replies. -/
inductive StoreReply where
  | dataset (data : Dataset)
  | submission (found : Submission)
  | score (score : SubmissionScore)

namespace StoreCall

def run (db : Database) : StoreCall → Scoring StoreReply
  | .readDataset dataset => do return .dataset (← db.readDataset dataset)
  | .readSubmission submission dataset => do
    return .submission (← db.readSubmission submission dataset)
  | .score submission dataset => do return .score (← scoreSubmission db.store submission dataset)

/-- What a call may ask for: by identifiers, each written by the text that is
given for it. -/
inductive Asks : StoreCall → Query → Prop where
  | dataset {dataset : Text} {d : ObjectId} (hd : Writes dataset d) :
    Asks (.readDataset dataset) (.dataset d)
  | submission {submission dataset : Text} {s d : ObjectId} (hs : Writes submission s)
    (hd : Writes dataset d) : Asks (.readSubmission submission dataset) (.result s d)
  | scoreDataset {submission dataset : Text} {d : ObjectId} (hd : Writes dataset d) :
    Asks (.score submission dataset) (.dataset d)
  | scoreResult {submission dataset : Text} {s d : ObjectId} (hs : Writes submission s)
    (hd : Writes dataset d) : Asks (.score submission dataset) (.result s d)

/-- A scoring asks for what its calls may ask for. -/
theorem asks_of_asked {submission dataset : Text} {queries : List Query} {query : Query}
    (h : Asked submission dataset queries) (hquery : query ∈ queries) :
    (score submission dataset).Asks query := by
  cases h with
  | nothing => cases hquery
  | dataset hd =>
    obtain rfl := List.mem_singleton.mp hquery
    exact .scoreDataset (ObjectId.parse?_eq_some_iff.mp hd)
  | both hd hs =>
    rcases List.mem_cons.mp hquery with rfl | hquery
    · exact .scoreDataset (ObjectId.parse?_eq_some_iff.mp hd)
    · obtain rfl := List.mem_singleton.mp hquery
      exact .scoreResult (ObjectId.parse?_eq_some_iff.mp hs) (ObjectId.parse?_eq_some_iff.mp hd)

/-- What one call asks for. -/
theorem asks_of_queried {db : Database} {call : StoreCall} {query : Query}
    (h : .queried query ∈ (call.run db).notes) : call.Asks query := by
  have hseen : .queried query ∈ (call.run db).seen ScoringNote.database? :=
    List.mem_filterMap.mpr ⟨_, h, rfl⟩
  cases call with
  | readDataset dataset =>
    have hnotes := (db.readDataset_on dataset).1
    rw [run, Journal.bind_eq, Journal.seen_andThen_of_quiet _ fun _ => rfl, Journal.seen,
      hnotes] at hseen
    cases hd : ObjectId.parse? dataset with
    | none => simp [hd] at hseen
    | some d =>
      obtain rfl : query = .dataset d := by simpa [hd, ScoringNote.database?] using hseen
      exact .dataset (ObjectId.parse?_eq_some_iff.mp hd)
  | readSubmission submission dataset =>
    have hnotes := (db.readSubmission_on submission dataset).1
    rw [run, Journal.bind_eq, Journal.seen_andThen_of_quiet _ fun _ => rfl, Journal.seen,
      hnotes] at hseen
    cases hs : ObjectId.parse? submission with
    | none => simp [hs] at hseen
    | some s =>
      cases hd : ObjectId.parse? dataset with
      | none => simp [hs, hd] at hseen
      | some d =>
        obtain rfl : query = .result s d := by simpa [hs, hd, ScoringNote.database?] using hseen
        exact .submission (ObjectId.parse?_eq_some_iff.mp hs) (ObjectId.parse?_eq_some_iff.mp hd)
  | score submission dataset =>
    obtain ⟨queries, hasked, hqueries, -⟩ := scoreSubmission_asks db submission dataset
    rw [run, Journal.bind_eq, Journal.seen_andThen_of_quiet _ fun _ => rfl, hqueries] at hseen
    obtain ⟨query', hquery', heq⟩ := List.mem_map.mp hseen
    cases heq
    exact asks_of_asked hasked hquery'

end StoreCall

namespace Database

/-- One call after the other; one that fails does not keep the next ones back. -/
def session (db : Database) (calls : List StoreCall) :
    Scoring (List (Except ScoringError StoreReply)) :=
  .forEach (fun call => (call.run db).attempt) calls

theorem asks_of_session {db : Database} {calls : List StoreCall} {query : Query}
    (h : .queried query ∈ (db.session calls).notes) : ∃ call ∈ calls, call.Asks query := by
  unfold session at h
  rw [Journal.forEach_attempt] at h
  obtain ⟨call, hcall, hquery⟩ := List.mem_flatMap.mp h
  exact ⟨call, hcall, StoreCall.asks_of_queried hquery⟩

end Database

/-- **The discipline of access.** In any number of calls, all that is asked
for goes by identifiers, in lower case, that were given with 24 hexadecimal
digits, each in its place. A read with a text that is none fails with it and
asks for nothing, the submission being judged first. A scoring asks for the
dataset, just if its identifier is one, and then for the result, just if that
identifier is one too, and the dataset is found and has a score type. Calls
whose texts differ in the case of their letters ask for the same and find the
same, under the names that were given. -/
theorem access_disciplined (db : Database) :
    (∀ calls query, .queried query ∈ (db.session calls).notes → ∃ call ∈ calls, call.Asks query) ∧
    (∀ dataset, ¬ IsId dataset → ∃ e, db.readDataset dataset = .fail e ∧
      e.message = ("Invalid Dataset Id: " : Text) ++ dataset) ∧
    (∀ submission dataset, ¬ IsId submission → ∃ e,
      db.readSubmission submission dataset = .fail e ∧
      e.message = ("Invalid Submission Id: " : Text) ++ submission) ∧
    (∀ submission dataset, IsId submission → ¬ IsId dataset → ∃ e,
      db.readSubmission submission dataset = .fail e ∧
      e.message = ("Invalid Dataset Id: " : Text) ++ dataset) ∧
    (∀ submission dataset, ∃ queries, Asked submission dataset queries ∧
      (scoreSubmission db.store submission dataset).seen ScoringNote.database? =
        queries.map .queried ∧
      (queries = [] ↔ ¬ IsId dataset) ∧
      (queries.length = 2 ↔ IsId submission ∧ ∃ d doc st, Writes dataset d ∧
        db.findDataset? d = some doc ∧ doc.read.build = .ok st)) ∧
    ∀ submission submission' dataset dataset',
      submission.SameLetters submission' → dataset.SameLetters dataset' →
      (db.readDataset dataset).notes = (db.readDataset dataset').notes ∧
      (db.readDataset dataset).outcome.toOption = (db.readDataset dataset').outcome.toOption ∧
      (db.readSubmission submission dataset).notes =
        (db.readSubmission submission' dataset').notes ∧
      (db.readSubmission submission dataset).outcome.toOption =
        (db.readSubmission submission' dataset').outcome.toOption ∧
      (scoreSubmission db.store submission dataset).seen ScoringNote.database? =
        (scoreSubmission db.store submission' dataset').seen ScoringNote.database? ∧
      (scoreSubmission db.store submission' dataset').outcome.toOption =
        (scoreSubmission db.store submission dataset).outcome.toOption.map fun found =>
          { found with submission := submission', dataset := dataset' } := by
  refine ⟨?_, ?_, ?_, ?_, ?_, ?_⟩
  · intro calls query h
    exact Database.asks_of_session h
  · intro dataset h
    exact ⟨_, db.readDataset_invalid (ObjectId.parse?_eq_none_iff.mpr h), rfl⟩
  · intro submission dataset h
    exact ⟨_, db.readSubmission_invalid dataset (ObjectId.parse?_eq_none_iff.mpr h), rfl⟩
  · intro submission dataset hs hd
    obtain ⟨s, hs⟩ := isId_iff.mp hs
    have hd := ObjectId.parse?_eq_none_iff.mpr hd
    exact ⟨_, db.readSubmission_invalid_dataset hs hd, rfl⟩
  · intro submission dataset
    obtain ⟨hseen, -⟩ := db.scoreSubmission_on submission dataset
    refine ⟨_, db.asked_scoringQueries submission dataset, hseen, ?_, ?_⟩
    · rw [Database.scoringQueries_eq_nil_iff, ObjectId.parse?_eq_none_iff]
    · rw [Database.length_scoringQueries]
      simp only [isId_iff, ObjectId.parse?_eq_some_iff]
  · intro submission submission' dataset dataset' hs hd
    have hs := ObjectId.parse?_congr hs
    have hd := ObjectId.parse?_congr hd
    obtain ⟨hnotes, hdata⟩ := db.readDataset_on dataset
    obtain ⟨hnotes', hdata'⟩ := db.readDataset_on dataset'
    obtain ⟨hasks, hfound⟩ := db.readSubmission_on submission dataset
    obtain ⟨hasks', hfound'⟩ := db.readSubmission_on submission' dataset'
    obtain ⟨hseen, hscore⟩ := db.scoreSubmission_on submission dataset
    obtain ⟨hseen', hscore'⟩ := db.scoreSubmission_on submission' dataset'
    rw [hnotes, hnotes', hdata, hdata', hasks, hasks', hfound, hfound', hseen, hseen', hscore,
      hscore', hs, hd, Option.map_map]
    exact ⟨rfl, rfl, rfl, rfl, rfl, rfl⟩

/-- The identifier that has the digit ten throughout. -/
def plainId : ObjectId := ⟨List.replicate 24 97, by decide⟩

/-- The two subtasks as the only document. -/
def twoSubtasksDatabase : Database where
  datasets :=
    [⟨plainId, Policy.name .mean, some ScoreType.threeAndOne, ScoreType.fourTestcases⟩]
  results := []

theorem access_disciplined_twoSubtasks :
    let t : Text := List.replicate 24 65
    ∃ queries, Asked t t queries ∧ queries.length = 2 ∧
      (scoreSubmission twoSubtasksDatabase.store t t).seen ScoringNote.database? =
        queries.map .queried := by
  intro t
  obtain ⟨-, -, -, -, hscoring, -⟩ := access_disciplined twoSubtasksDatabase
  obtain ⟨queries, hasked, hseen, -, hboth⟩ := hscoring t t
  have hdigits : ∀ u ∈ t, (Text.hexValue? u).isSome = true := by
    intro u hu
    rw [List.eq_of_mem_replicate hu]
    rfl
  have hid : Writes t plainId := ⟨⟨rfl, hdigits⟩, rfl⟩
  have hlength := hboth.mpr
    ⟨hid.1, plainId, _, _, hid, rfl, ScoreType.create_twoSubtasks .mean⟩
  exact ⟨queries, hasked, hlength, hseen⟩

end ContestGrading
