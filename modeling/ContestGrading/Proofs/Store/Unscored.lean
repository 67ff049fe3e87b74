import ContestGrading.Proofs.Store.Access
/-!
# Results that are not scored

A result document tells how the compilation and how the evaluation ended. A
submission that did not compile is not to be scored, and neither is one that
was not run: it earns nothing, and each subtask has a zero in the ranking.
The documents are read by the outcome of the evaluation alone. So this holds
while a failed compilation leaves no evaluation that ended well behind, and
is lost when one from an earlier run is still there.

Results:
* `computeScore_of_not_evaluated`: what is not evaluated earns nothing.
* `outcome_scoreSubmission`: the outcome, once everything is read.
* `unscored_iff`: which results are not scored, and when these are all that
  should not be.
-/
namespace ContestGrading

/-- What earns nothing: no breakdown, and a zero for each subtask in the
ranking. -/
def ScoreType.unscored (st : ScoreType) : ScoreResult :=
  ⟨.zero, [], .zero, [], List.replicate st.subtasks.length "0"⟩

namespace ScoreType

theorem computeScore_of_not_evaluated (st : ScoreType) {submission : Submission}
    (h : submission.evaluated = false) : st.computeScore submission = .ok st.unscored := by
  rw [computeScore, grade_unevaluated st h, scoreText_zero, List.map_const']
  rfl

/-- An evaluated submission has a breakdown as long as the subtasks. -/
theorem computeScore_ne_unscored {st : ScoreType} (hs : st.subtasks ≠ [])
    {submission : Submission} (h : submission.evaluated = true) :
    st.computeScore submission ≠ .ok st.unscored := by
  intro hr
  obtain ⟨-, hr⟩ := (computeScore_eq_ok_iff h).mp hr
  have hlength : ([] : List SubtaskFeedback).length = _ :=
    congrArg (fun r => r.subtasks.length) hr
  rw [breakdown, List.length_map, gradedFrom, List.length_mapIdx] at hlength
  exact hs (List.length_eq_zero_iff.mp hlength.symm)

/-- Without subtasks there is nothing to earn. -/
theorem computeScore_of_no_subtasks {st : ScoreType} (hs : st.subtasks = [])
    (submission : Submission) : st.computeScore submission = .ok st.unscored := by
  cases h : submission.evaluated with
  | false => exact st.computeScore_of_not_evaluated h
  | true =>
    refine (computeScore_eq_ok_iff h).mpr ⟨?_, ?_⟩
    · intro s hmem
      rw [hs] at hmem
      cases hmem
    · simp [unscored, breakdown, hs, gradedFrom, Binary64.sum]

/-- A submission earns nothing without a breakdown just if it was not
evaluated, or there are no subtasks. -/
theorem computeScore_eq_unscored_iff {st : ScoreType} {submission : Submission} :
    st.computeScore submission = .ok st.unscored ↔
      submission.evaluated = false ∨ st.subtasks = [] := by
  constructor
  · intro h
    by_contra hno
    rw [not_or, Bool.not_eq_false] at hno
    exact computeScore_ne_unscored hno.2 hno.1 h
  · rintro (h | h)
    · exact st.computeScore_of_not_evaluated h
    · exact computeScore_of_no_subtasks h submission

end ScoreType

/-- The submission compiled, and was run to the end. -/
def ResultDocument.Succeeded (r : ResultDocument) : Prop :=
  r.compilationOutcome = some "ok" ∧ r.evaluationOutcome = some "ok"

namespace Database

/-- All that a scoring reads is there: the score type of the dataset and the
result of the submission. -/
def Reads (db : Database) (submission dataset : Text) (st : ScoreType) (r : ResultDocument) :
    Prop :=
  ∃ s d, Writes submission s ∧ Writes dataset d ∧ db.scoreType? d = some st ∧
    db.findResult? s d = some r

theorem evaluated_submissionOf {r : ResultDocument} :
    (submissionOf r).evaluated = true ↔ r.evaluationOutcome = some "ok" := beq_iff_eq

section Outcome

variable {db : Database} {submission dataset : Text} {st : ScoreType} {r : ResultDocument}

/-- The outcome is that of grading the result that was read. -/
theorem outcome_scoreSubmission (h : db.Reads submission dataset st r) :
    (scoreSubmission db.store submission dataset).outcome =
      ((st.computeScore (submissionOf r)).map fun so => so.named st submission dataset).mapError
        .integrity := by
  obtain ⟨s, d, hs, hd, hst, hr⟩ := h
  have hs := ObjectId.parse?_eq_some_iff.mpr hs
  have hd := ObjectId.parse?_eq_some_iff.mpr hd
  obtain ⟨doc, hdoc, hbuild⟩ := scoreType?_eq_some_iff.mp hst
  have hread : db.store.dataset dataset = ⟨[.queried (.dataset d)], .ok doc.read⟩ := by
    simp only [store, readDataset_valid db hd, hdoc]
  have hfound : (db.store.submission submission dataset).outcome = .ok (submissionOf r) := by
    simp only [store, readSubmission_valid db hs hd, hr]
  rw [scoreSubmission_of_build_ok hread hbuild]
  exact (Journal.outcome_andThen hfound _).trans (Scoring.outcome_grading_eq ..)

theorem outcome_eq_ok_iff (h : db.Reads submission dataset st r) {so : ScoreResult} :
    (scoreSubmission db.store submission dataset).outcome = .ok (so.named st submission dataset) ↔
      st.computeScore (submissionOf r) = .ok so := by
  rw [outcome_scoreSubmission h]
  cases st.computeScore (submissionOf r) with
  | error e => simp [Except.map, mapError_error]
  | ok so' => simp [Except.map, mapError_ok, ScoreResult.named]

end Outcome

end Database

/-- **Results that are not scored.** A result whose evaluation did not end
well, or never ended, earns nothing and never fails, whatever evaluations it
holds. One whose evaluation ended well is graded by its evaluations, however
its compilation ended, and, unless there are no subtasks, does not come to the
same. So the results that should not be scored, those that did not compile or
were not run, are not scored, but for those that did not compile and still
hold an evaluation that ended well. -/
theorem Database.unscored_iff {db : Database} {submission dataset : Text} {st : ScoreType}
    {r : ResultDocument} (h : db.Reads submission dataset st r) :
    let outcome := (scoreSubmission db.store submission dataset).outcome
    (r.evaluationOutcome ≠ some "ok" → outcome = .ok (st.unscored.named st submission dataset)) ∧
    (r.evaluationOutcome = some "ok" → ∀ so,
      (outcome = .ok (so.named st submission dataset) ↔
        st.Complete ⟨true, r.evaluations⟩ ∧ so = st.breakdown ⟨true, r.evaluations⟩)) ∧
    (outcome = .ok (st.unscored.named st submission dataset) ↔
      r.evaluationOutcome ≠ some "ok" ∨ st.subtasks = []) ∧
    ((¬ r.Succeeded → outcome = .ok (st.unscored.named st submission dataset)) ↔
      ¬ (r.compilationOutcome ≠ some "ok" ∧ r.evaluationOutcome = some "ok" ∧
        st.subtasks ≠ [])) := by
  intro outcome
  have hunscored : outcome = .ok (st.unscored.named st submission dataset) ↔
      r.evaluationOutcome ≠ some "ok" ∨ st.subtasks = [] := by
    rw [outcome_eq_ok_iff h, ScoreType.computeScore_eq_unscored_iff, ← Bool.not_eq_true,
      evaluated_submissionOf]
  refine ⟨?_, ?_, hunscored, ?_⟩
  · intro hno
    exact hunscored.mpr (.inl hno)
  · intro hok so
    have hfound : submissionOf r = ⟨true, r.evaluations⟩ := by
      rw [← evaluated_submissionOf.mpr hok]
      rfl
    rw [outcome_eq_ok_iff h, hfound]
    exact ScoreType.computeScore_eq_ok_iff rfl
  · rw [hunscored, ResultDocument.Succeeded]
    tauto

/-- The two subtasks, and a result that did not compile, with evaluations from
before and this outcome of them. -/
def resubmittedDatabase (evaluationOutcome : Option Text) : Database where
  datasets := twoSubtasksDatabase.datasets
  results :=
    [⟨plainId, plainId, some "fail", evaluationOutcome,
      (ScoreType.fullBut .one .one).evaluations⟩]

theorem reads_resubmittedDatabase (evaluationOutcome : Option Text) :
    (resubmittedDatabase evaluationOutcome).Reads plainId.hex plainId.hex
      (ScoreType.twoSubtasks .mean)
      ⟨plainId, plainId, some "fail", evaluationOutcome,
        (ScoreType.fullBut .one .one).evaluations⟩ := by
  have hid : Writes plainId.hex plainId := ObjectId.parse?_eq_some_iff.mp (by decide)
  exact ⟨plainId, plainId, hid, hid,
    Database.scoreType?_eq_some_iff.mpr ⟨_, rfl, ScoreType.create_twoSubtasks .mean⟩, rfl⟩

theorem Database.unscored_iff_notRun :
    let st := ScoreType.twoSubtasks .mean
    (resubmittedDatabase none).Reads plainId.hex plainId.hex st
        ⟨plainId, plainId, some "fail", none, (ScoreType.fullBut .one .one).evaluations⟩ ∧
      (scoreSubmission (resubmittedDatabase none).store plainId.hex plainId.hex).outcome =
        .ok (st.unscored.named st plainId.hex plainId.hex) := by
  intro st
  have hreads := reads_resubmittedDatabase none
  obtain ⟨hunscored, -⟩ := Database.unscored_iff hreads
  exact ⟨hreads, hunscored nofun⟩

/-- A submission that did not compile is given the full score of an earlier
run. -/
theorem Database.uncompiled_is_scored :
    let st := ScoreType.twoSubtasks .mean
    let r : ResultDocument :=
      ⟨plainId, plainId, some "fail", some "ok", (ScoreType.fullBut .one .one).evaluations⟩
    (resubmittedDatabase (some "ok")).Reads plainId.hex plainId.hex st r ∧
      ¬ r.Succeeded ∧
      ∃ found, (scoreSubmission (resubmittedDatabase (some "ok")).store plainId.hex
          plainId.hex).outcome = .ok found ∧
        found.result.score = .ofNat 100 ∧ found.result ≠ st.unscored := by
  intro st r
  have hreads := reads_resubmittedDatabase (some "ok")
  have hgraded : st.computeScore (submissionOf r) = .ok _ :=
    (ScoreType.computeScore_eq_ok_iff rfl).mpr ⟨ScoreType.complete_fullBut .mean .one .one, rfl⟩
  refine ⟨hreads, ?_, _, (Database.outcome_eq_ok_iff hreads).mpr hgraded, ?_, ?_⟩
  · rintro ⟨hcompiled, -⟩
    exact absurd hcompiled (by decide)
  · show (st.breakdown (ScoreType.fullBut .one .one)).score = _
    decide +kernel
  · intro heq
    have hsubtasks : st.subtasks ≠ [] := List.cons_ne_nil _ _
    exact ScoreType.computeScore_ne_unscored hsubtasks rfl (hgraded.trans (congrArg _ heq))

end ContestGrading
