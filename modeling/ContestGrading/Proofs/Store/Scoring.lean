import ContestGrading.Proofs.Grading.Missing
import ContestGrading.Proofs.Journal
import ContestGrading.Store.Basic
/-!
# The stages of scoring

Scoring a submission reads the dataset, builds its score type, reads the
submission and grades it. The first stage that fails ends it, with its own
error, and no later stage leaves a trace. What the store notes while it reads
stands between the first line of the log and those of the subtasks.

Results:
* `map_subtaskLine`, `tellsProgress_progress`: the lines of the subtasks that
  are graded, and what each tells of.
* `grading_of_error`, `grading_of_ok`: what is left to do once both are read.
* `scoreSubmission_stages`: which stage a scoring ends at, and all that it notes.
-/
namespace ContestGrading

/-- The score type that a dataset asks for. -/
def Dataset.build (data : Dataset) : Except ConfigurationError ScoreType :=
  ScoreType.create data.scoreType (data.parameters.getD .null) data.testcases

namespace Scoring

variable {st : ScoreType} {found : Submission} {submission dataset : Text}

/-! ## The lines of the subtasks -/

/-- The line of a subtask that earns this fraction and score. -/
def progressLine (number : Nat) (fraction score : Binary64) : ScoringNote :=
  .logged .verbose
    (("Subtask " : Text) ++ Decimal.natText number ++ (": fraction " : Text) ++ fraction.toText ++
      (", score " : Text) ++ score.toText)

/-- The lines of these subtasks, counted from one. -/
def progress (st : ScoreType) (found : Submission) (done : List Subtask) : List ScoringNote :=
  done.mapIdx fun i s => progressLine (i + 1) (st.fractionOf found s) (st.scoreOf found s)

/-- The lines tell of these subtasks, counted from one: each of what the
policy makes of the last evaluations of the subtask's testcases. -/
def TellsProgress (st : ScoreType) (found : Submission) (done : List Subtask)
    (lines : List ScoringNote) : Prop :=
  lines.length = done.length ∧ ∀ i s, done[i]? = some s →
    ∃ evaluations, List.Forall₂ found.IsLast s.testcases evaluations ∧
      let fraction := st.policy.reduce (evaluations.map (·.outcome))
      lines[i]? = some (progressLine (i + 1) fraction (fraction * s.parameter.weight))

theorem tellsProgress_progress {done : List Subtask}
    (h : ∀ s ∈ done, found.Covers s.testcases) :
    TellsProgress st found done (progress st found done) := by
  refine ⟨by simp [progress], fun i s hs => ?_⟩
  have hcovers := h s (List.mem_of_getElem? hs)
  refine ⟨_, hcovers.forall₂_isLast, ?_⟩
  rw [progress, List.getElem?_mapIdx, hs, Submission.outcomes_evaluationsFor hcovers]
  rfl

theorem map_subtaskLine {done : List Subtask} (h : ∀ s ∈ done, found.Covers s.testcases) :
    (st.gradedFrom found 1 done).map subtaskLine = progress st found done := by
  unfold progress
  apply List.ext_getElem?
  intro i
  rw [List.getElem?_map, ScoreType.getElem?_gradedFrom, List.getElem?_mapIdx, Nat.add_comm 1 i]
  cases hs : done[i]? with
  | none => rfl
  | some s =>
    have hc := h s (List.mem_of_getElem? hs)
    rw [Option.map_some, Option.map_some, Option.map_some,
      ← ScoreType.gradedOf_fraction st (i + 1) hc, ← ScoreType.gradedOf_score st (i + 1) hc]
    rfl

/-! ## The first line and the last -/

/-- The line that a scoring begins with. -/
def openingLine (submission dataset : Text) : ScoringNote :=
  .logged .verbose (List.flatten ["Scoring submission ", submission, " on dataset ", dataset])

/-- The line of a result: the score among the maximal one, and the same of
the public testcases. -/
def resultLine (submission : Text) (score maxScore publicScore maxPublicScore : Binary64) :
    ScoringNote :=
  .logged .info (List.flatten
    ["Submission ", submission, ": ", score.toText, " / ", maxScore.toText,
      " (public ", publicScore.toText, " / ", maxPublicScore.toText, ")"])

theorem startLine_eq (submission dataset : Text) :
    startLine submission dataset = openingLine submission dataset := by
  simp [startLine, openingLine]

theorem endLine_eq (submission : Text) (max : MaxScores) (r : ScoreResult) :
    endLine submission max r =
      resultLine submission r.score max.maxScore r.publicScore max.maxPublicScore := by
  simp [endLine, resultLine]

/-! ## The last stage -/

/-- What is left to do once the dataset and the submission are read. -/
def grading (submission dataset : Text) (st : ScoreType) (found : Submission) :
    Scoring SubmissionScore := do
  .noteAll ((st.grade found).graded.map subtaskLine)
  let so ← .ofExcept ((st.grade found).outcome.mapError .integrity)
  .note (endLine submission st.maxScores so)
  return ⟨submission, dataset, st.maxScores.maxScore, st.maxScores.maxPublicScore, so⟩

/-- A grading that stops has a line for each subtask before the one with the
first missing evaluation. -/
theorem grading_of_error {e : IntegrityError} (h : st.computeScore found = .error e) :
    found.evaluated = true ∧ ∃ i j codename lines, st.FirstMissingAt found i j codename ∧
      e = .noEvaluation codename (i + 1) ∧ TellsProgress st found (st.subtasks.take i) lines ∧
      grading submission dataset st found = ⟨lines, .error (.integrity e)⟩ := by
  obtain ⟨he, done, hstops, hdone, hgraded⟩ := ScoreType.grade_of_error h
  obtain ⟨i, j, codename, hfirst, heq, rfl⟩ := hstops.firstMissingAt
  refine ⟨he, i, j, codename, _, hfirst, heq, tellsProgress_progress hdone, ?_⟩
  have hfails : (st.grade found).outcome = .error e := h
  rw [← map_subtaskLine hdone, ← hgraded]
  simp [grading, bind, Journal.andThen, Journal.noteAll, Journal.ofExcept, hfails, mapError_error]

/-- A grading with a result has a line for every subtask, or for none if the
submission was not evaluated, and ends with the line of the result. -/
theorem grading_of_ok {r : ScoreResult} (h : st.computeScore found = .ok r) :
    ∃ lines, TellsProgress st found (if found.evaluated then st.subtasks else []) lines ∧
      grading submission dataset st found =
        ⟨lines ++ [endLine submission st.maxScores r],
          .ok ⟨submission, dataset, st.maxScores.maxScore, st.maxScores.maxPublicScore, r⟩⟩ := by
  have hcovers : ∀ s ∈ if found.evaluated then st.subtasks else [], found.Covers s.testcases := by
    cases he : found.evaluated with
    | false => nofun
    | true => exact ((ScoreType.computeScore_eq_ok_iff he).mp h).1
  have hlines : (st.grade found).graded.map subtaskLine =
      progress st found (if found.evaluated then st.subtasks else []) := by
    rw [ScoreType.grade_of_ok h, ← map_subtaskLine hcovers]
    cases found.evaluated <;> rfl
  have hresult : (st.grade found).outcome = .ok r := h
  refine ⟨_, tellsProgress_progress hcovers, ?_⟩
  rw [← hlines]
  simp [grading, bind, Journal.andThen, Journal.noteAll, Journal.note, Journal.ofExcept, hresult,
    mapError_ok, pure, Journal.done]

end Scoring

/-! ## All stages -/

section Stages

open Scoring

variable {store : OutcomeStore} {submission dataset : Text} {notes : List ScoringNote}
  {data : Dataset}

theorem scoreSubmission_of_dataset_ok (h : store.dataset dataset = ⟨notes, .ok data⟩) :
    let rest := (Journal.ofExcept (data.build.mapError .configuration)).andThen fun st =>
      (store.submission submission dataset).andThen (grading submission dataset st)
    scoreSubmission store submission dataset =
      ⟨startLine submission dataset :: notes ++ rest.notes, rest.outcome⟩ := by
  rw [scoreSubmission, h]
  rfl

/-- Without a score type the submission is not read. -/
theorem scoreSubmission_of_build_error (h : store.dataset dataset = ⟨notes, .ok data⟩)
    {e : ConfigurationError} (he : data.build = .error e) :
    scoreSubmission store submission dataset =
      ⟨startLine submission dataset :: notes, .error (.configuration e)⟩ := by
  rw [scoreSubmission_of_dataset_ok h, he]
  simp [Journal.ofExcept, mapError_error, Journal.andThen]

theorem scoreSubmission_of_build_ok (h : store.dataset dataset = ⟨notes, .ok data⟩)
    {st : ScoreType} (hst : data.build = .ok st) :
    let rest := (store.submission submission dataset).andThen (grading submission dataset st)
    scoreSubmission store submission dataset =
      ⟨startLine submission dataset :: notes ++ rest.notes, rest.outcome⟩ := by
  rw [scoreSubmission_of_dataset_ok h, hst]
  simp [Journal.ofExcept, mapError_ok, Journal.andThen]

end Stages

open Scoring in
/-- **The stages of scoring.** An error of the dataset's reading is that of
the scoring, and so is the next one of these: an error of the configuration,
and then the submission is not read, by whatever means; one of the
submission's reading; the first missing evaluation. Otherwise there is the
result of the submission as it was named, with the maximal scores of the same
score type. The log begins with the names of both, goes on with a line for
each subtask that is graded, up to the one with the first missing evaluation,
and ends with the scores just if there is a result. -/
theorem scoreSubmission_stages (store : OutcomeStore) (submission dataset : Text) :
    (∀ notes e, store.dataset dataset = ⟨notes, .error e⟩ → ∀ other,
      scoreSubmission ⟨store.dataset, other⟩ submission dataset =
        ⟨openingLine submission dataset :: notes, .error e⟩) ∧
    ∀ notes data, store.dataset dataset = ⟨notes, .ok data⟩ →
      (∀ e, data.build = .error e → ∀ other,
        scoreSubmission ⟨store.dataset, other⟩ submission dataset =
          ⟨openingLine submission dataset :: notes, .error (.configuration e)⟩) ∧
      ∀ st, data.build = .ok st →
        (∀ notes' e, store.submission submission dataset = ⟨notes', .error e⟩ →
          scoreSubmission store submission dataset =
            ⟨openingLine submission dataset :: notes ++ notes', .error e⟩) ∧
        ∀ notes' found, store.submission submission dataset = ⟨notes', .ok found⟩ →
          (∀ e, st.computeScore found = .error e →
            found.evaluated = true ∧ ∃ i j codename lines,
              st.FirstMissingAt found i j codename ∧ e = .noEvaluation codename (i + 1) ∧
              TellsProgress st found (st.subtasks.take i) lines ∧
              scoreSubmission store submission dataset =
                ⟨openingLine submission dataset :: notes ++ (notes' ++ lines),
                  .error (.integrity e)⟩) ∧
          ∀ r, st.computeScore found = .ok r → ∃ lines,
            TellsProgress st found (if found.evaluated then st.subtasks else []) lines ∧
            scoreSubmission store submission dataset =
              ⟨openingLine submission dataset :: notes ++ (notes' ++ (lines ++
                  [resultLine submission r.score st.maxScores.maxScore r.publicScore
                    st.maxScores.maxPublicScore])),
                .ok ⟨submission, dataset, st.maxScores.maxScore, st.maxScores.maxPublicScore,
                  r⟩⟩ := by
  rw [← startLine_eq]
  refine ⟨?_, ?_⟩
  · intro notes e h other
    exact scoreSubmission_eq_of_dataset_error h
  intro notes data h
  refine ⟨?_, ?_⟩
  · intro e he other
    exact @scoreSubmission_of_build_error ⟨store.dataset, other⟩ submission dataset notes data h
      e he
  intro st hst
  have hrest := @scoreSubmission_of_build_ok store submission dataset notes data h st hst
  refine ⟨?_, ?_⟩
  · intro notes' e hs
    rw [hrest, Journal.andThen_of_error (by rw [hs])]
    rw [hs]
  intro notes' found hs
  rw [hrest, Journal.andThen_of_ok (by rw [hs]), hs]
  refine ⟨?_, ?_⟩
  · intro e he
    obtain ⟨hevaluated, i, j, codename, lines, hfirst, hnamed, hlines, heq⟩ :=
      @grading_of_error st found submission dataset e he
    refine ⟨hevaluated, i, j, codename, lines, hfirst, hnamed, hlines, ?_⟩
    rw [heq]
  · intro r hr
    obtain ⟨lines, hlines, heq⟩ := @grading_of_ok st found submission dataset r hr
    refine ⟨lines, hlines, ?_⟩
    rw [heq, endLine_eq]

/-- The two subtasks over their four testcases, as a dataset. -/
def twoSubtasksDataset : Dataset :=
  ⟨[100], Policy.name .mean, some ScoreType.threeAndOne, ScoreType.fourTestcases⟩

theorem build_twoSubtasksDataset :
    twoSubtasksDataset.build = .ok (ScoreType.twoSubtasks .mean) :=
  ScoreType.create_twoSubtasks .mean

open ScoreType (twoSubtasks fullBut half) in
/-- The whole log of a scoring that has a result. -/
theorem scoreSubmission_stages_fullBut :
    let store : OutcomeStore :=
      ⟨fun _ => .done twoSubtasksDataset, fun _ _ => .done (fullBut half .zero)⟩
    let st := twoSubtasks .mean
    ∃ r, st.computeScore (fullBut half .zero) = .ok r ∧
      (scoreSubmission store [115] [100]).outcome =
        .ok ⟨[115], [100], st.maxScores.maxScore, st.maxScores.maxPublicScore, r⟩ ∧
      (scoreSubmission store [115] [100]).notes =
        [.logged .verbose "Scoring submission s on dataset d",
          .logged .verbose "Subtask 1: fraction 0.5, score 15",
          .logged .verbose "Subtask 2: fraction 1, score 70",
          .logged .info "Submission s: 85 / 100 (public 70 / 70)"] := by
  intro store st
  have hcomplete := ScoreType.complete_fullBut .mean half .zero
  have hr : st.computeScore (fullBut half .zero) = .ok _ :=
    (ScoreType.computeScore_eq_ok_iff rfl).mpr ⟨hcomplete, rfl⟩
  obtain ⟨-, hread⟩ := scoreSubmission_stages store [115] [100]
  obtain ⟨-, hbuilt⟩ := hread [] twoSubtasksDataset rfl
  obtain ⟨-, hfound⟩ := hbuilt st build_twoSubtasksDataset
  obtain ⟨-, hresult⟩ := hfound [] (fullBut half .zero) rfl
  obtain ⟨lines, ⟨hlength, hlines⟩, heq⟩ := hresult _ hr
  refine ⟨_, hr, congrArg Journal.outcome heq, ?_⟩
  obtain ⟨first, second, rfl⟩ := List.length_eq_two.mp (hlength.trans rfl)
  obtain ⟨_, hlast, hfirst⟩ := hlines 0 _ rfl
  obtain ⟨_, hlast', hsecond⟩ := hlines 1 _ rfl
  obtain rfl := Submission.forall₂_isLast_unique hlast
    (hcomplete _ (List.mem_cons_self ..)).forall₂_isLast
  obtain rfl := Submission.forall₂_isLast_unique hlast'
    (hcomplete _ (List.mem_cons_of_mem _ (List.mem_cons_self ..))).forall₂_isLast
  cases hfirst
  cases hsecond
  rw [heq]
  decide +kernel

end ContestGrading
