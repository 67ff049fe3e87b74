import ContestGrading.Proofs.Decimal.Digits
import ContestGrading.Proofs.Grading.Incomplete
import ContestGrading.Proofs.Grading.OrderIndependence
/-!
# Missing and repeated evaluations

An evaluated submission is graded exactly when no testcase of a subtask is
without an evaluation; otherwise the first such testcase is reported. Of
several evaluations of a testcase only the last one is used, for all that a
result tells of the testcase.

Results:
* `computeScore_latest`: what a later evaluation replaces does not matter.
* `computeScore_eq_error_iff`: the error, and the testcase that it names.
* `missing_reported_last_used`: both for a whole grading.
-/
namespace ContestGrading

namespace ScoreType

open Submission

variable {st : ScoreType} {submission : Submission}

/-- What a later evaluation replaces does not matter. -/
theorem computeScore_latest (st : ScoreType) (submission : Submission) :
    st.computeScore { submission with evaluations := latest submission.evaluations } =
      st.computeScore submission :=
  computeScore_congr rfl rfl rfl rfl fun _ _ codename _ =>
    evaluation?_latest submission.evaluated submission.evaluations codename

/-! ## The testcase that is reported -/

/-- No evaluation is of testcase `j` of subtask `i`, both counted from zero. -/
def MissingAt (st : ScoreType) (submission : Submission) (i j : Nat) (codename : Text) : Prop :=
  ∃ s, st.subtasks[i]? = some s ∧ s.testcases[j]? = some codename ∧ submission.Lacks codename

/-- The first testcase without an evaluation: none of an earlier subtask is,
and none before it in its own. -/
def FirstMissingAt (st : ScoreType) (submission : Submission) (i j : Nat) (codename : Text) :
    Prop :=
  st.MissingAt submission i j codename ∧
    ∀ i' j' codename', st.MissingAt submission i' j' codename' → i < i' ∨ i = i' ∧ j ≤ j'

theorem FirstMissingAt.unique {i j i' j' : Nat} {codename codename' : Text}
    (h : st.FirstMissingAt submission i j codename)
    (h' : st.FirstMissingAt submission i' j' codename') : i = i' ∧ codename = codename' := by
  have hle := h.2 _ _ _ h'.1
  have hge := h'.2 _ _ _ h.1
  obtain ⟨rfl, rfl⟩ : i = i' ∧ j = j' := by omega
  obtain ⟨s, hs, hc, -⟩ := h.1
  obtain ⟨s', hs', hc', -⟩ := h'.1
  cases hs.symm.trans hs'
  exact ⟨rfl, Option.some.inj (hc.symm.trans hc')⟩

theorem not_missingAt_of_covers {i j : Nat} {codename : Text} {s : Subtask}
    {codenames : List Text} (hs : st.subtasks[i]? = some s)
    (hj : s.testcases[j]? = codenames[j]?) (hc : submission.Covers codenames) :
    ¬ st.MissingAt submission i j codename := by
  rintro ⟨s', hs', hcodename, hlacks⟩
  cases hs.symm.trans hs'
  have hsome := hc codename (List.mem_of_getElem? (hj.symm.trans hcodename))
  rw [evaluation?_eq_none_iff.mpr hlacks] at hsome
  cases hsome

/-- Where the grading stops is the first testcase without an evaluation, and
the subtasks before its own are graded. -/
theorem StopsAfter.firstMissingAt {done : List Subtask} {e : IntegrityError}
    (h : st.StopsAfter submission done e) :
    ∃ i j codename, st.FirstMissingAt submission i j codename ∧
      e = .noEvaluation codename (i + 1) ∧ done = st.subtasks.take i := by
  obtain @⟨rest, s, before, after, codename, hsubtasks, hdone, htestcases, hbefore, hmissing⟩ := h
  have hs : st.subtasks[done.length]? = some s := by
    rw [hsubtasks]
    simp
  refine ⟨done.length, before.length, codename, ⟨⟨s, hs, ?_, ?_⟩, ?_⟩, rfl, ?_⟩
  · rw [htestcases]
    simp
  · exact evaluation?_eq_none_iff.mp hmissing
  · intro i' j' codename' h'
    rcases Nat.lt_trichotomy i' done.length with hi | rfl | hi
    · -- all testcases of the subtasks that were graded have evaluations
      obtain ⟨s', hs'⟩ : ∃ s', done[i']? = some s' := ⟨_, List.getElem?_eq_getElem hi⟩
      have hs' : st.subtasks[i']? = some s' := by
        rw [hsubtasks, List.getElem?_append_left hi, ‹done[i']? = some s'›]
      refine absurd h' (not_missingAt_of_covers hs' rfl (hdone s' ?_))
      exact List.mem_of_getElem? ‹done[i']? = some s'›
    · refine .inr ⟨rfl, Nat.le_of_not_lt fun hj => ?_⟩
      refine not_missingAt_of_covers hs ?_ hbefore h'
      rw [htestcases, List.getElem?_append_left hj]
    · exact .inl hi
  · rw [hsubtasks, List.take_left]

theorem complete_iff : st.Complete submission ↔ ¬ ∃ i j codename,
    st.MissingAt submission i j codename := by
  constructor
  · rintro hc ⟨i, j, codename, h⟩
    obtain ⟨s, hs, -⟩ := id h
    exact not_missingAt_of_covers hs rfl (hc s (List.mem_of_getElem? hs)) h
  · intro hnone s hs codename hcodename
    rw [Option.isSome_iff_ne_none]
    intro hmissing
    obtain ⟨i, hi⟩ := List.mem_iff_getElem?.mp hs
    obtain ⟨j, hj⟩ := List.mem_iff_getElem?.mp hcodename
    exact hnone ⟨i, j, codename, s, hi, hj, evaluation?_eq_none_iff.mp hmissing⟩

/-- Grading fails exactly at the first testcase without an evaluation. -/
theorem computeScore_eq_error_iff {e : IntegrityError} :
    st.computeScore submission = .error e ↔
      submission.evaluated = true ∧ ∃ i j codename, st.FirstMissingAt submission i j codename ∧
        e = .noEvaluation codename (i + 1) := by
  constructor
  · intro h
    obtain ⟨he, done, hstops, -⟩ := grade_of_error h
    obtain ⟨i, j, codename, hfirst, heq, -⟩ := hstops.firstMissingAt
    exact ⟨he, i, j, codename, hfirst, heq⟩
  · rintro ⟨he, i, j, codename, hfirst, rfl⟩
    cases h : st.computeScore submission with
    | ok r =>
      have hc := ((computeScore_eq_ok_iff he).mp h).1
      exact absurd ⟨i, j, codename, hfirst.1⟩ (complete_iff.mp hc)
    | error e =>
      obtain ⟨-, done, hstops, -⟩ := grade_of_error h
      obtain ⟨i', j', codename', hfirst', rfl, -⟩ := hstops.firstMissingAt
      obtain ⟨rfl, rfl⟩ := hfirst.unique hfirst'
      rfl

/-! ## The evaluations that are used -/

/-- A detail tells of one evaluation, all that it tells. -/
structure TellsOf (ev : Evaluation) (detail : TestcaseDetail) : Prop where
  codename : detail.codename = ev.codename
  notCorrect : ev.outcome ≤ .zero → detail.outcome = "Not correct"
  correct : .one ≤ ev.outcome → detail.outcome = "Correct"
  partiallyCorrect : ¬ ev.outcome ≤ .zero → ¬ .one ≤ ev.outcome →
    detail.outcome = "Partially correct"
  text : detail.text = ev.text
  time : detail.time = ev.executionTime
  memory : detail.memory = ev.executionMemory

theorem tellsOf_detail (ev : Evaluation) (shown : Bool) :
    TellsOf ev (ev.detail (.classify ev.outcome) shown) where
  codename := rfl
  notCorrect h := congrArg OutcomeLabel.text (if_pos h)
  correct h := by
    have hpos : ¬ ev.outcome ≤ .zero := fun h' => Binary64.not_one_le_zero (Binary64.le_trans h h')
    exact congrArg OutcomeLabel.text ((if_neg hpos).trans (if_pos h))
  partiallyCorrect hpos h := congrArg OutcomeLabel.text ((if_neg hpos).trans (if_neg h))
  text := rfl
  time := rfl
  memory := rfl

/-- Every entry tells of the evaluation in its place. -/
theorem forall₂_tellsOf (isPublic : Text → Bool) (worst : Binary64) (shown : Bool)
    (evaluations : List Evaluation) :
    List.Forall₂ TellsOf evaluations
      (feedbackFrom isPublic .classify worst shown evaluations).testcases := by
  induction evaluations generalizing shown with
  | nil => exact .nil
  | cons ev rest ih => exact .cons (tellsOf_detail ev shown) (ih _)

/-- The error names the testcase and, counted from one, its subtask. -/
theorem message_noEvaluation (codename : Text) (subtask : Nat) :
    (IntegrityError.noEvaluation codename subtask).message =
      ("Testcase " : Text) ++ codename ++ (" of subtask " : Text) ++ (subtask.repr : Text) ++
        (" has no evaluation" : Text) := by
  rw [IntegrityError.message, Decimal.natText_eq]

/-- **Missing evaluations are detected exactly.** Grading fails if and only
if the submission was evaluated and some testcase of a subtask has no
evaluation; the error names the first such testcase and its subtask, and so
does its message. A submission that was not evaluated has one result,
whatever evaluations it has. Of several evaluations of a testcase the last
one alone counts: without those that are replaced the outcome of the grading
is the same, and every subtask is reduced, and each of its testcases told of,
by the last evaluations. -/
theorem missing_reported_last_used (st : ScoreType) (submission : Submission) :
    ((∃ e, st.computeScore submission = .error e) ↔
      submission.evaluated = true ∧ ∃ s ∈ st.subtasks, ∃ codename ∈ s.testcases,
        ∀ ev ∈ submission.evaluations, ev.codename ≠ codename) ∧
    (∀ e, st.computeScore submission = .error e ↔
      submission.evaluated = true ∧ ∃ i j codename, st.FirstMissingAt submission i j codename ∧
        e = .noEvaluation codename (i + 1) ∧
        e.message = ("Testcase " : Text) ++ codename ++ (" of subtask " : Text) ++
          ((i + 1).repr : Text) ++ (" has no evaluation" : Text)) ∧
    (submission.evaluated = false → ∃ r, ∀ evaluations,
      st.computeScore { submission with evaluations } = .ok r) ∧
    ((latest submission.evaluations).map (·.codename)).Nodup ∧
    st.computeScore { submission with evaluations := latest submission.evaluations } =
      st.computeScore submission ∧
    ∀ r, submission.evaluated = true → st.computeScore submission = .ok r →
      ∀ (i : Nat) (s : Subtask), st.subtasks[i]? = some s →
        ∃ (evaluations : List Evaluation) (testcases : List TestcaseDetail),
          List.Forall₂ submission.IsLast s.testcases evaluations ∧
          r.subtasks[i]? = some ⟨.ofNat (i + 1),
            some ⟨st.policy.reduce (evaluations.map (·.outcome)), s.parameter.weight,
              s.parameter.title⟩, testcases.map .detailed⟩ ∧
          r.rankingDetails[i]? = some (scoreText
            (st.policy.reduce (evaluations.map (·.outcome)) * s.parameter.weight)) ∧
          List.Forall₂ TellsOf evaluations testcases := by
  refine ⟨?_, ?_, ?_, nodup_latest _, computeScore_latest st submission, ?_⟩
  · constructor
    · rintro ⟨e, h⟩
      obtain ⟨he, i, j, codename, ⟨⟨s, hs, hcodename, hlacks⟩, -⟩, -⟩ :=
        computeScore_eq_error_iff.mp h
      exact ⟨he, s, List.mem_of_getElem? hs, codename, List.mem_of_getElem? hcodename, hlacks⟩
    · rintro ⟨he, s, hs, codename, hcodename, hlacks⟩
      cases h : st.computeScore submission with
      | error e => exact ⟨e, rfl⟩
      | ok r =>
        have hsome := ((computeScore_eq_ok_iff he).mp h).1 s hs codename hcodename
        rw [evaluation?_eq_none_iff.mpr hlacks] at hsome
        cases hsome
  · intro e
    constructor
    · intro h
      obtain ⟨he, i, j, codename, hfirst, rfl⟩ := computeScore_eq_error_iff.mp h
      exact ⟨he, i, j, codename, hfirst, rfl, message_noEvaluation ..⟩
    · rintro ⟨he, i, j, codename, hfirst, heq, -⟩
      exact computeScore_eq_error_iff.mpr ⟨he, i, j, codename, hfirst, heq⟩
  · intro he
    have hgrade (evaluations : List Evaluation) :=
      @grade_unevaluated st { submission with evaluations } he
    exact ⟨_, fun evaluations => congrArg Grading.outcome (hgrade evaluations)⟩
  · intro r he h i s hs
    obtain ⟨hc, rfl⟩ := (computeScore_eq_ok_iff he).mp h
    have hcovers := hc s (List.mem_of_getElem? hs)
    obtain ⟨hentry, hline⟩ := getElem?_breakdown st submission hs
    rw [scoreOf, fractionOf, ← outcomes_evaluationsFor hcovers] at hline
    exact ⟨_, _, hcovers.forall₂_isLast, hentry, hline, forall₂_tellsOf ..⟩

end ScoreType

end ContestGrading
