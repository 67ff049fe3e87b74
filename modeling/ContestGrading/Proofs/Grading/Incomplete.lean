import ContestGrading.Proofs.Grading.Breakdown
/-!
# Gradings that stop

The subtasks are graded in their order, and the testcases of each are looked
up in theirs. At the first testcase without an evaluation the grading stops:
what was graded until then stays, and that testcase is reported.

Results:
* `evaluationsOf_error`: the testcase of a subtask that is reported.
* `gradeFrom_error`: the subtasks that are graded until then.
* `grade_of_ok`, `grade_of_error`: what a whole grading leaves.
-/
namespace ContestGrading.ScoreType

open Submission

variable {st : ScoreType} {submission : Submission}

/-- The grading stops behind the subtasks `done`: all their testcases have
evaluations, and so have those of the next subtask up to the one reported. -/
inductive StopsAfter (st : ScoreType) (submission : Submission) :
    List Subtask → IntegrityError → Prop where
  | intro {done rest : List Subtask} {s : Subtask} {before after : List Text} {codename : Text}
    (subtasks : st.subtasks = done ++ s :: rest)
    (graded : ∀ t ∈ done, submission.Covers t.testcases)
    (testcases : s.testcases = before ++ codename :: after)
    (found : submission.Covers before)
    (missing : submission.evaluation? codename = none) :
    StopsAfter st submission done (.noEvaluation codename (done.length + 1))

/-- The first testcase without an evaluation is reported. -/
theorem evaluationsOf_error {number : Nat} {codenames : List Text} {e : IntegrityError}
    (h : evaluationsOf submission number codenames = .error e) :
    ∃ before codename after, codenames = before ++ codename :: after ∧
      submission.Covers before ∧ submission.evaluation? codename = none ∧
      e = .noEvaluation codename number := by
  induction codenames with
  | nil => cases h
  | cons codename rest ih =>
    unfold evaluationsOf at h
    cases hev : submission.evaluation? codename with
    | none =>
      rw [hev] at h
      cases h
      exact ⟨[], codename, rest, rfl, by simp [Submission.Covers], hev, rfl⟩
    | some ev =>
      rw [hev] at h
      obtain ⟨before, missing, after, rfl, hbefore, hmissing, he⟩ := ih (map_eq_error_iff.mp h)
      exact ⟨codename :: before, missing, after, rfl, Covers.cons hev hbefore, hmissing, he⟩

/-- Every subtask before the one that cannot be graded is graded. -/
theorem gradeFrom_error {number : Nat} {subtasks : List Subtask} {graded : List Graded}
    {e : IntegrityError} (h : st.gradeFrom submission number subtasks = (graded, some e)) :
    ∃ done s rest, subtasks = done ++ s :: rest ∧ (∀ t ∈ done, submission.Covers t.testcases) ∧
      evaluationsOf submission (number + done.length) s.testcases = .error e ∧
      graded = st.gradedFrom submission number done := by
  induction subtasks generalizing number graded with
  | nil => cases h
  | cons s rest ih =>
    unfold gradeFrom at h
    cases hev : evaluationsOf submission number s.testcases with
    | error e' =>
      rw [hev] at h
      cases h
      exact ⟨[], s, rest, rfl, by simp, hev, rfl⟩
    | ok evaluations =>
      obtain ⟨hs, rfl⟩ := evaluationsOf_eq_ok_iff.mp hev
      rw [hev] at h
      obtain ⟨hgraded, herror⟩ := Prod.mk.inj h
      obtain ⟨done, next, rest', rfl, hdone, hnext, heq⟩ := ih (Prod.ext rfl herror)
      refine ⟨s :: done, next, rest', rfl, List.forall_mem_cons.mpr ⟨hs, hdone⟩, ?_, ?_⟩
      · rw [← hnext, List.length_cons]
        congr 1
        omega
      · rw [gradedFrom_cons, ← hgraded]
        exact congrArg _ heq

/-- A grading with a result has graded every subtask, and none of a
submission that was not evaluated. -/
theorem grade_of_ok {r : ScoreResult} (h : st.computeScore submission = .ok r) :
    (st.grade submission).graded =
      if submission.evaluated then st.gradedFrom submission 1 st.subtasks else [] := by
  cases he : submission.evaluated with
  | false =>
    rw [grade_unevaluated st he]
    rfl
  | true =>
    obtain ⟨hc, -⟩ := (computeScore_eq_ok_iff he).mp h
    simp only [grade, he, Bool.not_true, Bool.false_eq_true, if_false, if_true]
    rw [gradeFrom_eq_iff.mpr ⟨hc, rfl⟩]

/-- A grading without a result is one of an evaluated submission, and has
graded the subtasks behind which it stops. -/
theorem grade_of_error {e : IntegrityError} (h : st.computeScore submission = .error e) :
    submission.evaluated = true ∧ ∃ done, st.StopsAfter submission done e ∧
      (∀ t ∈ done, submission.Covers t.testcases) ∧
      (st.grade submission).graded = st.gradedFrom submission 1 done := by
  cases he : submission.evaluated with
  | false =>
    rw [computeScore, grade_unevaluated st he] at h
    cases h
  | true =>
    simp only [computeScore, grade, he, Bool.not_true, Bool.false_eq_true, if_false] at h ⊢
    cases hg : st.gradeFrom submission 1 st.subtasks with
    | mk graded error =>
      rw [hg] at h
      cases error with
      | none => cases h
      | some e' =>
        cases h
        obtain ⟨done, s, rest, hsubtasks, hdone, hs, hgraded⟩ := gradeFrom_error hg
        obtain ⟨before, codename, after, htestcases, hbefore, hmissing, rfl⟩ :=
          evaluationsOf_error hs
        refine ⟨trivial, done, ?_, hdone, hgraded⟩
        rw [Nat.add_comm]
        exact .intro hsubtasks hdone htestcases hbefore hmissing

end ContestGrading.ScoreType
