import ContestGrading.Proofs.Grading.Labels
/-!
# A subtask as good as its worst testcase

Under the minimum policy the fraction of a subtask is the outcome of one of
its testcases. Labels keep the order of outcomes, those below zero and above
one included, so the status of the subtask is the worst label among its
testcases. The weight plays no part in it.

Results:
* `isWorst_classify_minimum`: the label of the least outcome.
* `minimum_is_worst`: fraction and status of a subtask of a result.
-/
namespace ContestGrading

open Binary64

/-- The label of the least outcome is the worst label. -/
theorem OutcomeLabel.isWorst_classify_minimum {xs : List Binary64} (hn : .nan ∉ xs)
    (hne : xs ≠ []) : (classify (minimum xs)).IsWorst (xs.map classify) := by
  refine ⟨List.mem_map_of_mem (minimum_mem hn hne), fun label hlabel => ?_⟩
  obtain ⟨x, hx, rfl⟩ := List.mem_map.mp hlabel
  exact classify_mono (minimum_le hn hx)

namespace ScoreType

open Submission Rendering

variable {json : Json} {testcases : List Testcase} {st : ScoreType} {submission : Submission}
  {r : ScoreResult} {i : Nat} {s : Subtask}

/-- The fraction is the least of the outcomes, there being some. -/
theorem fractionOf_minimum (submission : Submission)
    (hst : ofPolicy .minimum json testcases = .ok st) (hs : s ∈ st.subtasks) :
    s.testcases.map submission.outcome ≠ [] ∧
      st.fractionOf submission s = minimum (s.testcases.map submission.outcome) := by
  refine ⟨by simpa using (testcases_of_ofPolicy hst hs).1, ?_⟩
  rw [fractionOf, (ofPolicy_eq_ok_iff.mp hst).2.1]
  rfl

/-- **As good as the worst testcase.** Under the minimum policy, with outcomes
of any size but NaN, every subtask of a result has the outcome of one of its
testcases as its fraction, and none of them has a lesser one. Its status is
the worst label of its testcases in every translation, so that it is correct
exactly if all of them are, as the rows in the default translation tell. -/
theorem minimum_is_worst (hst : ofPolicy .minimum json testcases = .ok st)
    (he : submission.evaluated = true)
    (hn : ∀ s ∈ st.subtasks, ∀ codename ∈ s.testcases, submission.outcome codename ≠ .nan)
    (h : st.computeScore submission = .ok r) (hs : st.subtasks[i]? = some s) :
    ∃ fraction details label, IsEntry submission r i s fraction details ∧
      (∃ codename ∈ s.testcases, submission.outcome codename = fraction) ∧
      (∀ codename ∈ s.testcases, fraction ≤ submission.outcome codename) ∧
      r.ShowsStatus i label ∧ label.IsWorst (s.testcases.map submission.label) ∧
      (label = .correct ↔ ∀ detail ∈ details, detail.outcome = "Correct") ∧
      ∀ level, ∃ rows row score, (renderFeedback .default level r.subtasks).outcome = .ok rows ∧
        rows[i]? = some row ∧ row.score = some score ∧
        (score.status = "Correct" ↔ ∀ detail ∈ details, detail.outcome = "Correct") := by
  have hmem := List.mem_of_getElem? hs
  obtain ⟨hne, hfraction⟩ := fractionOf_minimum submission hst hmem
  have hnan : .nan ∉ s.testcases.map submission.outcome := fun hmap => by
    obtain ⟨codename, hc, hnan⟩ := List.mem_map.mp hmap
    exact hn s hmem codename hc hnan
  obtain ⟨details, hentry, hstatus⟩ := exists_entry he h hs
  have hworst := OutcomeLabel.isWorst_classify_minimum hnan hne
  rw [← hfraction, List.map_map] at hworst
  have hcorrect : OutcomeLabel.classify (st.fractionOf submission s) = .correct ↔
      ∀ detail ∈ details, detail.outcome = "Correct" :=
    hworst.eq_correct_iff.trans
      (List.forall_mem_map.trans (hentry.forall_outcome_iff .correct).symm)
  refine ⟨_, details, _, hentry, ?_, fun codename hc => ?_, hstatus, hworst, hcorrect,
    fun level => ?_⟩
  · rw [hfraction]
    exact List.mem_map.mp (minimum_mem hnan hne)
  · rw [hfraction]
    exact minimum_le hnan (List.mem_map_of_mem hc)
  · obtain ⟨rows, row, score, hrows, hrow, hscore, hlabel⟩ := exists_status_default hstatus level
    exact ⟨rows, row, score, hrows, hrow, hscore, (hlabel .correct).trans hcorrect⟩

/-- An outcome above one, a full one and one below zero. -/
theorem minimum_is_worst_fullBut :
    ofPolicy .minimum threeAndOne fourTestcases = .ok (twoSubtasks .minimum) ∧
      (fullBut (.ofNat 2) (-half)).evaluated = true ∧
      (∀ s ∈ (twoSubtasks .minimum).subtasks, ∀ codename ∈ s.testcases,
        (fullBut (.ofNat 2) (-half)).outcome codename ≠ .nan) ∧
      ∃ r s label, (twoSubtasks .minimum).computeScore (fullBut (.ofNat 2) (-half)) = .ok r ∧
        (twoSubtasks .minimum).subtasks[0]? = some s ∧ r.ShowsStatus 0 label ∧
        s.testcases.map (fullBut (.ofNat 2) (-half)).label =
          [.correct, .correct, .notCorrect] ∧ label = .notCorrect := by
  have hst := ofPolicy_twoSubtasks .minimum
  have hn : ∀ s ∈ (twoSubtasks .minimum).subtasks, ∀ codename ∈ s.testcases,
      (fullBut (.ofNat 2) (-half)).outcome codename ≠ .nan := by decide +kernel
  have h : (twoSubtasks .minimum).computeScore (fullBut (.ofNat 2) (-half)) = .ok _ :=
    (computeScore_eq_ok_iff rfl).mpr ⟨complete_fullBut .minimum _ _, rfl⟩
  have hs : (twoSubtasks .minimum).subtasks[0]? = some _ := rfl
  obtain ⟨_, _, label, -, -, -, hstatus, hworst, -⟩ := minimum_is_worst hst rfl hn h hs
  have hlabels : [[97], [98], [99]].map (fullBut (.ofNat 2) (-half)).label =
      [.correct, .correct, .notCorrect] := by decide +kernel
  have hleast : OutcomeLabel.notCorrect.IsWorst [.correct, .correct, .notCorrect] :=
    ⟨by decide, by decide⟩
  exact ⟨hst, rfl, hn, _, _, label, h, hs, hstatus, hlabels, (hlabels ▸ hworst).unique hleast⟩

end ScoreType

end ContestGrading
