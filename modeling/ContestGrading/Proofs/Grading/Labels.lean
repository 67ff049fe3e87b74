import ContestGrading.Proofs.Grading.Columns
import ContestGrading.Proofs.Grading.Missing
/-!
# Labels of testcases and of their subtask

A testcase is labelled from its outcome when it is graded; a subtask gets its
status only when it is rendered, from the fraction that the policy has made of
the outcomes. Here both stand beside the outcomes that they come from.

Results:
* `classify_mono`: a greater outcome has no worse label.
* `exists_entry`: the fraction of a subtask, the labels of its testcases, and
  the status that its rows show.
* `exists_status_default`: its row in the default translation.
-/
namespace ContestGrading

open Binary64

namespace OutcomeLabel

/-- The place of a label, from the worst on. -/
def rank : OutcomeLabel → Nat
  | .notCorrect => 0
  | .partiallyCorrect => 1
  | .correct => 2

/-- One of these labels, and none of them is worse. -/
def IsWorst (label : OutcomeLabel) (labels : List OutcomeLabel) : Prop :=
  label ∈ labels ∧ ∀ other ∈ labels, label.rank ≤ other.rank

variable {x y : Binary64} {label other : OutcomeLabel} {labels : List OutcomeLabel}

theorem rank_injective (h : label.rank = other.rank) : label = other := by
  cases label <;> cases other <;> first | rfl | cases h

theorem text_inj : label.text = other.text ↔ label = other := by
  cases label <;> cases other <;> decide

theorem IsWorst.unique (h : label.IsWorst labels) (h' : other.IsWorst labels) : label = other :=
  rank_injective (Nat.le_antisymm (h.2 other h'.1) (h'.2 label h.1))

/-- The worst label is the best one only if all are. -/
theorem IsWorst.eq_correct_iff (h : label.IsWorst labels) :
    label = .correct ↔ ∀ other ∈ labels, other = .correct := by
  constructor
  · rintro rfl other hother
    have hle : 2 ≤ other.rank := h.2 other hother
    cases other with
    | correct => rfl
    | partiallyCorrect => exact absurd hle (by decide)
    | notCorrect => exact absurd hle (by decide)
  · intro hall
    exact hall label h.1

theorem classify_eq_notCorrect_iff : classify x = .notCorrect ↔ x ≤ zero := by
  unfold classify
  split
  next h => exact iff_of_true rfl h
  next h => split <;> exact iff_of_false nofun h

theorem classify_eq_correct_iff : classify x = .correct ↔ one ≤ x := by
  unfold classify
  split
  next h => exact iff_of_false nofun fun h' => not_one_le_zero (le_trans h' h)
  next =>
    split
    next h => exact iff_of_true rfl h
    next h => exact iff_of_false nofun h

/-- A greater outcome has no worse label. -/
theorem classify_mono (h : x ≤ y) : (classify x).rank ≤ (classify y).rank := by
  cases hx : classify x with
  | notCorrect => exact Nat.zero_le _
  | correct =>
    have hy : classify y = .correct :=
      classify_eq_correct_iff.mpr (le_trans (classify_eq_correct_iff.mp hx) h)
    rw [hy]
  | partiallyCorrect =>
    cases hy : classify y with
    | notCorrect =>
      have hx' : classify x = .notCorrect :=
        classify_eq_notCorrect_iff.mpr (le_trans h (classify_eq_notCorrect_iff.mp hy))
      cases hx.symm.trans hx'
    | partiallyCorrect => exact Nat.le_refl _
    | correct => exact Nat.le_succ _

end OutcomeLabel

/-! ## Subtasks of a result -/

/-- The row of subtask `i` shows this label as its status, whichever of the
two breakdowns is rendered, unless it shows no score at all; in the full one
it does show one. -/
def ScoreResult.ShowsStatus (r : ScoreResult) (i : Nat) (label : OutcomeLabel) : Prop :=
  ∀ tr level rows,
    ((renderFeedback tr level r.subtasks).outcome = .ok rows →
      ∃ row score, rows[i]? = some row ∧ row.score = some score ∧
        score.status = tr.gettext label.text) ∧
    ((renderFeedback tr level r.publicSubtasks).outcome = .ok rows →
      ∃ row, rows[i]? = some row ∧
        ∀ score, row.score = some score → score.status = tr.gettext label.text)

/-- The label of the outcome that counts for a testcase. -/
def Submission.label (submission : Submission) (codename : Text) : OutcomeLabel :=
  .classify (submission.outcome codename)

namespace ScoreType

open Submission Rendering

variable {st : ScoreType} {submission : Submission} {r : ScoreResult} {i : Nat} {s : Subtask}

/-- The entry of subtask `i` in a result: every testcase has an evaluation and
the label of its outcome. -/
structure IsEntry (submission : Submission) (r : ScoreResult) (i : Nat) (s : Subtask)
    (fraction : Binary64) (details : List TestcaseDetail) : Prop where
  covers : submission.Covers s.testcases
  entry : r.subtasks[i]? = some ⟨.ofNat (i + 1),
    some ⟨fraction, s.parameter.weight, s.parameter.title⟩, details.map .detailed⟩
  labels : details.map (·.outcome) =
    s.testcases.map fun codename => (submission.label codename).text

namespace IsEntry

variable {fraction : Binary64} {details : List TestcaseDetail}

/-- The details have a label if the testcases have. -/
theorem forall_outcome_iff (h : IsEntry submission r i s fraction details) (label : OutcomeLabel) :
    (∀ detail ∈ details, detail.outcome = label.text) ↔
      ∀ codename ∈ s.testcases, submission.label codename = label := by
  have hlabels : (∀ t ∈ details.map (·.outcome), t = label.text) ↔
      ∀ t ∈ s.testcases.map fun codename => (submission.label codename).text, t = label.text := by
    rw [h.labels]
  simpa only [List.forall_mem_map, OutcomeLabel.text_inj] using hlabels

theorem exists_outcome_iff (h : IsEntry submission r i s fraction details) (label : OutcomeLabel) :
    (∃ detail ∈ details, detail.outcome = label.text) ↔
      ∃ codename ∈ s.testcases, submission.label codename = label := by
  have hlabels : label.text ∈ details.map (·.outcome) ↔
      label.text ∈ s.testcases.map fun codename => (submission.label codename).text := by
    rw [h.labels]
  simpa only [List.mem_map, OutcomeLabel.text_inj] using hlabels

end IsEntry

theorem labels_feedbackFrom (isPublic : Text → Bool) (classify : Binary64 → OutcomeLabel)
    (worst : Binary64) (shown : Bool) (evaluations : List Evaluation) :
    (feedbackFrom isPublic classify worst shown evaluations).testcases.map (·.outcome) =
      evaluations.map fun ev => (classify ev.outcome).text := by
  induction evaluations generalizing shown with
  | nil => rfl
  | cons ev rest ih => exact congrArg (_ :: ·) (ih _)

/-- The labels in the feedback are those of the outcomes. -/
theorem labels_buildFeedback (evaluations : List Evaluation) (isPublic : Text → Bool)
    (classify : Binary64 → OutcomeLabel) :
    (buildFeedback evaluations isPublic classify).testcases.map (·.outcome) =
      evaluations.map fun ev => (classify ev.outcome).text :=
  labels_feedbackFrom ..

/-- A row shows the label of the fraction that its entry tells of. -/
theorem status_of_isRow {tr : Translation} {level : FeedbackLevel} {entry : SubtaskFeedback}
    {row : RenderedSubtask} (h : IsRow tr level entry row) {score : RenderedScore}
    (hscore : row.score = some score) :
    ∃ told, entry.score = some told ∧
      score.status = tr.gettext (OutcomeLabel.classify told.fraction).text := by
  rw [h.score, Option.map_eq_some_iff] at hscore
  obtain ⟨told, htold, rfl⟩ := hscore
  exact ⟨told, htold, rfl⟩

/-- The entries of one subtask in both breakdowns. -/
theorem getElem?_breakdowns (st : ScoreType) (submission : Submission)
    (hs : st.subtasks[i]? = some s) :
    (st.breakdown submission).subtasks[i]? =
        some (gradedOf st (i + 1) s (submission.evaluationsFor s.testcases)).feedback ∧
      (st.breakdown submission).publicSubtasks[i]? =
        some (gradedOf st (i + 1) s (submission.evaluationsFor s.testcases)).publicFeedback := by
  refine ⟨(getElem?_breakdown st submission hs).1, ?_⟩
  show ((st.gradedFrom submission 1 st.subtasks).map (·.publicFeedback))[i]? = _
  rw [List.getElem?_map, getElem?_gradedFrom, hs, Nat.add_comm]
  rfl

/-- Where an entry of either breakdown tells of a score, it is that of the
fraction. -/
theorem fraction_of_score {number : Nat} {evaluations : List Evaluation} {told : SubtaskScore}
    (h : (gradedOf st number s evaluations).publicFeedback.score = some told) :
    told.fraction = (gradedOf st number s evaluations).fraction := by
  simp only [gradedOf] at h ⊢
  split at h
  · cases h
    rfl
  · cases h

theorem isEntry_breakdown (hcovers : submission.Covers s.testcases)
    (hs : st.subtasks[i]? = some s) :
    IsEntry submission (st.breakdown submission) i s (st.fractionOf submission s)
      (buildFeedback (submission.evaluationsFor s.testcases) st.isPublic
        st.policy.classify).testcases := by
  refine ⟨hcovers, ?_, ?_⟩
  · rw [(getElem?_breakdowns st submission hs).1, ← gradedOf_fraction st (i + 1) hcovers]
    rfl
  · have houtcomes := congrArg (List.map fun x => (OutcomeLabel.classify x).text)
      (outcomes_evaluationsFor hcovers)
    rw [List.map_map, List.map_map] at houtcomes
    rw [labels_buildFeedback]
    exact houtcomes

theorem showsStatus_breakdown (hcovers : submission.Covers s.testcases)
    (hs : st.subtasks[i]? = some s) :
    (st.breakdown submission).ShowsStatus i (.classify (st.fractionOf submission s)) := by
  obtain ⟨hentry, hpublic⟩ := getElem?_breakdowns st submission hs
  have hfraction := gradedOf_fraction st (i + 1) hcovers
  refine fun tr level rows => ⟨fun hrows => ?_, fun hrows => ?_⟩
  · obtain ⟨row, hrow, hparts⟩ := exists_row hrows hentry
    refine ⟨row, _, hrow, hparts.score, ?_⟩
    rw [← hfraction]
    rfl
  · obtain ⟨row, hrow, hparts⟩ := exists_row hrows hpublic
    refine ⟨row, hrow, fun score hscore => ?_⟩
    obtain ⟨told, htold, hstatus⟩ := status_of_isRow hparts hscore
    rw [hstatus, fraction_of_score htold, hfraction]

/-- A subtask of a result: its fraction is what the policy makes of the
outcomes, its status the label of the fraction. -/
theorem exists_entry (he : submission.evaluated = true) (h : st.computeScore submission = .ok r)
    (hs : st.subtasks[i]? = some s) :
    ∃ details, IsEntry submission r i s (st.fractionOf submission s) details ∧
      r.ShowsStatus i (.classify (st.fractionOf submission s)) := by
  obtain ⟨hc, rfl⟩ := (computeScore_eq_ok_iff he).mp h
  have hcovers := hc s (List.mem_of_getElem? hs)
  exact ⟨_, isEntry_breakdown hcovers hs, showsStatus_breakdown hcovers hs⟩

/-- In the default translation the row can be rendered, and the label read. -/
theorem exists_status_default {label : OutcomeLabel} (h : r.ShowsStatus i label)
    (level : FeedbackLevel) :
    ∃ rows row score, (renderFeedback .default level r.subtasks).outcome = .ok rows ∧
      rows[i]? = some row ∧ row.score = some score ∧
      ∀ other : OutcomeLabel, score.status = other.text ↔ label = other := by
  obtain ⟨rows, hrows⟩ := exists_rows_default level r.subtasks
  obtain ⟨row, score, hrow, hscore, hstatus⟩ := (h .default level rows).1 hrows
  refine ⟨rows, row, score, hrows, hrow, hscore, fun other => ?_⟩
  rw [hstatus, Translation.gettext_default, OutcomeLabel.text_inj]

end ScoreType

end ContestGrading
