import ContestGrading.Grading.Rendering
import ContestGrading.Proofs.Journal
/-!
# The rows of a breakdown

A breakdown that can be rendered has one row for each subtask, and a row has
its parts from the entry of its subtask: the index, the score, the title and
the testcases.

Results:
* `codename_of_renderTestcase`: the row of a testcase has its codename.
* `renderSubtask_eq_ok_iff`: what the row of a subtask is.
* `renderFeedback_eq_ok_iff`: the rows are those of the subtasks, in order.
-/
namespace ContestGrading

namespace Rendering

variable {tr : Translation} {level : FeedbackLevel}

/-! ## Testcases -/

/-- A detail that is shown is a row with one. -/
theorem renderDetail_ok {d : TestcaseDetail} {row : RenderedTestcase}
    (h : (renderDetail tr d).outcome = .ok row) :
    row.codename = d.codename ∧ row.detail.isSome = true := by
  obtain ⟨_, -, h⟩ := Journal.outcome_andThen_ok h
  obtain ⟨_, -, h⟩ := Journal.outcome_andThen_ok h
  obtain ⟨_, -, h⟩ := Journal.outcome_andThen_ok h
  cases h
  exact ⟨rfl, rfl⟩

theorem codename_of_renderTestcase {t : TestcaseFeedback} {row : RenderedTestcase}
    (h : (renderTestcase tr level t).outcome = .ok row) : row.codename = t.codename := by
  cases t with
  | hidden codename =>
    cases h
    rfl
  | detailed d =>
    rw [renderTestcase] at h
    split at h
    · cases h
      rfl
    · exact (renderDetail_ok h).1

/-! ## Subtasks -/

variable {entry : SubtaskFeedback} {row : RenderedSubtask}

/-- The title of a row: the subtask's own, or its number. -/
def titleOf (tr : Translation) (entry : SubtaskFeedback) : Except TemplateError Text :=
  match entry.score.bind (·.title) with
  | some title => .ok title
  | none => plainTitle tr entry.index

/-- The row is that of the entry. -/
structure IsRow (tr : Translation) (level : FeedbackLevel) (entry : SubtaskFeedback)
    (row : RenderedSubtask) : Prop where
  index : row.index = entry.index
  score : row.score = entry.score.map (renderScore tr)
  title : titleOf tr entry = .ok row.title
  testcases : (Journal.forEach (renderTestcase tr level) entry.testcases).outcome =
    .ok row.testcases

theorem renderSubtask_eq (tr : Translation) (level : FeedbackLevel) (entry : SubtaskFeedback) :
    renderSubtask tr level entry =
      (Journal.forEach (renderTestcase tr level) entry.testcases).andThen fun testcases =>
        (Journal.ofExcept (titleOf tr entry)).andThen fun title =>
          .done ⟨entry.index, title, entry.score.map (renderScore tr), testcases⟩ := by
  unfold renderSubtask titleOf
  cases entry.score.bind (·.title) with
  | none => rfl
  | some title => rfl

theorem renderSubtask_eq_ok_iff :
    (renderSubtask tr level entry).outcome = .ok row ↔ IsRow tr level entry row := by
  rw [renderSubtask_eq]
  constructor
  · intro h
    obtain ⟨testcases, htestcases, h⟩ := Journal.outcome_andThen_ok h
    obtain ⟨title, htitle, h⟩ := Journal.outcome_andThen_ok h
    cases h
    exact ⟨rfl, rfl, htitle, htestcases⟩
  · intro h
    have htitle : (Journal.ofExcept (titleOf tr entry) : Rendering Text).outcome = .ok row.title :=
      h.title
    rw [Journal.outcome_andThen h.testcases, Journal.outcome_andThen htitle, ← h.index, ← h.score]
    rfl

end Rendering

/-- The rows of a breakdown are those of its entries, in order. -/
theorem renderFeedback_eq_ok_iff {tr : Translation} {level : FeedbackLevel}
    {subtasks : List SubtaskFeedback} {rows : List RenderedSubtask} :
    (renderFeedback tr level subtasks).outcome = .ok rows ↔
      List.Forall₂ (Rendering.IsRow tr level) subtasks rows := by
  unfold renderFeedback
  rw [Journal.forEach_eq_ok_iff]
  simp only [Rendering.renderSubtask_eq_ok_iff]

/-- The row at the place of an entry. -/
theorem Rendering.exists_row {tr : Translation} {level : FeedbackLevel}
    {subtasks : List SubtaskFeedback} {rows : List RenderedSubtask}
    (h : (renderFeedback tr level subtasks).outcome = .ok rows) {i : Nat} {entry : SubtaskFeedback}
    (hentry : subtasks[i]? = some entry) :
    ∃ row, rows[i]? = some row ∧ IsRow tr level entry row := by
  have hrows := renderFeedback_eq_ok_iff.mp h
  obtain ⟨hi, rfl⟩ := List.getElem?_eq_some_iff.mp hentry
  have hi' : i < rows.length := hrows.length_eq ▸ hi
  exact ⟨rows[i], List.getElem?_eq_getElem hi', hrows.get hi hi'⟩

/-- A row has a score if the entry of its subtask has. -/
theorem Rendering.isSome_score_of_rows {tr : Translation} {level : FeedbackLevel}
    {subtasks : List SubtaskFeedback} {rows : List RenderedSubtask}
    (h : (renderFeedback tr level subtasks).outcome = .ok rows) :
    rows.map (·.score.isSome) = subtasks.map (·.score.isSome) := by
  refine Journal.map_of_forEach_ok (fun entry row hrow => ?_) h
  rw [(renderSubtask_eq_ok_iff.mp hrow).score, Option.isSome_map]

end ContestGrading
