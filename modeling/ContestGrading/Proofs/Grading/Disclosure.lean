import ContestGrading.Proofs.Grading.PublicView
/-!
# What is disclosed at which level

Restricted feedback shows no more than full feedback, and the public breakdown
no more than the full one: where one of the richer renderings has rows, the
other has the same ones, but for testcases that are cut down to their
codename. No cut down row notes more failures of its status.

Results:
* `Journal.Trims`: a journal that makes less of the same, with fewer notes.
* `renderFeedback_trims`: restricted feedback makes less of every breakdown.
* `renderTestcase_redacted`: so does redaction, of every testcase.
* `disclosure_ordered`: the levels and the breakdowns in order.
-/
namespace ContestGrading

/-! ## Less of the same -/

namespace Journal

variable {ν ε α β γ δ : Type}

/-- Where `j` succeeds, so does `k`, with what `p` makes of the value, and
without other notes. -/
def Trims (p : α → β) (j : Journal ν ε α) (k : Journal ν ε β) : Prop :=
  ∀ a, j.outcome = .ok a → k.outcome = .ok (p a) ∧ k.notes.Sublist j.notes

namespace Trims

theorem refl (j : Journal ν ε α) : Trims id j j := by
  intro a ha
  exact ⟨ha, List.Sublist.refl _⟩

theorem done (p : α → β) (a : α) : Trims p (.done a : Journal ν ε α) (.done (p a)) := by
  intro a' ha
  cases ha
  exact ⟨rfl, List.Sublist.refl _⟩

theorem andThen {p : α → β} {q : γ → δ} {j : Journal ν ε α} {k : Journal ν ε β}
    {f : α → Journal ν ε γ} {g : β → Journal ν ε δ} (h : Trims p j k)
    (hf : ∀ a, Trims q (f a) (g (p a))) : Trims q (j.andThen f) (k.andThen g) := by
  intro c hc
  obtain ⟨a, ha, hc⟩ := outcome_andThen_ok hc
  obtain ⟨hk, hnotes⟩ := h a ha
  obtain ⟨hg, hnotes'⟩ := hf a c hc
  rw [andThen_of_ok ha, andThen_of_ok hk]
  exact ⟨hg, hnotes.append hnotes'⟩

/-- Less of each element is less of the list. -/
theorem forEach {p : α → β → γ} {f : α → Journal ν ε β} {g : α → Journal ν ε γ}
    (h : ∀ a, Trims (p a) (f a) (g a)) (as : List α) :
    Trims (List.zipWith p as) (Journal.forEach f as) (Journal.forEach g as) := by
  induction as with
  | nil => exact done _ []
  | cons a as ih =>
    refine (h a).andThen fun b => ih.andThen fun bs => ?_
    exact done (List.zipWith p (a :: as)) (b :: bs)

end Trims

end Journal

/-! ## Rows that are cut down -/

namespace RenderedTestcase

/-- The codename of the testcase alone. -/
def reduced (row : RenderedTestcase) : RenderedTestcase := ⟨row.codename, none⟩

/-- The row as the public may see it. -/
def redacted (isPublic : Text → Bool) (row : RenderedTestcase) : RenderedTestcase :=
  if isPublic row.codename then row else row.reduced

theorem codename_redacted (isPublic : Text → Bool) (row : RenderedTestcase) :
    (row.redacted isPublic).codename = row.codename := by
  unfold redacted
  split
  · rfl
  · rfl

theorem redacted_of_private {isPublic : Text → Bool} {row : RenderedTestcase}
    (h : isPublic row.codename = false) : row.redacted isPublic = ⟨row.codename, none⟩ := by
  simp [redacted, h, reduced]

end RenderedTestcase

namespace TestcaseFeedback

/-- The testcase has a detail, shown or not. -/
def isDetailed : TestcaseFeedback → Bool
  | .detailed _ => true
  | .hidden _ => false

/-- Restricted feedback keeps the detail of the testcase back. -/
def isKeptBack : TestcaseFeedback → Bool
  | .detailed d => !d.shownRestricted
  | .hidden _ => false

/-- The row of the testcase in restricted feedback. -/
def restrictRow (t : TestcaseFeedback) (row : RenderedTestcase) : RenderedTestcase :=
  if t.isKeptBack then row.reduced else row

end TestcaseFeedback

/-- The row of the subtask in restricted feedback. -/
def SubtaskFeedback.restrictRow (entry : SubtaskFeedback) (row : RenderedSubtask) :
    RenderedSubtask :=
  { row with testcases :=
    List.zipWith TestcaseFeedback.restrictRow entry.testcases row.testcases }

namespace Rendering

open Journal (Trims)

variable {tr : Translation} {level : FeedbackLevel} {t : TestcaseFeedback}

theorem isDetailed_of_renderTestcase {row : RenderedTestcase}
    (h : (renderTestcase tr .full t).outcome = .ok row) : row.detail.isSome = t.isDetailed := by
  cases t with
  | hidden codename =>
    cases h
    rfl
  | detailed d =>
    simp only [renderTestcase, reduceCtorEq, false_and, if_false] at h
    exact (renderDetail_ok h).2

/-- Hiding a testcase reduces its row. -/
theorem renderTestcase_trims_hidden (tr : Translation) (level : FeedbackLevel)
    (t : TestcaseFeedback) :
    Trims (·.reduced) (renderTestcase tr level t) (.done ⟨t.codename, none⟩) := by
  intro row hrow
  refine ⟨?_, List.nil_sublist _⟩
  rw [← codename_of_renderTestcase hrow]
  rfl

theorem renderTestcase_trims (tr : Translation) (t : TestcaseFeedback) :
    Trims t.restrictRow (renderTestcase tr .full t) (renderTestcase tr .restricted t) := by
  cases t with
  | hidden codename => exact .refl _
  | detailed d =>
    cases hd : d.shownRestricted with
    | true =>
      have hrow : (TestcaseFeedback.detailed d).restrictRow = id := by
        funext row
        simp [TestcaseFeedback.restrictRow, TestcaseFeedback.isKeptBack, hd]
      have hsame : renderTestcase tr .restricted (.detailed d) =
          renderTestcase tr .full (.detailed d) := by
        simp [renderTestcase, hd]
      rw [hrow, hsame]
      exact .refl _
    | false =>
      have hrow : (TestcaseFeedback.detailed d).restrictRow = (·.reduced) := by
        funext row
        simp [TestcaseFeedback.restrictRow, TestcaseFeedback.isKeptBack, hd]
      rw [hrow, renderTestcase_restricted tr hd]
      exact renderTestcase_trims_hidden tr .full (.detailed d)

theorem renderSubtask_trims (tr : Translation) (entry : SubtaskFeedback) :
    Trims entry.restrictRow (renderSubtask tr .full entry)
      (renderSubtask tr .restricted entry) := by
  rw [renderSubtask_eq, renderSubtask_eq]
  refine (Trims.forEach (renderTestcase_trims tr) entry.testcases).andThen fun testcases => ?_
  refine (Trims.refl _).andThen fun title => ?_
  exact .done entry.restrictRow ⟨entry.index, title, entry.score.map (renderScore tr), testcases⟩

theorem renderFeedback_trims (tr : Translation) (entries : List SubtaskFeedback) :
    Trims (List.zipWith SubtaskFeedback.restrictRow entries) (renderFeedback tr .full entries)
      (renderFeedback tr .restricted entries) := by
  unfold renderFeedback
  exact .forEach (renderSubtask_trims tr) entries

/-- Redacting a testcase redacts its row. -/
theorem renderTestcase_redacted (tr : Translation) (level : FeedbackLevel)
    (isPublic : Text → Bool) {row : RenderedTestcase}
    (h : (renderTestcase tr level t).outcome = .ok row) :
    (renderTestcase tr level (t.redacted isPublic)).outcome = .ok (row.redacted isPublic) := by
  unfold TestcaseFeedback.redacted RenderedTestcase.redacted
  rw [codename_of_renderTestcase h]
  split
  · exact h
  · exact (renderTestcase_trims_hidden tr level t row h).1

/-- Redacting testcases redacts their rows. -/
theorem forEach_redacted (tr : Translation) (level : FeedbackLevel) (isPublic : Text → Bool)
    {testcases : List TestcaseFeedback} {rows : List RenderedTestcase}
    (h : (Journal.forEach (renderTestcase tr level) testcases).outcome = .ok rows) :
    (Journal.forEach (renderTestcase tr level) (testcases.map (·.redacted isPublic))).outcome =
      .ok (rows.map (·.redacted isPublic)) := by
  rw [Journal.forEach_eq_ok_iff] at h ⊢
  rw [List.forall₂_map_left_iff, List.forall₂_map_right_iff]
  exact h.imp fun t row hrow => renderTestcase_redacted tr level isPublic hrow

/-- The rows of a breakdown in full feedback are those of its entries. -/
theorem testcases_of_rows {entries : List SubtaskFeedback} {rows : List RenderedSubtask}
    (h : (renderFeedback tr .full entries).outcome = .ok rows) :
    List.Forall₂ (fun entry row =>
      row.testcases.map (·.codename) = entry.testcases.map (·.codename) ∧
      row.testcases.map (·.detail.isSome) = entry.testcases.map (·.isDetailed)) entries rows := by
  apply (renderFeedback_eq_ok_iff.mp h).imp
  intro entry row hrow
  constructor
  · exact Journal.map_of_forEach_ok (fun _ _ => codename_of_renderTestcase) hrow.testcases
  · exact Journal.map_of_forEach_ok (fun _ _ => isDetailed_of_renderTestcase) hrow.testcases

end Rendering

/-! ## Both breakdowns -/

namespace ScoreType

open Submission Rendering

variable {st : ScoreType} {submission : Submission}

/-- The rows of the testcases of one subtask, in both breakdowns. -/
theorem testcases_of_isRow {tr : Translation} {level : FeedbackLevel} {number : Nat} {s : Subtask}
    (hc : submission.Covers s.testcases) {row prow : RenderedSubtask}
    (h : IsRow tr level (gradedOf st number s (submission.evaluationsFor s.testcases)).feedback row)
    (hpublic : IsRow tr level
      (gradedOf st number s (submission.evaluationsFor s.testcases)).publicFeedback prow) :
    prow.testcases = row.testcases.map (·.redacted st.isPublic) := by
  have hrows := hpublic.testcases
  rw [testcases_publicFeedback number hc] at hrows
  have hredacted := forEach_redacted tr level st.isPublic h.testcases
  exact Except.ok.inj (hrows.symm.trans hredacted)

/-- The rows of both breakdowns, in either view. -/
theorem rows_of_breakdown {tr : Translation} {level : FeedbackLevel} (number : Nat)
    {subtasks : List Subtask} (hc : ∀ s ∈ subtasks, submission.Covers s.testcases)
    {rows prows : List RenderedSubtask}
    (h : List.Forall₂ (IsRow tr level)
      ((st.gradedFrom submission number subtasks).map (·.feedback)) rows)
    (hpublic : List.Forall₂ (IsRow tr level)
      ((st.gradedFrom submission number subtasks).map (·.publicFeedback)) prows) :
    List.Forall₂ (fun row prow => prow.testcases = row.testcases.map (·.redacted st.isPublic))
      rows prows := by
  induction subtasks generalizing number rows prows with
  | nil =>
    cases h
    cases hpublic
    exact .nil
  | cons s rest ih =>
    rw [gradedFrom_cons, List.map_cons] at h hpublic
    obtain ⟨row, rows, hrow, hrows, rfl⟩ := List.forall₂_cons_left_iff.mp h
    obtain ⟨prow, prows, hprow, hprows, rfl⟩ := List.forall₂_cons_left_iff.mp hpublic
    obtain ⟨hs, hrest⟩ := List.forall_mem_cons.mp hc
    exact .cons (testcases_of_isRow hs hrow hprow) (ih (number + 1) hrest hrows hprows)

/-- **Disclosure is ordered.** A breakdown that has rows in full feedback has
them in restricted feedback, without more failures: the same ones, but that
just the testcases whose detail is kept back are cut down to their codename.
At either level a testcase of the public breakdown has the row that it has in
the full one, or its codename alone, which is all that a private one has. -/
theorem disclosure_ordered {policy : Policy} {json : Json} {testcases : List Testcase}
    (hst : ofPolicy policy json testcases = .ok st) {r : ScoreResult}
    (h : st.computeScore submission = .ok r) (tr : Translation) :
    (∀ entries rows, (renderFeedback tr .full entries).outcome = .ok rows →
      (renderFeedback tr .restricted entries).outcome =
        .ok (List.zipWith SubtaskFeedback.restrictRow entries rows) ∧
      (renderFeedback tr .restricted entries).notes.Sublist
        (renderFeedback tr .full entries).notes ∧
      List.Forall₂ (fun entry row =>
        row.testcases.map (·.codename) = entry.testcases.map (·.codename) ∧
        row.testcases.map (·.detail.isSome) = entry.testcases.map (·.isDetailed)) entries rows) ∧
    ∀ level rows prows, (renderFeedback tr level r.subtasks).outcome = .ok rows →
      (renderFeedback tr level r.publicSubtasks).outcome = .ok prows →
      List.Forall₂ (fun row prow =>
        prow.testcases = row.testcases.map (·.redacted (isPublicIn testcases)) ∧
        ∀ tc ∈ testcases, tc.isPublic = false → ∀ t ∈ prow.testcases,
          t.codename = tc.codename → t = ⟨tc.codename, none⟩) rows prows := by
  refine ⟨?_, ?_⟩
  · intro entries rows hrows
    obtain ⟨hrestricted, hnotes⟩ := renderFeedback_trims tr entries rows hrows
    exact ⟨hrestricted, hnotes, testcases_of_rows hrows⟩
  intro level rows prows hrows hprows
  have hredacted : List.Forall₂ (fun row prow =>
      prow.testcases = row.testcases.map (·.redacted (isPublicIn testcases))) rows prows := by
    cases he : submission.evaluated with
    | false =>
      rw [computeScore, grade_unevaluated st he] at h
      cases h
      cases hrows
      cases hprows
      exact .nil
    | true =>
      obtain ⟨hc, rfl⟩ := (computeScore_eq_ok_iff he).mp h
      rw [← isPublic_of_ofPolicy hst]
      exact rows_of_breakdown 1 hc (renderFeedback_eq_ok_iff.mp hrows)
        (renderFeedback_eq_ok_iff.mp hprows)
  apply hredacted.imp
  intro row prow heq
  refine ⟨heq, ?_⟩
  intro tc htc hprivate t ht hname
  rw [heq] at ht
  obtain ⟨u, -, rfl⟩ := List.mem_map.mp ht
  rw [RenderedTestcase.codename_redacted] at hname
  have hhidden := isPublicIn_of_private hst htc hprivate
  rw [← hname] at hhidden ⊢
  exact RenderedTestcase.redacted_of_private hhidden

theorem disclosure_ordered_fullBut :
    ∃ r, ofPolicy .mean threeAndOne fourTestcases = .ok (twoSubtasks .mean) ∧
      (twoSubtasks .mean).computeScore (fullBut half .zero) = .ok r ∧
      ∀ rows, (renderFeedback .default .full r.subtasks).outcome = .ok rows →
        (renderFeedback .default .restricted r.subtasks).outcome =
          .ok (List.zipWith SubtaskFeedback.restrictRow r.subtasks rows) := by
  have hst := ofPolicy_twoSubtasks .mean
  have h : (twoSubtasks .mean).computeScore (fullBut half .zero) = .ok _ :=
    (computeScore_eq_ok_iff rfl).mpr ⟨complete_fullBut .mean half .zero, rfl⟩
  obtain ⟨hlevels, -⟩ := disclosure_ordered hst h .default
  refine ⟨_, hst, h, ?_⟩
  intro rows hrows
  exact (hlevels _ rows hrows).1

end ScoreType

end ContestGrading
