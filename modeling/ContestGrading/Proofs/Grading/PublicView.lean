import ContestGrading.Proofs.Grading.Noninterference
/-!
# The public view of a submission

The public breakdown is the full one without what private testcases would
tell: a subtask with a private testcase has no score, and a private testcase
is its codename alone. But for the flags, what is left depends on the public
testcases only, and so does the public score.

Results:
* `publicFeedback_eq_redacted`: the public entry of one subtask.
* `publicSubtasks_eq_redacted`: the public breakdown is the full one, redacted.
* `publicView_congr`: submissions that do alike on the public testcases have
  the same public score and, in full view, the same rows.
-/
namespace ContestGrading

/-! ## Redaction -/

/-- The testcase as the public may see it: a private one is its codename alone. -/
def TestcaseFeedback.redacted (isPublic : Text → Bool) (t : TestcaseFeedback) :
    TestcaseFeedback :=
  if isPublic t.codename then t else .hidden t.codename

/-- The entry of a subtask with these testcases as the public may see it:
unless all of them are public, it has no score. -/
def SubtaskFeedback.redacted (isPublic : Text → Bool) (codenames : List Text)
    (entry : SubtaskFeedback) : SubtaskFeedback :=
  if codenames.all isPublic then entry
  else
    { index := entry.index
      score := none
      testcases := entry.testcases.map (·.redacted isPublic) }

theorem TestcaseFeedback.redacted_of_private {isPublic : Text → Bool} {t : TestcaseFeedback}
    (h : isPublic t.codename = false) : t.redacted isPublic = .hidden t.codename := by
  simp [redacted, h]

theorem TestcaseFeedback.codename_redacted (isPublic : Text → Bool) (t : TestcaseFeedback) :
    (t.redacted isPublic).codename = t.codename := by
  unfold redacted
  split <;> rfl

/-- Both lists of feedback grow alike, and the public one is redacted. -/
theorem publicTestcases_feedbackFrom (isPublic : Text → Bool) (classify : Binary64 → OutcomeLabel)
    (worst : Binary64) (shown : Bool) (evs : List Evaluation) :
    (feedbackFrom isPublic classify worst shown evs).publicTestcases =
      (feedbackFrom isPublic classify worst shown evs).testcases.map
        fun d => (TestcaseFeedback.detailed d).redacted isPublic := by
  induction evs generalizing shown with
  | nil => rfl
  | cons ev rest ih =>
    simp only [feedbackFrom, List.map_cons, ih]
    rfl

theorem codename_feedbackFrom (isPublic : Text → Bool) (classify : Binary64 → OutcomeLabel)
    (worst : Binary64) (shown : Bool) (evs : List Evaluation) :
    (feedbackFrom isPublic classify worst shown evs).testcases.map (·.codename) =
      evs.map (·.codename) := by
  induction evs generalizing shown with
  | nil => rfl
  | cons ev rest ih =>
    simp only [feedbackFrom, List.map_cons, ih]
    rfl

theorem Submission.codename_evaluationsFor {submission : Submission} {codenames : List Text}
    (h : submission.Covers codenames) :
    (submission.evaluationsFor codenames).map (·.codename) = codenames := by
  induction codenames with
  | nil => rfl
  | cons codename rest ih =>
    obtain ⟨ev, hev⟩ := h.head
    have := ih h.tail
    simp only [evaluationsFor] at this ⊢
    simp [hev, this, codename_of_evaluation? hev]

namespace ScoreType

open Submission

variable {st : ScoreType} {submission : Submission}

/-! ## The entry of a subtask -/

/-- The public entry of a subtask is its full entry, redacted. -/
theorem publicFeedback_eq_redacted (st : ScoreType) (number : Nat) (s : Subtask)
    (evs : List Evaluation) :
    (gradedOf st number s evs).publicFeedback =
      (gradedOf st number s evs).feedback.redacted st.isPublic s.testcases := by
  rw [SubtaskFeedback.redacted, ← isFullyPublic]
  cases hp : st.isFullyPublic s with
  | true => simp [gradedOf, hp]
  | false =>
    simp only [gradedOf, hp, Bool.false_eq_true, if_false, SubtaskFeedback.mk.injEq, true_and,
      List.map_map]
    exact publicTestcases_feedbackFrom ..

/-- The full entry lists the testcases of the subtask. -/
theorem codename_feedback (st : ScoreType) (number : Nat) {s : Subtask}
    (h : submission.Covers s.testcases) :
    (gradedOf st number s (submission.evaluationsFor s.testcases)).feedback.testcases.map
      (·.codename) = s.testcases := by
  calc _ = (buildFeedback (submission.evaluationsFor s.testcases) st.isPublic
        st.policy.classify).testcases.map (·.codename) := by simp only [gradedOf, List.map_map]; rfl
    _ = (submission.evaluationsFor s.testcases).map (·.codename) := codename_feedbackFrom ..
    _ = s.testcases := codename_evaluationsFor h

/-- The public entry lists the testcases of the full entry, redacted. -/
theorem testcases_publicFeedback (number : Nat) {s : Subtask}
    (h : submission.Covers s.testcases) :
    (gradedOf st number s (submission.evaluationsFor s.testcases)).publicFeedback.testcases =
      (gradedOf st number s (submission.evaluationsFor s.testcases)).feedback.testcases.map
        (·.redacted st.isPublic) := by
  rw [publicFeedback_eq_redacted, SubtaskFeedback.redacted]
  split
  next hall =>
    -- the entry lists the testcases of the subtask, and all of these are public
    have hkept : ∀ t ∈ (gradedOf st number s
        (submission.evaluationsFor s.testcases)).feedback.testcases,
        t.redacted st.isPublic = t := by
      intro t ht
      have hmem := @List.mem_map_of_mem _ _ _ _ (·.codename) ht
      rw [codename_feedback st number h] at hmem
      rw [TestcaseFeedback.redacted, if_pos (List.all_eq_true.mp hall _ hmem)]
    rw [List.map_congr_left hkept, List.map_id']
  next => rfl

/-- No private testcase of a subtask is more than its codename in public. -/
theorem eq_hidden_of_mem_publicFeedback (number : Nat) {s : Subtask}
    (h : submission.Covers s.testcases) {t : TestcaseFeedback}
    (ht : t ∈ (gradedOf st number s
      (submission.evaluationsFor s.testcases)).publicFeedback.testcases)
    (hp : st.isPublic t.codename = false) : t = .hidden t.codename := by
  rw [testcases_publicFeedback number h] at ht
  obtain ⟨u, -, rfl⟩ := List.mem_map.mp ht
  rw [TestcaseFeedback.codename_redacted] at hp ⊢
  exact TestcaseFeedback.redacted_of_private hp

/-! ## The whole breakdown -/

theorem map_publicFeedback_eq_zipWith (st : ScoreType) (submission : Submission) (number : Nat)
    (subtasks : List Subtask) :
    (st.gradedFrom submission number subtasks).map (·.publicFeedback) =
      List.zipWith (SubtaskFeedback.redacted st.isPublic) (subtasks.map (·.testcases))
        ((st.gradedFrom submission number subtasks).map (·.feedback)) := by
  induction subtasks generalizing number with
  | nil => rfl
  | cons s rest ih =>
    rw [gradedFrom_cons, List.map_cons, List.map_cons, List.map_cons, List.zipWith_cons_cons, ih,
      publicFeedback_eq_redacted]

theorem map_codename_gradedFrom (number : Nat) {subtasks : List Subtask}
    (h : ∀ s ∈ subtasks, submission.Covers s.testcases) :
    ((st.gradedFrom submission number subtasks).map (·.feedback)).map
      (fun entry => entry.testcases.map (·.codename)) = subtasks.map (·.testcases) := by
  induction subtasks generalizing number with
  | nil => rfl
  | cons s rest ih =>
    obtain ⟨hs, hrest⟩ := List.forall_mem_cons.mp h
    rw [gradedFrom_cons, List.map_cons, List.map_cons, List.map_cons, ih (number + 1) hrest,
      codename_feedback st number hs]

/-- Where every subtask is fully public, so is the breakdown. -/
theorem breakdown_of_fullyPublic (h : ∀ s ∈ st.subtasks, st.isFullyPublic s = true) :
    (st.breakdown submission).publicSubtasks = (st.breakdown submission).subtasks ∧
      (st.breakdown submission).publicScore = (st.breakdown submission).score := by
  constructor
  · refine List.map_congr_left fun g hg => ?_
    obtain ⟨s, hs, n, rfl⟩ := mem_gradedFrom hg
    rw [publicFeedback_eq_redacted, SubtaskFeedback.redacted]
    exact if_pos (h s hs)
  · show Binary64.sum ((st.subtasks.filter st.isFullyPublic).map _) = _
    rw [List.filter_eq_self.mpr h]
    rfl

/-- **The public breakdown is the full one, redacted.** Entry by entry it is
the full breakdown where all testcases of the subtask are public, and its
codenames and the details of public testcases elsewhere; a private testcase
is nowhere more than its codename, and where there is none nothing is taken
out. -/
theorem publicSubtasks_eq_redacted {policy : Policy} {json : Json} {testcases : List Testcase}
    (hst : ofPolicy policy json testcases = .ok st) (he : submission.evaluated = true)
    {r : ScoreResult} (h : st.computeScore submission = .ok r) :
    r.subtasks.length = st.targets.length ∧ r.publicSubtasks.length = st.targets.length ∧
      r.subtasks.map (fun entry => entry.testcases.map (·.codename)) = st.targets ∧
      r.publicSubtasks =
        List.zipWith (SubtaskFeedback.redacted (isPublicIn testcases)) st.targets r.subtasks ∧
      (∀ tc ∈ testcases, tc.isPublic = false → ∀ entry ∈ r.publicSubtasks,
        ∀ t ∈ entry.testcases, t.codename = tc.codename → t = .hidden tc.codename) ∧
      ((∀ codenames ∈ st.targets, ∀ codename ∈ codenames, ⟨codename, true⟩ ∈ testcases) →
        r.publicSubtasks = r.subtasks ∧ r.publicScore = r.score) := by
  obtain ⟨hc, rfl⟩ := (computeScore_eq_ok_iff he).mp h
  have hpublic := isPublic_of_ofPolicy hst
  refine ⟨?_, ?_, map_codename_gradedFrom 1 hc, ?_, ?_, ?_⟩
  · simp [breakdown, gradedFrom, targets]
  · simp [breakdown, gradedFrom, targets]
  · rw [← hpublic]
    exact map_publicFeedback_eq_zipWith st submission 1 st.subtasks
  · intro tc htc hprivate entry hentry t ht hname
    obtain ⟨g, hg, rfl⟩ := List.mem_map.mp hentry
    obtain ⟨s, hs, n, rfl⟩ := mem_gradedFrom hg
    rw [← hname]
    refine eq_hidden_of_mem_publicFeedback _ (hc s hs) ht ?_
    rw [hname, hpublic]
    exact isPublicIn_of_private hst htc hprivate
  · intro hall
    refine breakdown_of_fullyPublic fun s hs => ?_
    rw [isFullyPublic, hpublic]
    exact List.all_eq_true.mpr fun codename hmem =>
      decide_eq_true (hall _ (List.mem_map_of_mem hs) codename hmem)

theorem publicSubtasks_eq_redacted_fullBut :
    ∃ r, ofPolicy .mean threeAndOne fourTestcases = .ok (twoSubtasks .mean) ∧
      (fullBut half .zero).evaluated = true ∧
      (twoSubtasks .mean).computeScore (fullBut half .zero) = .ok r ∧
      r.publicSubtasks = List.zipWith (SubtaskFeedback.redacted (isPublicIn fourTestcases))
        (twoSubtasks .mean).targets r.subtasks ∧
      ∀ entry ∈ r.publicSubtasks, ∀ t ∈ entry.testcases, t.codename = [99] → t = .hidden [99] := by
  have hst := ofPolicy_twoSubtasks .mean
  have h : (twoSubtasks .mean).computeScore (fullBut half .zero) = .ok _ :=
    (computeScore_eq_ok_iff rfl).mpr ⟨complete_fullBut .mean half .zero, rfl⟩
  obtain ⟨-, -, -, hredacted, hhidden, -⟩ := publicSubtasks_eq_redacted hst rfl h
  exact ⟨_, hst, rfl, h, hredacted, hhidden ⟨[99], false⟩ (by decide) rfl⟩

/-! ## Independence of hidden testcases -/

variable {s₁ s₂ : Submission}

theorem AgreeOnPublic.fractionOf (ha : st.AgreeOnPublic s₁ s₂) {s : Subtask}
    (hp : st.isFullyPublic s = true) : st.fractionOf s₁ s = st.fractionOf s₂ s := by
  have := ha.publicScoreOf s
  simp only [ScoreType.publicScoreOf, hp, if_true, Option.some.injEq, SubtaskScore.mk.injEq,
    and_true] at this
  exact this

theorem AgreeOnPublic.publicScore (ha : st.AgreeOnPublic s₁ s₂) :
    (st.breakdown s₁).publicScore = (st.breakdown s₂).publicScore := by
  have hscores : (st.subtasks.filter st.isFullyPublic).map (st.scoreOf s₁) =
      (st.subtasks.filter st.isFullyPublic).map (st.scoreOf s₂) := by
    refine List.map_congr_left fun s hs => ?_
    rw [scoreOf, scoreOf, ha.fractionOf (List.mem_filter.mp hs).2]
  exact congrArg Binary64.sum hscores

/-- Where all testcases are public, nothing of the subtask's entry depends
on others. -/
theorem AgreeOnPublic.publicFeedback (ha : st.AgreeOnPublic s₁ s₂) (number : Nat) {s : Subtask}
    (hp : st.isFullyPublic s = true) (h₁ : s₁.Covers s.testcases) (h₂ : s₂.Covers s.testcases) :
    (gradedOf st number s (s₁.evaluationsFor s.testcases)).publicFeedback =
      (gradedOf st number s (s₂.evaluationsFor s.testcases)).publicFeedback := by
  refine (publicFeedback_eq_iff ha number h₁ h₂).mpr ?_
  have houtcomes := ha.outcomes s.testcases
  rw [List.filter_eq_self.mpr (List.all_eq_true.mp hp)] at houtcomes
  rw [conceals, conceals, ha.outcomes, houtcomes]

/-- **The public view does not depend on hidden testcases.** Of two complete
submissions that do alike on the public testcases the public scores are the
same. So are the public breakdowns but for the flags, and the flags too of a
subtask without a private testcase; in full view the rows are the same, or
the error is. -/
theorem publicView_congr {policy : Policy} {json : Json} {testcases : List Testcase}
    (hst : ofPolicy policy json testcases = .ok st) (he₁ : s₁.evaluated = true)
    (he₂ : s₂.evaluated = true) (hc₁ : st.Complete s₁) (hc₂ : st.Complete s₂)
    (ha : ∀ codename, ⟨codename, true⟩ ∈ testcases →
      (s₁.evaluation? codename).map (·.content) = (s₂.evaluation? codename).map (·.content)) :
    ∃ r₁ r₂, st.computeScore s₁ = .ok r₁ ∧ st.computeScore s₂ = .ok r₂ ∧
      r₁.publicScore = r₂.publicScore ∧
      r₁.publicSubtasks.map (·.unflagged) = r₂.publicSubtasks.map (·.unflagged) ∧
      (∀ (i : Nat) (codenames : List Text), st.targets[i]? = some codenames →
        (∀ codename ∈ codenames, ⟨codename, true⟩ ∈ testcases) →
        r₁.publicSubtasks[i]? = r₂.publicSubtasks[i]?) ∧
      ∀ tr, renderFeedback tr .full r₁.publicSubtasks =
        renderFeedback tr .full r₂.publicSubtasks := by
  have hpublic := isPublic_of_ofPolicy hst
  have ha : st.AgreeOnPublic s₁ s₂ := by
    intro codename hp
    rw [hpublic] at hp
    exact ha codename (of_decide_eq_true hp)
  have hunflagged := map_unflagged_publicFeedback ha hc₁ hc₂ 1
  refine ⟨_, _, (computeScore_eq_ok_iff he₁).mpr ⟨hc₁, rfl⟩,
    (computeScore_eq_ok_iff he₂).mpr ⟨hc₂, rfl⟩, ha.publicScore, hunflagged, ?_, ?_⟩
  · intro i codenames hi hall
    obtain ⟨s, hs, rfl⟩ : ∃ s, st.subtasks[i]? = some s ∧ s.testcases = codenames := by
      simpa [targets] using hi
    have hmem := List.mem_of_getElem? hs
    have hp : st.isFullyPublic s = true := by
      rw [isFullyPublic, hpublic]
      exact List.all_eq_true.mpr fun codename hc => decide_eq_true (hall codename hc)
    have hentry := ha.publicFeedback (1 + i) hp (hc₁ s hmem) (hc₂ s hmem)
    simp only [breakdown, List.getElem?_map, getElem?_gradedFrom, hs, Option.map_some, hentry]
  · intro tr
    exact renderFeedback_full_congr tr hunflagged

theorem publicView_congr_fullBut :
    ofPolicy .minimum threeAndOne fourTestcases = .ok (twoSubtasks .minimum) ∧
      (fullBut half .one).evaluated = true ∧ (fullBut half .zero).evaluated = true ∧
      (twoSubtasks .minimum).Complete (fullBut half .one) ∧
      (twoSubtasks .minimum).Complete (fullBut half .zero) ∧
      (∀ codename, ⟨codename, true⟩ ∈ fourTestcases →
        ((fullBut half .one).evaluation? codename).map (·.content) =
          ((fullBut half .zero).evaluation? codename).map (·.content)) ∧
      ∃ r₁ r₂, (twoSubtasks .minimum).computeScore (fullBut half .one) = .ok r₁ ∧
        (twoSubtasks .minimum).computeScore (fullBut half .zero) = .ok r₂ ∧
        r₁.publicScore = r₂.publicScore ∧ r₁.publicSubtasks[1]? = r₂.publicSubtasks[1]? := by
  have hst := ofPolicy_twoSubtasks .minimum
  have hc := complete_fullBut .minimum half
  have ha : ∀ codename, ⟨codename, true⟩ ∈ fourTestcases →
      ((fullBut half .one).evaluation? codename).map (·.content) =
        ((fullBut half .zero).evaluation? codename).map (·.content) := by
    intro codename hmem
    refine agree_fullBut .minimum half .one .zero codename ?_
    rw [isPublic_of_ofPolicy hst]
    exact decide_eq_true hmem
  obtain ⟨r₁, r₂, h₁, h₂, hscore, -, hentry, -⟩ :=
    publicView_congr hst rfl rfl (hc .one) (hc .zero) ha
  exact ⟨hst, rfl, rfl, hc .one, hc .zero, ha, r₁, r₂, h₁, h₂, hscore,
    hentry 1 [[100]] rfl (by decide)⟩

end ScoreType

end ContestGrading
