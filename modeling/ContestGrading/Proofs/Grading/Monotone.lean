import ContestGrading.Proofs.Decimal.General
import ContestGrading.Proofs.Grading.Bounds
import Mathlib.Data.List.Forall2
/-!
# Better outcomes never score less

Of two submissions to the same score type, the one with no lesser outcome on
any testcase gets no lesser result anywhere: not in a fraction, a score, a
public score or a number of the ranking.

Results:
* `fractionOf_mono`, `scoreOf_mono`: one subtask.
* `forall₂_gradedFrom`: subtask by subtask over a whole breakdown.
* `result_mono`: the results of the two submissions.
-/
namespace ContestGrading.ScoreType

open Submission Binary64

/-- No testcase of the subtasks has a greater outcome in the first submission. -/
def NoBetter (st : ScoreType) (s₁ s₂ : Submission) : Prop :=
  ∀ s ∈ st.subtasks, ∀ codename ∈ s.testcases, s₁.outcome codename ≤ s₂.outcome codename

variable {policy : Policy} {json : Json} {testcases : List Testcase} {st : ScoreType}
  {s₁ s₂ : Submission}

theorem Fractional.outcome (h : st.Fractional s₁) {s : Subtask} (hs : s ∈ st.subtasks)
    {codename : Text} (hc : codename ∈ s.testcases) : IsFraction (s₁.outcome codename) :=
  h.outcomes hs _ (List.mem_map_of_mem hc)

/-! ## One subtask -/

theorem fractionOf_mono (hst : ofPolicy policy json testcases = .ok st) (h₁ : st.Fractional s₁)
    (h₂ : st.Fractional s₂) (h : st.NoBetter s₁ s₂) {s : Subtask} (hs : s ∈ st.subtasks) :
    st.fractionOf s₁ s ≤ st.fractionOf s₂ s := by
  apply st.policy.reduce_mono (testcases_of_ofPolicy hst hs).1
  intro codename hc
  exact ⟨h₁.outcome hs hc, h₂.outcome hs hc, h s hs codename hc⟩

theorem scoreOf_mono (hst : ofPolicy policy json testcases = .ok st) (h₁ : st.Fractional s₁)
    (h₂ : st.Fractional s₂) (h : st.NoBetter s₁ s₂) {s : Subtask} (hs : s ∈ st.subtasks) :
    st.scoreOf s₁ s ≤ st.scoreOf s₂ s := by
  obtain ⟨hfinite, hweight⟩ := s.parameter.weight_valid
  exact Binary64.mul_le_mul (isFraction_fractionOf hst h₁ hs).1 hweight
    (fractionOf_mono hst h₁ h₂ h hs) (isFraction_fractionOf hst h₂ hs).isFinite hfinite

/-- The texts of the two scores of a subtask denote numbers in order. -/
theorem scoreText_mono (hst : ofPolicy policy json testcases = .ok st) (h₁ : st.Fractional s₁)
    (h₂ : st.Fractional s₂) (h : st.NoBetter s₁ s₂) {s : Subtask} (hs : s ∈ st.subtasks) :
    ∃ d₁ d₂, Decimal.ofText? (scoreText (st.scoreOf s₁ s)) = some d₁ ∧
      Decimal.ofText? (scoreText (st.scoreOf s₂ s)) = some d₂ ∧ d₁.value ≤ d₂.value := by
  obtain ⟨h0, hle⟩ := scoreOf_bounds hst h₂ hs
  exact Decimal.scoreText_le (scoreOf_bounds hst h₁ hs).1 (scoreOf_mono hst h₁ h₂ h hs)
    (isFinite_of_le h0 hle s.parameter.weight_valid.1)

/-! ## All subtasks -/

/-- What holds of the two gradings of each subtask holds along the breakdown. -/
theorem forall₂_gradedFrom {R : Graded → Graded → Prop} {subtasks : List Subtask}
    (h : ∀ s ∈ subtasks, ∀ number, R (gradedOf st number s (s₁.evaluationsFor s.testcases))
      (gradedOf st number s (s₂.evaluationsFor s.testcases))) (number : Nat) :
    List.Forall₂ R (st.gradedFrom s₁ number subtasks) (st.gradedFrom s₂ number subtasks) := by
  induction subtasks generalizing number with
  | nil => exact .nil
  | cons s rest ih =>
    obtain ⟨hs, hrest⟩ := List.forall_mem_cons.mp h
    rw [gradedFrom_cons, gradedFrom_cons]
    exact .cons (hs number) (ih hrest (number + 1))

/-- **Monotonicity.** Where no outcome is greater, no fraction, score, public
score or number of the ranking is. -/
theorem result_mono (hst : ofPolicy policy json testcases = .ok st) (he₁ : s₁.evaluated = true)
    (he₂ : s₂.evaluated = true) (h₁ : st.Fractional s₁) (h₂ : st.Fractional s₂)
    (h : st.NoBetter s₁ s₂) :
    ∃ r₁ r₂, st.computeScore s₁ = .ok r₁ ∧ st.computeScore s₂ = .ok r₂ ∧
      r₁.score ≤ r₂.score ∧ r₁.publicScore ≤ r₂.publicScore ∧
      List.Forall₂ (fun e₁ e₂ => ∃ t₁ t₂, e₁.score = some t₁ ∧ e₂.score = some t₂ ∧
        t₁.fraction ≤ t₂.fraction) r₁.subtasks r₂.subtasks ∧
      List.Forall₂ (fun e₁ e₂ =>
        Option.Rel (fun t₁ t₂ => t₁.fraction ≤ t₂.fraction) e₁.score e₂.score)
        r₁.publicSubtasks r₂.publicSubtasks ∧
      List.Forall₂ (fun line₁ line₂ => ∃ d₁ d₂, Decimal.ofText? line₁ = some d₁ ∧
        Decimal.ofText? line₂ = some d₂ ∧ d₁.value ≤ d₂.value)
        r₁.rankingDetails r₂.rankingDetails := by
  have hscore : ∀ s ∈ st.subtasks,
      zero ≤ st.scoreOf s₁ s ∧ st.scoreOf s₁ s ≤ st.scoreOf s₂ s :=
    fun s hs => ⟨(scoreOf_bounds hst h₁ hs).1, scoreOf_mono hst h₁ h₂ h hs⟩
  have hpublic : ∀ s ∈ st.subtasks.filter st.isFullyPublic,
      zero ≤ st.scoreOf s₁ s ∧ st.scoreOf s₁ s ≤ st.scoreOf s₂ s :=
    fun s hs => hscore s (List.mem_filter.mp hs).1
  have hfraction : ∀ s ∈ st.subtasks, ∀ number,
      (gradedOf st number s (s₁.evaluationsFor s.testcases)).fraction ≤
        (gradedOf st number s (s₂.evaluationsFor s.testcases)).fraction := by
    intro s hs number
    rw [gradedOf_fraction st number (h₁.complete s hs),
      gradedOf_fraction st number (h₂.complete s hs)]
    exact fractionOf_mono hst h₁ h₂ h hs
  refine ⟨_, _, (computeScore_eq_ok_iff he₁).mpr ⟨h₁.complete, rfl⟩,
    (computeScore_eq_ok_iff he₂).mpr ⟨h₂.complete, rfl⟩, (sum_map_le hscore).2,
    (sum_map_le hpublic).2, ?_, ?_, ?_⟩
  · simp only [breakdown, List.forall₂_map_left_iff, List.forall₂_map_right_iff]
    exact forall₂_gradedFrom (fun s hs number => ⟨_, _, rfl, rfl, hfraction s hs number⟩) 1
  · simp only [breakdown, List.forall₂_map_left_iff, List.forall₂_map_right_iff]
    refine forall₂_gradedFrom ?_ 1
    intro s hs number
    cases hp : st.isFullyPublic s with
    | false =>
      simp only [gradedOf, hp, Bool.false_eq_true, if_false]
      exact .none
    | true =>
      simp only [gradedOf, hp, if_true]
      exact .some (hfraction s hs number)
  · simp only [breakdown, List.forall₂_map_left_iff, List.forall₂_map_right_iff]
    exact List.forall₂_same.mpr fun s hs => scoreText_mono hst h₁ h₂ h hs

theorem isFraction_half : IsFraction half := by decide +kernel

theorem noBetter_fullBut (policy : Policy) {first third third' : Binary64}
    (h : IsFraction first) (hle : third ≤ third') :
    (twoSubtasks policy).NoBetter (fullBut first third) (fullBut first third') := by
  intro s hs codename hc
  simp only [twoSubtasks, List.mem_cons, List.not_mem_nil, or_false] at hs
  rcases hs with rfl | rfl <;> simp only [List.mem_cons, List.not_mem_nil, or_false] at hc
  · rcases hc with rfl | rfl | rfl
    · exact le_refl_of_not_nan h.ne_nan
    · exact isFraction_one.2
    · exact hle
  · subst hc
    exact isFraction_one.2

theorem result_mono_fullBut :
    ofPolicy .product threeAndOne fourTestcases = .ok (twoSubtasks .product) ∧
      (fullBut half zero).evaluated = true ∧ (fullBut half half).evaluated = true ∧
      (twoSubtasks .product).Fractional (fullBut half zero) ∧
      (twoSubtasks .product).Fractional (fullBut half half) ∧
      (twoSubtasks .product).NoBetter (fullBut half zero) (fullBut half half) ∧
      ∃ r₁ r₂, (twoSubtasks .product).computeScore (fullBut half zero) = .ok r₁ ∧
        (twoSubtasks .product).computeScore (fullBut half half) = .ok r₂ ∧
        r₁.score ≤ r₂.score := by
  have hzero : IsFraction zero := ⟨zero_le_zero, zero_le_one⟩
  have hst := ofPolicy_twoSubtasks .product
  have h₁ := fractional_fullBut .product isFraction_half hzero
  have h₂ := fractional_fullBut .product isFraction_half isFraction_half
  have h := noBetter_fullBut .product isFraction_half isFraction_half.1
  obtain ⟨r₁, r₂, hr₁, hr₂, hscore, -⟩ := result_mono hst rfl rfl h₁ h₂ h
  exact ⟨hst, rfl, rfl, h₁, h₂, h, r₁, r₂, hr₁, hr₂, hscore⟩

end ContestGrading.ScoreType
