import ContestGrading.Proofs.Binary64.Ends
import ContestGrading.Proofs.Grading.Bounds
import ContestGrading.Proofs.Grading.Labels
/-!
# Full and no credit under products and means

The status of a subtask is the label of a rounded fraction. Where outcomes
are fractions a product is correct exactly if all testcases are, and not
correct if one of them is not or if the product vanishes. A mean is correct
if all testcases are, but also if the rounded sum alone gets to their number;
it is not correct if none of them is, or if the mean vanishes.

Results:
* `classify_product_iff`, `classify_mean_iff`: the labels at both ends.
* `status_at_ends`: the statuses of the subtasks of a result.
* `status_against_labels`: what no testcase says, a subtask can.
-/
namespace ContestGrading

open Binary64 OutcomeLabel

namespace Binary64

variable {xs : List Binary64}

/-- The mean is lost: the exact sum is not zero, and no greater than half of
the smallest magnitude for each term. -/
def MeanVanishes (xs : List Binary64) : Prop :=
  0 < (xs.map value).sum ∧ (xs.map value).sum ≤ (xs.length : ℚ) / 2 ^ 1075

theorem sum_value_nonneg (h : ∀ x ∈ xs, IsFraction x) :
    0 ≤ (xs.map value).sum ∧ ((xs.map value).sum = 0 ↔ ∀ x ∈ xs, x ≤ zero) := by
  have hpos : (0 : ℚ) < unitsPerOne := Nat.cast_pos.mpr unitsPerOne_pos
  rw [sum_value h]
  refine ⟨by positivity, ?_⟩
  rw [div_eq_zero_iff, or_iff_left hpos.ne', Nat.cast_eq_zero, List.sum_eq_zero_iff,
    List.forall_mem_map]
  exact forall₂_congr fun x hx => (le_zero_iff (h x hx).1).symm

end Binary64

namespace OutcomeLabel

variable {xs : List Binary64} (h : ∀ x ∈ xs, IsFraction x)

include h

/-- The label of a product of fractions. -/
theorem classify_product_iff :
    (classify (product xs) = .correct ↔ ∀ x ∈ xs, classify x = .correct) ∧
      (classify (product xs) = .notCorrect ↔
        (∃ x ∈ xs, classify x = .notCorrect) ∨ Vanishes xs) := by
  simp only [classify_eq_correct_iff, classify_eq_notCorrect_iff]
  exact ⟨one_le_product_iff h, product_le_zero_iff h⟩

/-- The label of a mean of fractions. -/
theorem classify_mean_iff (hne : xs ≠ []) (hlen : xs.length ≤ 2 ^ 53) :
    (classify (sum xs / Binary64.ofNat xs.length) = .correct ↔ sum xs = Binary64.ofNat xs.length) ∧
      (classify (sum xs / Binary64.ofNat xs.length) = .notCorrect ↔
        (∀ x ∈ xs, classify x = .notCorrect) ∨ MeanVanishes xs) := by
  obtain ⟨h0, hzero⟩ := sum_value_nonneg h
  simp only [classify_eq_correct_iff, classify_eq_notCorrect_iff]
  refine ⟨one_le_mean_iff h hne hlen, ?_⟩
  rw [mean_le_zero_iff h hne hlen, ← hzero, MeanVanishes]
  constructor
  · intro hsmall
    rcases h0.eq_or_lt with heq | hlt
    · exact .inl heq.symm
    · exact .inr ⟨hlt, hsmall⟩
  · rintro (heq | ⟨-, hsmall⟩)
    · rw [heq]
      positivity
    · exact hsmall

/-- Full outcomes have the full mean. -/
theorem sum_eq_of_correct (hne : xs ≠ []) (hlen : xs.length ≤ 2 ^ 53)
    (hall : ∀ x ∈ xs, classify x = .correct) : sum xs = Binary64.ofNat xs.length := by
  refine sum_ones (fun x hx => ?_) hne hlen
  exact (h x hx).eq_one (classify_eq_correct_iff.mp (hall x hx))

end OutcomeLabel

namespace ScoreType

open Submission Rendering

variable {policy : Policy} {json : Json} {testcases : List Testcase} {st : ScoreType}
  {submission : Submission} {r : ScoreResult} {i : Nat} {s : Subtask}

section Entry

variable {fraction : Binary64} {details : List TestcaseDetail}
  (hentry : IsEntry submission r i s fraction details)
  (hf : ∀ x ∈ s.testcases.map submission.outcome, IsFraction x)

include hentry hf

theorem product_ends (hfraction : fraction = product (s.testcases.map submission.outcome)) :
    (classify fraction = .correct ↔ ∀ detail ∈ details, detail.outcome = "Correct") ∧
      (classify fraction = .notCorrect ↔ (∃ detail ∈ details, detail.outcome = "Not correct") ∨
        Vanishes (s.testcases.map submission.outcome)) := by
  obtain ⟨hfull, hnone⟩ := classify_product_iff hf
  have hall := hentry.forall_outcome_iff .correct
  have hsome : (∃ x ∈ s.testcases.map submission.outcome, classify x = .notCorrect) ↔
      ∃ detail ∈ details, detail.outcome = "Not correct" := by
    refine Iff.trans ?_ (hentry.exists_outcome_iff .notCorrect).symm
    simp [Submission.label]
  rw [hfraction, hfull, hnone, List.forall_mem_map]
  exact ⟨hall.symm, or_congr_left hsome⟩

theorem mean_ends (hne : s.testcases ≠ []) (hlen : s.testcases.length ≤ 2 ^ 53)
    (hfraction : fraction =
      sum (s.testcases.map submission.outcome) / .ofNat s.testcases.length) :
    (classify fraction = .correct ↔
        sum (s.testcases.map submission.outcome) = .ofNat s.testcases.length) ∧
      ((∀ detail ∈ details, detail.outcome = "Correct") → classify fraction = .correct) ∧
      (classify fraction = .correct →
        s.testcases.length - ((s.testcases.map submission.outcome).map value).sum ≤
          (s.testcases.length * (s.testcases.length + 1) : ℚ) / 2 ^ 54) ∧
      (classify fraction = .notCorrect ↔ (∀ detail ∈ details, detail.outcome = "Not correct") ∨
        MeanVanishes (s.testcases.map submission.outcome)) := by
  have hlength : (s.testcases.map submission.outcome).length = s.testcases.length :=
    List.length_map _
  have hne' : s.testcases.map submission.outcome ≠ [] := by simpa using hne
  rw [← hlength] at hlen hfraction ⊢
  obtain ⟨hfull, hnone⟩ := classify_mean_iff hf hne' hlen
  have hcorrect := hentry.forall_outcome_iff .correct
  have hnotCorrect := hentry.forall_outcome_iff .notCorrect
  rw [hfraction, hfull, hnone, List.forall_mem_map]
  refine ⟨Iff.rfl, fun hall => ?_, lack_of_sum_eq hf hne' hlen, or_congr_left hnotCorrect.symm⟩
  exact sum_eq_of_correct hf hne' hlen (List.forall_mem_map.mpr (hcorrect.mp hall))

end Entry

/-- The smallest number above zero. -/
def least : Binary64 := .finite false 1 (representable_of_le (by decide))

/-- The greatest number below one. -/
def nearlyOne : Binary64 := .finite false belowOne belowOne_facts.1

theorem isFraction_least : IsFraction least := by decide +kernel

theorem isFraction_nearlyOne : IsFraction nearlyOne := by decide +kernel

/-- **Statuses at the ends.** With outcomes between zero and one, every
subtask of a result has the label of its fraction as its status, which its
row in the default translation tells.

* Under the product policy it is correct exactly if all its testcases are, and
  not correct exactly if one of them is not or the product vanishes.
* Under the mean policy it is correct exactly if the sum that is rounded at
  every step is the number of testcases. So it is if all of them are correct,
  and if it is, their exact sum lacks no more than `n * (n + 1) / 2 ^ 54`. It
  is not correct exactly if none of them is or the mean vanishes. A mean of
  more than `2 ^ 53` outcomes, more than any list holds, is left out. -/
theorem status_at_ends (hst : ofPolicy policy json testcases = .ok st)
    (hlen : policy = .mean → testcases.length ≤ 2 ^ 53) (he : submission.evaluated = true)
    (hf : st.Fractional submission) (h : st.computeScore submission = .ok r)
    (hs : st.subtasks[i]? = some s) :
    ∃ fraction details label, IsEntry submission r i s fraction details ∧
      r.ShowsStatus i label ∧
      (∀ level, ∃ rows row score, (renderFeedback .default level r.subtasks).outcome = .ok rows ∧
        rows[i]? = some row ∧ row.score = some score ∧
        ∀ other : OutcomeLabel, score.status = other.text ↔ label = other) ∧
      (policy = .product →
        (label = .correct ↔ ∀ detail ∈ details, detail.outcome = "Correct") ∧
        (label = .notCorrect ↔ (∃ detail ∈ details, detail.outcome = "Not correct") ∨
          Vanishes (s.testcases.map submission.outcome))) ∧
      (policy = .mean →
        (label = .correct ↔ Binary64.sum (s.testcases.map submission.outcome) =
          .ofNat s.testcases.length) ∧
        ((∀ detail ∈ details, detail.outcome = "Correct") → label = .correct) ∧
        (label = .correct →
          s.testcases.length - ((s.testcases.map submission.outcome).map value).sum ≤
            (s.testcases.length * (s.testcases.length + 1) : ℚ) / 2 ^ 54) ∧
        (label = .notCorrect ↔ (∀ detail ∈ details, detail.outcome = "Not correct") ∨
          MeanVanishes (s.testcases.map submission.outcome))) := by
  obtain ⟨details, hentry, hstatus⟩ := exists_entry he h hs
  have hmem := List.mem_of_getElem? hs
  have hfractions := hf.outcomes hmem
  obtain ⟨hne, hle⟩ := testcases_of_ofPolicy hst hmem
  have hpolicy := (ofPolicy_eq_ok_iff.mp hst).2.1
  refine ⟨_, details, _, hentry, hstatus, exists_status_default hstatus, ?_, ?_⟩
  · rintro rfl
    refine product_ends hentry hfractions ?_
    rw [fractionOf, hpolicy]
    rfl
  · rintro rfl
    refine mean_ends hentry hfractions hne (Nat.le_trans hle (hlen rfl)) ?_
    rw [fractionOf, hpolicy, Policy.reduce, List.length_map]

/-- One outcome is just below one, and the sum is rounded up. -/
theorem status_at_ends_fullBut :
    ofPolicy .mean threeAndOne fourTestcases = .ok (twoSubtasks .mean) ∧
      (Policy.mean = .mean → fourTestcases.length ≤ 2 ^ 53) ∧
      (fullBut nearlyOne one).evaluated = true ∧
      (twoSubtasks .mean).Fractional (fullBut nearlyOne one) ∧
      ∃ r s, (twoSubtasks .mean).computeScore (fullBut nearlyOne one) = .ok r ∧
        (twoSubtasks .mean).subtasks[0]? = some s ∧ r.ShowsStatus 0 .correct ∧
        (s.testcases.length -
            ((s.testcases.map (fullBut nearlyOne one).outcome).map value).sum : ℚ) ≤
          s.testcases.length * (s.testcases.length + 1) / 2 ^ 54 := by
  have hst := ofPolicy_twoSubtasks .mean
  have hlen : Policy.mean = .mean → fourTestcases.length ≤ 2 ^ 53 := by decide
  have hf := fractional_fullBut .mean isFraction_nearlyOne isFraction_one
  have h : (twoSubtasks .mean).computeScore (fullBut nearlyOne one) = .ok _ :=
    (computeScore_eq_ok_iff rfl).mpr ⟨complete_fullBut .mean nearlyOne one, rfl⟩
  have hs : (twoSubtasks .mean).subtasks[0]? = some _ := rfl
  obtain ⟨_, _, label, -, hstatus, -, -, hmean⟩ := status_at_ends hst hlen rfl hf h hs
  obtain ⟨hcorrect, -, hlack, -⟩ := hmean rfl
  have hsum : Binary64.sum [nearlyOne, one, one] = .ofNat 3 := by decide +kernel
  have hlabel : label = .correct := hcorrect.mpr hsum
  exact ⟨hst, hlen, rfl, hf, _, _, h, hs, hlabel ▸ hstatus, hlack hlabel⟩

/-! ## Statuses against labels -/

/-- Subtask `i` is graded with these labels of its testcases, and its row in
the default translation has this label as its status. -/
def Tells (st : ScoreType) (submission : Submission) (i : Nat) (labels : List OutcomeLabel)
    (status : OutcomeLabel) : Prop :=
  ∃ r s fraction details rows row score, st.computeScore submission = .ok r ∧
    st.subtasks[i]? = some s ∧ IsEntry submission r i s fraction details ∧
    details.map (·.outcome) = labels.map OutcomeLabel.text ∧
    (renderFeedback .default .full r.subtasks).outcome = .ok rows ∧ rows[i]? = some row ∧
    row.score = some score ∧ score.status = status.text

theorem tells_fullBut (policy : Policy) (first third : Binary64) :
    Tells (twoSubtasks policy) (fullBut first third) 0
      [classify first, classify one, classify third]
      (classify (policy.reduce [first, one, third])) := by
  have h : (twoSubtasks policy).computeScore (fullBut first third) = .ok _ :=
    (computeScore_eq_ok_iff rfl).mpr ⟨complete_fullBut policy first third, rfl⟩
  have hs : (twoSubtasks policy).subtasks[0]? = some _ := rfl
  obtain ⟨details, hentry, hstatus⟩ := exists_entry rfl h hs
  obtain ⟨rows, row, score, hrows, hrow, hscore, hlabel⟩ := exists_status_default hstatus .full
  exact ⟨_, _, _, details, rows, row, score, h, hs, hentry, hentry.labels, hrows, hrow, hscore,
    (hlabel _).mpr rfl⟩

/-- A subtask is not correct though none of its testcases is, its product
having vanished, and one is correct though not all of its testcases are, its
sum having been rounded up. -/
theorem status_against_labels :
    ((twoSubtasks .product).Fractional (fullBut least least) ∧
      Tells (twoSubtasks .product) (fullBut least least) 0
        [.partiallyCorrect, .correct, .partiallyCorrect] .notCorrect) ∧
    ((twoSubtasks .mean).Fractional (fullBut nearlyOne one) ∧
      Tells (twoSubtasks .mean) (fullBut nearlyOne one) 0
        [.partiallyCorrect, .correct, .correct] .correct) := by
  have hleast : classify least = .partiallyCorrect := by decide +kernel
  have hnearly : classify nearlyOne = .partiallyCorrect := by decide +kernel
  have hone : classify one = .correct := by decide +kernel
  have hproduct : classify (Policy.product.reduce [least, one, least]) = .notCorrect := by
    decide +kernel
  have hmean : classify (Policy.mean.reduce [nearlyOne, one, one]) = .correct := by
    decide +kernel
  refine ⟨⟨fractional_fullBut _ isFraction_least isFraction_least, ?_⟩,
    fractional_fullBut _ isFraction_nearlyOne isFraction_one, ?_⟩
  · have htells := tells_fullBut .product least least
    rwa [hleast, hone, hproduct] at htells
  · have htells := tells_fullBut .mean nearlyOne one
    rwa [hnearly, hone, hmean] at htells

end ScoreType

end ContestGrading
