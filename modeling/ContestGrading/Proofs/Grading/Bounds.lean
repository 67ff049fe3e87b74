import ContestGrading.Proofs.Grading.Breakdown
import ContestGrading.Proofs.Grading.Fractions
/-!
# Bounds of scores

Where outcomes are fractions, a subtask earns no more than its weight. The
score, the public score and the two maximal scores are sums, from left to
right, over the same subtasks or a part of them, so that they are ordered
even where a sum is rounded or overflows.

Results:
* `isFraction_fractionOf`, `scoreOf_bounds`: what one subtask earns.
* `score_bounds`: public score, score and the maximal scores.
-/
namespace ContestGrading.ScoreType

open Submission Binary64

/-- Every testcase of the subtasks has an evaluation, its outcome a fraction. -/
def Fractional (st : ScoreType) (submission : Submission) : Prop :=
  ∀ s ∈ st.subtasks, ∀ codename ∈ s.testcases,
    ∃ ev, submission.evaluation? codename = some ev ∧ ev.outcome.IsFraction

/-- Every testcase of the subtasks has an evaluation with the full outcome. -/
def Full (st : ScoreType) (submission : Submission) : Prop :=
  ∀ s ∈ st.subtasks, ∀ codename ∈ s.testcases,
    ∃ ev, submission.evaluation? codename = some ev ∧ ev.outcome = one

variable {policy : Policy} {json : Json} {testcases : List Testcase} {st : ScoreType}
  {submission : Submission}

theorem outcome_of_evaluation? {codename : Text} {ev : Evaluation}
    (h : submission.evaluation? codename = some ev) : submission.outcome codename = ev.outcome := by
  simp [Submission.outcome, h]

theorem Fractional.complete (h : st.Fractional submission) : st.Complete submission := by
  intro s hs codename hc
  obtain ⟨ev, hev, -⟩ := h s hs codename hc
  rw [hev]
  rfl

theorem Fractional.outcomes (h : st.Fractional submission) {s : Subtask} (hs : s ∈ st.subtasks) :
    ∀ x ∈ s.testcases.map submission.outcome, IsFraction x := by
  intro x hx
  obtain ⟨codename, hc, rfl⟩ := List.mem_map.mp hx
  obtain ⟨ev, hev, hf⟩ := h s hs codename hc
  rwa [outcome_of_evaluation? hev]

/-! ## One subtask -/

theorem isFraction_fractionOf (hst : ofPolicy policy json testcases = .ok st)
    (h : st.Fractional submission) {s : Subtask} (hs : s ∈ st.subtasks) :
    IsFraction (st.fractionOf submission s) := by
  refine st.policy.isFraction_reduce ?_ (h.outcomes hs)
  simpa using (testcases_of_ofPolicy hst hs).1

/-- A subtask earns something between zero and its weight. -/
theorem scoreOf_bounds (hst : ofPolicy policy json testcases = .ok st)
    (h : st.Fractional submission) {s : Subtask} (hs : s ∈ st.subtasks) :
    zero ≤ st.scoreOf submission s ∧ st.scoreOf submission s ≤ s.parameter.weight := by
  have hf := isFraction_fractionOf hst h hs
  obtain ⟨hfinite, hweight⟩ := s.parameter.weight_valid
  refine ⟨(magnitude_mul hf.1 hweight hf.isFinite hfinite).1, ?_⟩
  have := mul_le_mul hf.1 hweight hf.2 rfl hfinite
  rwa [one_mul hfinite] at this

/-- With full outcomes a subtask earns its weight. -/
theorem scoreOf_full (hst : ofPolicy policy json testcases = .ok st)
    (hlen : policy = .mean → testcases.length ≤ 2 ^ 53) (h : st.Full submission) {s : Subtask}
    (hs : s ∈ st.subtasks) : st.scoreOf submission s = s.parameter.weight := by
  obtain ⟨hne, hle⟩ := testcases_of_ofPolicy hst hs
  have hones : ∀ x ∈ s.testcases.map submission.outcome, x = one := by
    intro x hx
    obtain ⟨codename, hc, rfl⟩ := List.mem_map.mp hx
    obtain ⟨ev, hev, ho⟩ := h s hs codename hc
    rw [outcome_of_evaluation? hev, ho]
  have hfraction : st.fractionOf submission s = one := by
    refine st.policy.reduce_ones (by simpa using hne) ?_ hones
    intro hmean
    have := hlen ((ofPolicy_eq_ok_iff.mp hst).2.1.symm.trans hmean)
    rw [List.length_map]
    omega
  rw [scoreOf, hfraction, one_mul s.parameter.weight_valid.1]

/-! ## All subtasks -/

/-- The fractions of the breakdown, and those that the public one tells. -/
theorem isFraction_of_mem_breakdown (hst : ofPolicy policy json testcases = .ok st)
    (h : st.Fractional submission) :
    (∀ entry ∈ (st.breakdown submission).subtasks,
      ∃ t, entry.score = some t ∧ IsFraction t.fraction) ∧
    ∀ entry ∈ (st.breakdown submission).publicSubtasks,
      ∀ t, entry.score = some t → IsFraction t.fraction := by
  have hgraded : ∀ g ∈ st.gradedFrom submission 1 st.subtasks, IsFraction g.fraction := by
    intro g hg
    obtain ⟨s, hs, i, rfl⟩ := mem_gradedFrom hg
    rw [gradedOf_fraction st (1 + i) (h.complete s hs)]
    exact isFraction_fractionOf hst h hs
  constructor
  · intro entry hentry
    obtain ⟨g, hg, rfl⟩ := List.mem_map.mp hentry
    have hf := hgraded g hg
    obtain ⟨s, -, i, rfl⟩ := mem_gradedFrom hg
    exact ⟨_, rfl, hf⟩
  · intro entry hentry t ht
    obtain ⟨g, hg, rfl⟩ := List.mem_map.mp hentry
    have hf := hgraded g hg
    obtain ⟨s, -, i, rfl⟩ := mem_gradedFrom hg
    simp only [gradedOf] at ht
    split at ht
    · cases ht
      exact hf
    · cases ht

/-- **Bounds of scores.** Where every outcome is between zero and one, so is
every fraction; public score, score and maximal score are ordered, and so are
public score, public maximum and maximal score. With full outcomes score and
public score are the maximal ones, unless a mean is taken of more than
`2 ^ 53` outcomes, more than any list holds. -/
theorem score_bounds (hst : ofPolicy policy json testcases = .ok st)
    (he : submission.evaluated = true) (h : st.Fractional submission) :
    ∃ r, st.computeScore submission = .ok r ∧
      (∀ entry ∈ r.subtasks, ∃ t, entry.score = some t ∧ IsFraction t.fraction) ∧
      (∀ entry ∈ r.publicSubtasks, ∀ t, entry.score = some t → IsFraction t.fraction) ∧
      zero ≤ r.publicScore ∧ r.publicScore ≤ r.score ∧ r.score ≤ st.maxScores.maxScore ∧
      r.publicScore ≤ st.maxScores.maxPublicScore ∧
      st.maxScores.maxPublicScore ≤ st.maxScores.maxScore ∧
      ((policy = .mean → testcases.length ≤ 2 ^ 53) → st.Full submission →
        r.score = st.maxScores.maxScore ∧ r.publicScore = st.maxScores.maxPublicScore) := by
  have hscore : ∀ s ∈ st.subtasks,
      zero ≤ st.scoreOf submission s ∧ st.scoreOf submission s ≤ s.parameter.weight :=
    fun s hs => scoreOf_bounds hst h hs
  have hpublic : ∀ s ∈ st.subtasks.filter st.isFullyPublic,
      zero ≤ st.scoreOf submission s ∧ st.scoreOf submission s ≤ s.parameter.weight :=
    fun s hs => hscore s (List.mem_filter.mp hs).1
  rw [maxScores_eq]
  obtain ⟨hentries, hpublicEntries⟩ := isFraction_of_mem_breakdown hst h
  refine ⟨st.breakdown submission, (computeScore_eq_ok_iff he).mpr ⟨h.complete, rfl⟩, hentries,
    hpublicEntries, (sum_map_le hpublic).1, ?_, (sum_map_le hscore).2, (sum_map_le hpublic).2,
    ?_, ?_⟩
  · apply sum_sublist_le (List.filter_sublist.map _)
    intro x hx
    obtain ⟨s, hs, rfl⟩ := List.mem_map.mp hx
    exact (hscore s hs).1
  · apply sum_sublist_le (List.filter_sublist.map _)
    intro x hx
    obtain ⟨s, -, rfl⟩ := List.mem_map.mp hx
    exact s.parameter.weight_valid.2
  · intro hlen hfull
    have hweight : ∀ s ∈ st.subtasks, st.scoreOf submission s = s.parameter.weight :=
      fun s hs => scoreOf_full hst hlen hfull hs
    exact ⟨congrArg Binary64.sum (List.map_congr_left hweight),
      congrArg Binary64.sum
        (List.map_congr_left fun s hs => hweight s (List.mem_filter.mp hs).1)⟩

theorem fractional_fullBut (policy : Policy) {first third : Binary64} (h : IsFraction first)
    (h' : IsFraction third) : (twoSubtasks policy).Fractional (fullBut first third) := by
  intro s hs codename hc
  simp only [twoSubtasks, List.mem_cons, List.not_mem_nil, or_false] at hs
  rcases hs with rfl | rfl <;> simp only [List.mem_cons, List.not_mem_nil, or_false] at hc
  · rcases hc with rfl | rfl | rfl
    · exact ⟨_, rfl, h⟩
    · exact ⟨_, rfl, isFraction_one⟩
    · exact ⟨_, rfl, h'⟩
  · subst hc
    exact ⟨_, rfl, isFraction_one⟩

theorem full_fullBut (policy : Policy) : (twoSubtasks policy).Full (fullBut one one) := by
  intro s hs codename hc
  simp only [twoSubtasks, List.mem_cons, List.not_mem_nil, or_false] at hs
  rcases hs with rfl | rfl <;> simp only [List.mem_cons, List.not_mem_nil, or_false] at hc
  · rcases hc with rfl | rfl | rfl <;> exact ⟨_, rfl, rfl⟩
  · subst hc
    exact ⟨_, rfl, rfl⟩

theorem score_bounds_fullBut :
    ofPolicy .mean threeAndOne fourTestcases = .ok (twoSubtasks .mean) ∧
      (fullBut one one).evaluated = true ∧ (twoSubtasks .mean).Fractional (fullBut one one) ∧
      (Policy.mean = .mean → fourTestcases.length ≤ 2 ^ 53) ∧
      (twoSubtasks .mean).Full (fullBut one one) ∧
      ∃ r, (twoSubtasks .mean).computeScore (fullBut one one) = .ok r ∧
        r.publicScore ≤ r.score ∧ r.score = (twoSubtasks .mean).maxScores.maxScore := by
  have hst := ofPolicy_twoSubtasks .mean
  have hf := fractional_fullBut .mean isFraction_one isFraction_one
  have hlen : Policy.mean = .mean → fourTestcases.length ≤ 2 ^ 53 := by decide
  have hfull := full_fullBut .mean
  obtain ⟨r, hr, -, -, -, hpublic, -, -, -, hones⟩ := score_bounds hst rfl hf
  exact ⟨hst, rfl, hf, hlen, hfull, r, hr, hpublic, (hones hlen hfull).1⟩

end ContestGrading.ScoreType
