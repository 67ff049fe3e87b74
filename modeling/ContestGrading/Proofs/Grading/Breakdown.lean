import ContestGrading.Proofs.Binary64.Order
import ContestGrading.Proofs.Grading.Construction
import ContestGrading.Proofs.Grading.Evaluations
/-!
# A grading in closed form

The subtasks are graded one after the other, and five results grow along.
Here each of the five is a map of the list of subtasks, so that what is
proved of a grading later speaks of one subtask at a time.

A submission is complete for a score type when every testcase of its
subtasks has an evaluation; then every subtask is graded from the
evaluations of its own testcases, in their order.

Results:
* `computeScore_eq_ok_iff`: an evaluated submission has a result exactly
  when it is complete, and which result that is.
* `maxScores_eq`: the maximal scores in closed form.
* `totals_eq_breakdown`: score, public score and ranking lines are those
  that the breakdown tells.
-/
namespace ContestGrading

namespace ScoreType

open Submission

/-! ## The subtasks that are graded -/

/-- Every testcase of the subtasks has an evaluation. -/
def Complete (st : ScoreType) (submission : Submission) : Prop :=
  ∀ s ∈ st.subtasks, submission.Covers s.testcases

theorem evaluationsOf_eq_ok_iff {submission : Submission} {number : Nat} {codenames : List Text}
    {evaluations : List Evaluation} :
    evaluationsOf submission number codenames = .ok evaluations ↔
      submission.Covers codenames ∧ evaluations = submission.evaluationsFor codenames := by
  induction codenames generalizing evaluations with
  | nil =>
    simp only [evaluationsOf, Except.ok.injEq, evaluationsFor, List.filterMap_nil]
    exact ⟨fun h => ⟨by simp [Submission.Covers], h.symm⟩, fun h => h.2.symm⟩
  | cons codename rest ih =>
    unfold evaluationsOf
    cases hev : submission.evaluation? codename with
    | none =>
      constructor
      · intro h
        cases h
      · rintro ⟨hc, -⟩
        have := hc codename (List.mem_cons_self ..)
        rw [hev] at this
        cases this
    | some ev =>
      cases hr : evaluationsOf submission number rest with
      | error e =>
        constructor
        · intro h
          cases h
        · rintro ⟨hc, -⟩
          have := ih.mpr ⟨hc.tail, rfl⟩
          rw [hr] at this
          cases this
      | ok evs =>
        obtain ⟨hrest, rfl⟩ := ih.mp hr
        have hc := Covers.cons hev hrest
        simp only [Except.map, Except.ok.injEq, evaluationsFor, List.filterMap_cons, hev]
        exact ⟨fun h => ⟨hc, h.symm⟩, fun h => h.2.symm⟩

/-- The subtasks from `number` on, each graded from its own evaluations. -/
def gradedFrom (st : ScoreType) (submission : Submission) (number : Nat)
    (subtasks : List Subtask) : List Graded :=
  subtasks.mapIdx fun i s => gradedOf st (number + i) s (submission.evaluationsFor s.testcases)

theorem gradedFrom_cons (st : ScoreType) (submission : Submission) (number : Nat) (s : Subtask)
    (rest : List Subtask) :
    gradedFrom st submission number (s :: rest) =
      gradedOf st number s (submission.evaluationsFor s.testcases) ::
        gradedFrom st submission (number + 1) rest := by
  simp only [gradedFrom, List.mapIdx_cons, Nat.add_zero]
  congr 2
  funext i s
  rw [Nat.add_assoc, Nat.add_comm 1 i]

theorem mem_gradedFrom {st : ScoreType} {submission : Submission} {number : Nat}
    {subtasks : List Subtask} {g : Graded} (hg : g ∈ st.gradedFrom submission number subtasks) :
    ∃ s ∈ subtasks, ∃ i,
      g = gradedOf st (number + i) s (submission.evaluationsFor s.testcases) := by
  obtain ⟨i, hi, rfl⟩ := List.mem_mapIdx.mp hg
  exact ⟨_, List.getElem_mem hi, i, rfl⟩

theorem gradeFrom_eq_iff {st : ScoreType} {submission : Submission} {number : Nat}
    {subtasks : List Subtask} {graded : List Graded} :
    gradeFrom st submission number subtasks = (graded, none) ↔
      (∀ s ∈ subtasks, submission.Covers s.testcases) ∧
        graded = gradedFrom st submission number subtasks := by
  induction subtasks generalizing number graded with
  | nil =>
    simp only [gradeFrom, Prod.mk.injEq, and_true, gradedFrom, List.mapIdx_nil]
    exact ⟨fun h => ⟨by simp, h.symm⟩, fun h => h.2.symm⟩
  | cons s rest ih =>
    unfold gradeFrom
    cases he : evaluationsOf submission number s.testcases with
    | error e =>
      constructor
      · intro h
        simp at h
      · rintro ⟨hc, -⟩
        have : evaluationsOf submission number s.testcases = .ok _ :=
          evaluationsOf_eq_ok_iff.mpr ⟨hc s (List.mem_cons_self ..), rfl⟩
        rw [he] at this
        cases this
    | ok evaluations =>
      obtain ⟨hs, rfl⟩ := evaluationsOf_eq_ok_iff.mp he
      rw [gradedFrom_cons]
      constructor
      · intro h
        obtain ⟨hgraded, herr⟩ := Prod.mk.inj h
        obtain ⟨hrest, heq⟩ := ih.mp (Prod.ext rfl herr)
        refine ⟨List.forall_mem_cons.mpr ⟨hs, hrest⟩, ?_⟩
        rw [← hgraded]
        exact congrArg _ heq
      · rintro ⟨hc, rfl⟩
        rw [ih.mpr ⟨(List.forall_mem_cons.mp hc).2, rfl⟩]

/-! ## The five results -/

/-- Recording the subtasks one after the other adds to each of the five
results on its own. -/
theorem foldl_record (so : ScoreResult) (graded : List Graded) :
    graded.foldl record so =
      { score := (graded.map (·.score)).foldl (· + ·) so.score
        subtasks := so.subtasks ++ graded.map (·.feedback)
        publicScore :=
          ((graded.filter (·.fullyPublic)).map (·.score)).foldl (· + ·) so.publicScore
        publicSubtasks := so.publicSubtasks ++ graded.map (·.publicFeedback)
        rankingDetails := so.rankingDetails ++ graded.map fun g => scoreText g.score } := by
  induction graded generalizing so with
  | nil => simp
  | cons g graded ih =>
    rw [List.foldl_cons, ih]
    cases hp : g.fullyPublic <;> simp [record, hp]

/-- The fraction of its score that a subtask earns. -/
def fractionOf (st : ScoreType) (submission : Submission) (s : Subtask) : Binary64 :=
  st.policy.reduce (s.testcases.map submission.outcome)

/-- The score of a subtask. -/
def scoreOf (st : ScoreType) (submission : Submission) (s : Subtask) : Binary64 :=
  st.fractionOf submission s * s.parameter.weight

/-- The result of a complete submission. -/
def breakdown (st : ScoreType) (submission : Submission) : ScoreResult :=
  { score := Binary64.sum (st.subtasks.map (st.scoreOf submission))
    subtasks := (st.gradedFrom submission 1 st.subtasks).map (·.feedback)
    publicScore := Binary64.sum ((st.subtasks.filter st.isFullyPublic).map (st.scoreOf submission))
    publicSubtasks := (st.gradedFrom submission 1 st.subtasks).map (·.publicFeedback)
    rankingDetails := st.subtasks.map fun s => scoreText (st.scoreOf submission s) }

theorem gradedOf_fraction (st : ScoreType) {submission : Submission} (number : Nat) {s : Subtask}
    (h : submission.Covers s.testcases) :
    (gradedOf st number s (submission.evaluationsFor s.testcases)).fraction =
      st.fractionOf submission s := by
  show st.policy.reduce _ = _
  rw [outcomes_evaluationsFor h, fractionOf]

theorem gradedOf_score (st : ScoreType) {submission : Submission} (number : Nat) {s : Subtask}
    (h : submission.Covers s.testcases) :
    (gradedOf st number s (submission.evaluationsFor s.testcases)).score =
      st.scoreOf submission s := by
  show st.policy.reduce _ * _ = _
  rw [outcomes_evaluationsFor h, scoreOf, fractionOf]

theorem map_score_gradedFrom (st : ScoreType) {submission : Submission} (number : Nat)
    {subtasks : List Subtask} (h : ∀ s ∈ subtasks, submission.Covers s.testcases) :
    (st.gradedFrom submission number subtasks).map (·.score) =
        subtasks.map (st.scoreOf submission) ∧
      ((st.gradedFrom submission number subtasks).filter (·.fullyPublic)).map (·.score) =
        (subtasks.filter st.isFullyPublic).map (st.scoreOf submission) := by
  induction subtasks generalizing number with
  | nil => exact ⟨rfl, rfl⟩
  | cons s rest ih =>
    obtain ⟨hs, hrest⟩ := List.forall_mem_cons.mp h
    obtain ⟨h1, h2⟩ := ih (number + 1) hrest
    have hscore := gradedOf_score st number hs
    have hpublic : (gradedOf st number s (submission.evaluationsFor s.testcases)).fullyPublic =
        st.isFullyPublic s := rfl
    rw [gradedFrom_cons]
    refine ⟨by rw [List.map_cons, List.map_cons, h1, hscore], ?_⟩
    simp only [List.filter_cons, hpublic]
    split
    · rw [List.map_cons, List.map_cons, h2, hscore]
    · exact h2

theorem foldl_record_gradedFrom {st : ScoreType} {submission : Submission}
    (h : st.Complete submission) :
    (st.gradedFrom submission 1 st.subtasks).foldl record noResult = st.breakdown submission := by
  obtain ⟨h1, h2⟩ := map_score_gradedFrom st 1 h
  have htexts : (st.gradedFrom submission 1 st.subtasks).map (fun g => scoreText g.score) =
      st.subtasks.map fun s => scoreText (st.scoreOf submission s) := by
    have := congrArg (List.map scoreText) h1
    rwa [List.map_map, List.map_map] at this
  rw [foldl_record, h1, h2, htexts]
  rfl

/-- The line of a subtask that is not scored. -/
theorem scoreText_zero : scoreText .zero = ("0" : Text) := by decide +kernel

/-- An evaluated submission has a result exactly when it is complete. -/
theorem computeScore_eq_ok_iff {st : ScoreType} {submission : Submission}
    (he : submission.evaluated = true) {r : ScoreResult} :
    st.computeScore submission = .ok r ↔
      st.Complete submission ∧ r = st.breakdown submission := by
  simp only [computeScore, grade, he, Bool.not_true, Bool.false_eq_true, if_false]
  cases hg : gradeFrom st submission 1 st.subtasks with
  | mk graded error =>
    cases error with
    | some error =>
      constructor
      · intro h
        cases h
      · rintro ⟨hc, -⟩
        have : gradeFrom st submission 1 st.subtasks = (_, none) := gradeFrom_eq_iff.mpr ⟨hc, rfl⟩
        rw [hg] at this
        simp at this
    | none =>
      obtain ⟨hc, rfl⟩ := gradeFrom_eq_iff.mp hg
      show Except.ok _ = _ ↔ _
      rw [foldl_record_gradedFrom hc, Except.ok.injEq]
      exact ⟨fun h => ⟨hc, h.symm⟩, fun h => h.2.symm⟩

/-! ## Maximal scores -/

theorem addMaxScores_eq (st : ScoreType) (number : Nat) (so : MaxScores)
    (subtasks : List Subtask) :
    st.addMaxScores number so subtasks =
      { maxScore := (subtasks.map (·.parameter.weight)).foldl (· + ·) so.maxScore
        maxPublicScore :=
          ((subtasks.filter st.isFullyPublic).map (·.parameter.weight)).foldl (· + ·)
            so.maxPublicScore
        headers := so.headers ++ subtasks.mapIdx fun i s => header (number + i) s.parameter } := by
  induction subtasks generalizing number so with
  | nil => simp [addMaxScores]
  | cons s rest ih =>
    rw [addMaxScores, ih]
    have hnumber : ∀ i, number + 1 + i = number + (i + 1) := by omega
    cases hp : st.isFullyPublic s <;>
      simp [hp, List.mapIdx_cons, hnumber]

/-- The maximal scores are the sums of the weights. -/
theorem maxScores_eq (st : ScoreType) :
    st.maxScores =
      { maxScore := Binary64.sum (st.subtasks.map (·.parameter.weight))
        maxPublicScore :=
          Binary64.sum ((st.subtasks.filter st.isFullyPublic).map (·.parameter.weight))
        headers := st.subtasks.mapIdx fun i s => header (1 + i) s.parameter } :=
  addMaxScores_eq st 1 ⟨.zero, .zero, []⟩ st.subtasks

/-! ## What a breakdown tells -/

theorem getElem?_gradedFrom (st : ScoreType) (submission : Submission) (number : Nat)
    (subtasks : List Subtask) (i : Nat) :
    (st.gradedFrom submission number subtasks)[i]? = subtasks[i]?.map fun s =>
      gradedOf st (number + i) s (submission.evaluationsFor s.testcases) :=
  List.getElem?_mapIdx

end ScoreType

/-- The score that an entry of a breakdown tells of; none if it tells of no score. -/
def SubtaskFeedback.earned (entry : SubtaskFeedback) : Binary64 :=
  (entry.score.map fun s => s.fraction * s.maxScore).getD .zero

/-- `x` is what the policy makes of the outcomes: the least of them, NaN if
there is one, their product from one on, or their sum from zero on, divided
by their number. -/
def Policy.Folds : Policy → List Binary64 → Binary64 → Prop
  | .minimum, outcomes, x =>
    if .nan ∈ outcomes then x = .nan else x ∈ outcomes ∧ ∀ y ∈ outcomes, x.Precedes y
  | .product, outcomes, x => x = outcomes.foldl (· * ·) .one
  | .mean, outcomes, x => x = outcomes.foldl (· + ·) .zero / .ofNat outcomes.length

theorem Policy.folds_reduce (p : Policy) {outcomes : List Binary64} (hne : outcomes ≠ []) :
    p.Folds outcomes (p.reduce outcomes) := by
  cases p with
  | minimum =>
    show if .nan ∈ outcomes then _ else _
    split
    next hn => exact Binary64.minimum_eq_nan_iff.mpr hn
    next hn => exact ⟨Binary64.minimum_mem hn hne, Binary64.minimum_precedes hn⟩
  | product => rfl
  | mean => rfl

namespace ScoreType

open Submission

theorem earned_gradedFrom (st : ScoreType) {submission : Submission} (number : Nat)
    {subtasks : List Subtask} (h : ∀ s ∈ subtasks, submission.Covers s.testcases) :
    (st.gradedFrom submission number subtasks).map (·.feedback.earned) =
        subtasks.map (st.scoreOf submission) ∧
      ((((st.gradedFrom submission number subtasks).map (·.feedback)).zip
          (subtasks.map (·.testcases))).filter fun e => e.2.all st.isPublic).map (·.1.earned) =
        (subtasks.filter st.isFullyPublic).map (st.scoreOf submission) := by
  induction subtasks generalizing number with
  | nil => exact ⟨rfl, rfl⟩
  | cons s rest ih =>
    obtain ⟨hs, hrest⟩ := List.forall_mem_cons.mp h
    obtain ⟨h1, h2⟩ := ih (number + 1) hrest
    have hearned :
        (gradedOf st number s (submission.evaluationsFor s.testcases)).feedback.earned =
          st.scoreOf submission s := gradedOf_score st number hs
    have hpublic : s.testcases.all st.isPublic = st.isFullyPublic s := rfl
    rw [gradedFrom_cons]
    refine ⟨by rw [List.map_cons, List.map_cons, h1, hearned], ?_⟩
    simp only [List.map_cons, List.zip_cons_cons, List.filter_cons, hpublic]
    split
    · rw [List.map_cons, List.map_cons, h2, hearned]
    · exact h2

/-- The entry and the line of the ranking at one place. -/
theorem getElem?_breakdown (st : ScoreType) (submission : Submission) {i : Nat} {s : Subtask}
    (hs : st.subtasks[i]? = some s) :
    (st.breakdown submission).subtasks[i]? =
        some (gradedOf st (i + 1) s (submission.evaluationsFor s.testcases)).feedback ∧
      (st.breakdown submission).rankingDetails[i]? =
        some (scoreText (st.scoreOf submission s)) := by
  constructor
  · show ((st.gradedFrom submission 1 st.subtasks).map (·.feedback))[i]? = _
    rw [List.getElem?_map, getElem?_gradedFrom, hs, Nat.add_comm]
    rfl
  · show (st.subtasks.map fun s => scoreText (st.scoreOf submission s))[i]? = _
    rw [List.getElem?_map, hs]
    rfl

theorem folds_evaluationsFor {policy : Policy} {json : Json} {testcases : List Testcase}
    {st : ScoreType} (hst : ofPolicy policy json testcases = .ok st) {submission : Submission}
    {s : Subtask} (hs : s ∈ st.subtasks) (hc : submission.Covers s.testcases) :
    st.policy.Folds ((submission.evaluationsFor s.testcases).map (·.outcome))
      (st.policy.reduce ((submission.evaluationsFor s.testcases).map (·.outcome))) := by
  apply st.policy.folds_reduce
  rw [outcomes_evaluationsFor hc]
  simpa using (testcases_of_ofPolicy hst hs).1

/-- **Totals and breakdown agree.** Every parameter has an entry, in order,
with the fraction that the policy makes of the outcomes of just its own
testcases, as the last evaluation of each has them; the score is the sum of
what the entries earn, the public score that of the entries whose testcases
are all public, and a line of the ranking is the text of what its entry
earns. -/
theorem totals_eq_breakdown {policy : Policy} {json : Json} {testcases : List Testcase}
    {st : ScoreType} (hst : ofPolicy policy json testcases = .ok st) {submission : Submission}
    (he : submission.evaluated = true) {r : ScoreResult}
    (h : st.computeScore submission = .ok r) :
    ∃ (parameters : List Parameter) (targets : List (List Text)),
      Parameter.parse json = .ok parameters ∧
      Targets.resolve (parameters.map (·.target)) (testcases.map (·.codename)) = .ok targets ∧
      targets.length = parameters.length ∧ r.subtasks.length = parameters.length ∧
      r.rankingDetails.length = parameters.length ∧
      (∀ (i : Nat) (p : Parameter) (codenames : List Text),
        parameters[i]? = some p → targets[i]? = some codenames →
        ∃ (evaluations : List Evaluation) (fraction : Binary64) (shown : List TestcaseFeedback),
          List.Forall₂ submission.IsLast codenames evaluations ∧
          policy.Folds (evaluations.map (·.outcome)) fraction ∧
          r.subtasks[i]? = some ⟨.ofNat (i + 1), some ⟨fraction, p.weight, p.title⟩, shown⟩ ∧
          r.rankingDetails[i]? = some (scoreText (fraction * p.weight))) ∧
      r.score = (r.subtasks.map (·.earned)).foldl (· + ·) .zero ∧
      r.publicScore =
        (((r.subtasks.zip targets).filter fun e => e.2.all (isPublicIn testcases)).map
          (·.1.earned)).foldl (· + ·) .zero := by
  obtain ⟨hc, rfl⟩ := (computeScore_eq_ok_iff he).mp h
  have hknown := isPublic_of_ofPolicy hst
  obtain ⟨-, rfl, rfl, hp, ht⟩ := ofPolicy_eq_ok_iff.mp hst
  obtain ⟨hscore, hpublic⟩ := earned_gradedFrom st 1 hc
  refine ⟨st.parameters, st.targets, hp, ht, ?_, ?_, ?_, ?_, ?_, ?_⟩
  · simp [parameters, targets]
  · simp [parameters, breakdown, gradedFrom]
  · simp [parameters, breakdown]
  · intro i p codenames hip hic
    obtain ⟨s, hs, rfl⟩ : ∃ s, st.subtasks[i]? = some s ∧ s.parameter = p := by
      simpa [parameters] using hip
    have hcs : s.testcases = codenames := by simpa [targets, hs] using hic
    subst hcs
    have hmem := List.mem_of_getElem? hs
    obtain ⟨hentry, hline⟩ := getElem?_breakdown st submission hs
    rw [scoreOf, fractionOf, ← outcomes_evaluationsFor (hc s hmem)] at hline
    exact ⟨_, _, _, (hc s hmem).forall₂_isLast, folds_evaluationsFor hst hmem (hc s hmem),
      hentry, hline⟩
  · show Binary64.sum _ = _
    rw [← hscore, breakdown, List.map_map]
    rfl
  · show Binary64.sum _ = _
    rw [← hpublic, ← hknown]
    rfl

/-- One half. -/
def half : Binary64 := .one / .ofNat 2

/-- A submission to the two subtasks, with full outcomes but for the first and
third testcase. -/
def fullBut (first third : Binary64) : Submission where
  evaluated := true
  evaluations :=
    [⟨[97], first, .null, none, none, []⟩, ⟨[98], .one, .null, none, none, []⟩,
      ⟨[99], third, .null, none, none, []⟩, ⟨[100], .one, .null, none, none, []⟩]

theorem complete_fullBut (policy : Policy) (first third : Binary64) :
    (twoSubtasks policy).Complete (fullBut first third) := by
  intro s hs codename hc
  simp only [twoSubtasks, List.mem_cons, List.not_mem_nil, or_false] at hs
  rcases hs with rfl | rfl <;> simp only [List.mem_cons, List.not_mem_nil, or_false] at hc
  · rcases hc with rfl | rfl | rfl <;> rfl
  · subst hc; rfl

/-- Three testcases, one of them private, have outcomes of one half, one and
zero, and earn 15 points of 30; the fourth earns all of 70, which alone are
public. -/
theorem totals_eq_breakdown_fullBut :
    ofPolicy .mean threeAndOne fourTestcases = .ok (twoSubtasks .mean) ∧
      (fullBut half .zero).evaluated = true ∧
      ∃ r, (twoSubtasks .mean).computeScore (fullBut half .zero) = .ok r ∧
        r.subtasks.map (fun entry => entry.score.map (·.fraction)) = [some half, some .one] ∧
        r.score = .ofNat 85 ∧ r.publicScore = .ofNat 70 ∧ r.rankingDetails = ["15", "70"] := by
  have hst := ofPolicy_twoSubtasks .mean
  have hcomplete := complete_fullBut .mean half .zero
  have h : (twoSubtasks .mean).computeScore (fullBut half .zero) = .ok _ :=
    (computeScore_eq_ok_iff rfl).mpr ⟨hcomplete, rfl⟩
  refine ⟨hst, rfl, _, h, ?_⟩
  generalize (twoSubtasks .mean).breakdown (fullBut half .zero) = r at h
  obtain ⟨parameters, targets, hp, ht, -, hentries, hlines, hsubtask, hscore, hpublic⟩ :=
    totals_eq_breakdown hst rfl h
  obtain ⟨-, -, -, hp', ht'⟩ := ofPolicy_eq_ok_iff.mp hst
  obtain rfl := Except.ok.inj (hp.symm.trans hp')
  obtain rfl := Except.ok.inj (ht.symm.trans ht')
  obtain ⟨first, fraction, _, hlast, hfolds, hentry, hline⟩ := hsubtask 0 _ _ rfl rfl
  obtain ⟨second, fraction', _, hlast', hfolds', hentry', hline'⟩ := hsubtask 1 _ _ rfl rfl
  obtain rfl := Submission.forall₂_isLast_unique hlast
    (hcomplete _ (List.mem_cons_self ..)).forall₂_isLast
  obtain rfl := Submission.forall₂_isLast_unique hlast'
    (hcomplete _ (List.mem_cons_of_mem _ (List.mem_cons_self ..))).forall₂_isLast
  obtain rfl : fraction = half := hfolds.trans (by decide +kernel)
  obtain rfl : fraction' = .one := hfolds'.trans (by decide +kernel)
  obtain ⟨entry, entry', hsubtasks⟩ := List.length_eq_two.mp hentries
  obtain ⟨line, line', hranking⟩ := List.length_eq_two.mp hlines
  rw [hsubtasks] at hentry hentry' hscore hpublic ⊢
  rw [hranking] at hline hline' ⊢
  cases hentry
  cases hentry'
  cases hline
  cases hline'
  refine ⟨rfl, hscore.trans ?_, hpublic.trans ?_, ?_⟩
  · show .zero + half * .ofNat 30 + .one * .ofNat 70 = Binary64.ofNat 85
    decide +kernel
  · show .zero + .one * .ofNat 70 = Binary64.ofNat 70
    decide +kernel
  · show [scoreText (half * .ofNat 30), scoreText (.one * .ofNat 70)] = _
    decide +kernel

end ScoreType

end ContestGrading
