import ContestGrading.Proofs.Grading.Breakdown
/-!
# Grading does not depend on orders

Testcases come as a list and so do evaluations, but their order does not
matter: the codenames are sorted before they are given out, and an evaluation
is found by its codename. Evaluations of testcases that no subtask has do not
matter at all. That the sums and products of outcomes depend on the order of
their terms does no harm, since that order is fixed by the sorted codenames.

Results:
* `resolve_eq_of_perm`, `create_eq_of_perm`: the score type, or the error.
* `evaluation?_eq_of_perm`: the evaluation of a testcase.
* `computeScore_congr`: what a result depends on.
* `computeScore_eq_of_perm`: the result of a submission, or the error.
-/
namespace ContestGrading

/-! ## Testcases in another order -/

theorem Targets.resolve_eq_of_perm {codenames others : List Text} (h : codenames.Perm others)
    (targets : List Target) : resolve targets codenames = resolve targets others := by
  unfold resolve
  rw [sort_eq_of_perm h]

namespace ScoreType

theorem ofPolicy_eq_of_perm {testcases others : List Testcase} (h : testcases.Perm others)
    (policy : Policy) (json : Json) :
    ofPolicy policy json others =
      (ofPolicy policy json testcases).map fun st => { st with testcases := others } := by
  have hnames : (testcases.map (·.codename)).Perm (others.map (·.codename)) := h.map _
  unfold ofPolicy
  cases Parameter.parse json with
  | error e => rfl
  | ok parameters =>
    simp only [bind, Except.bind, hnames.nodup_iff, Targets.resolve_eq_of_perm hnames]
    split
    next => rfl
    next =>
      cases Targets.resolve (parameters.map (·.target)) (others.map (·.codename)) with
      | error e => rfl
      | ok targets => rfl

/-- From the same testcases in another order the same score type is built,
but for that order, or the same error arises. -/
theorem create_eq_of_perm {testcases others : List Testcase} (h : testcases.Perm others)
    (name : Text) (json : Json) :
    create name json others =
      (create name json testcases).map fun st => { st with testcases := others } := by
  unfold create
  cases Policy.ofName? name with
  | none => rfl
  | some policy => exact ofPolicy_eq_of_perm h policy json

theorem isPublicIn_eq_of_perm {testcases others : List Testcase} (h : testcases.Perm others) :
    isPublicIn testcases = isPublicIn others :=
  funext fun _ => decide_eq_decide.mpr h.mem_iff

end ScoreType

/-! ## Evaluations in another order -/

namespace Submission

/-- The submission with the evaluations of these testcases only. -/
def restrict (keep : Text → Bool) (s : Submission) : Submission :=
  { s with evaluations := s.evaluations.filter fun ev => keep ev.codename }

theorem evaluation?_restrict {keep : Text → Bool} {codename : Text} (h : keep codename = true)
    (s : Submission) : (s.restrict keep).evaluation? codename = s.evaluation? codename := by
  rw [evaluation?, evaluation?, restrict, ← List.filter_reverse, List.find?_filter]
  congr 1
  funext ev
  cases hev : ev.codename == codename with
  | false => simp
  | true => simp [beq_iff_eq.mp hev, h]

/-- Where no codename occurs twice, the evaluation of a testcase is the one
of its codename. -/
theorem evaluation?_eq_some_iff {s : Submission} (h : (s.evaluations.map (·.codename)).Nodup)
    {codename : Text} {ev : Evaluation} :
    s.evaluation? codename = some ev ↔ ev ∈ s.evaluations ∧ ev.codename = codename := by
  have hreverse : (s.evaluations.reverse.map (·.codename)).Nodup := by
    rwa [List.map_reverse, List.nodup_reverse]
  rw [evaluation?, find?_key_eq_some_iff hreverse, List.mem_reverse]

theorem evaluation?_eq_of_perm {s s' : Submission} (hn : (s.evaluations.map (·.codename)).Nodup)
    (h : s.evaluations.Perm s'.evaluations) (codename : Text) :
    s.evaluation? codename = s'.evaluation? codename := by
  have hn' : (s'.evaluations.map (·.codename)).Nodup := (h.map _).nodup_iff.mp hn
  refine Option.ext fun ev => ?_
  rw [evaluation?_eq_some_iff hn, evaluation?_eq_some_iff hn', h.mem_iff]

end Submission

namespace ScoreType

variable {st st' : ScoreType} {s s' : Submission}

/-! ## What a result depends on -/

theorem evaluationsOf_congr {codenames : List Text}
    (h : ∀ codename ∈ codenames, s'.evaluation? codename = s.evaluation? codename)
    (number : Nat) : evaluationsOf s' number codenames = evaluationsOf s number codenames := by
  induction codenames with
  | nil => rfl
  | cons codename rest ih =>
    obtain ⟨hcodename, hrest⟩ := List.forall_mem_cons.mp h
    rw [evaluationsOf, evaluationsOf, hcodename, ih hrest]

theorem gradedOf_congr (hpolicy : st'.policy = st.policy) (hpublic : st'.isPublic = st.isPublic)
    (number : Nat) (sub : Subtask) (evs : List Evaluation) :
    gradedOf st' number sub evs = gradedOf st number sub evs := by
  have hfully : st'.isFullyPublic sub = st.isFullyPublic sub := by
    rw [isFullyPublic, isFullyPublic, hpublic]
  rw [gradedOf, gradedOf, hpolicy, hpublic, hfully]

theorem gradeFrom_congr (hpolicy : st'.policy = st.policy) (hpublic : st'.isPublic = st.isPublic)
    {subtasks : List Subtask}
    (h : ∀ sub ∈ subtasks, ∀ codename ∈ sub.testcases,
      s'.evaluation? codename = s.evaluation? codename) (number : Nat) :
    gradeFrom st' s' number subtasks = gradeFrom st s number subtasks := by
  induction subtasks generalizing number with
  | nil => rfl
  | cons sub rest ih =>
    obtain ⟨hsub, hrest⟩ := List.forall_mem_cons.mp h
    simp only [gradeFrom, evaluationsOf_congr hsub, gradedOf_congr hpolicy hpublic, ih hrest]

/-- A result depends on the policy, the subtasks, what is public, and the
evaluations of the testcases of the subtasks. -/
theorem computeScore_congr (hpolicy : st'.policy = st.policy)
    (hsubtasks : st'.subtasks = st.subtasks) (hpublic : st'.isPublic = st.isPublic)
    (he : s'.evaluated = s.evaluated)
    (h : ∀ sub ∈ st.subtasks, ∀ codename ∈ sub.testcases,
      s'.evaluation? codename = s.evaluation? codename) :
    st'.computeScore s' = st.computeScore s := by
  rw [computeScore, computeScore, grade, grade, he, hsubtasks,
    gradeFrom_congr hpolicy hpublic h]

/-! ## Independence -/

/-- Some subtask has a testcase of that codename. -/
def isTargeted (st : ScoreType) (codename : Text) : Bool :=
  st.subtasks.any fun sub => sub.testcases.contains codename

theorem isTargeted_of_mem {sub : Subtask} (hs : sub ∈ st.subtasks) {codename : Text}
    (h : codename ∈ sub.testcases) : st.isTargeted codename = true :=
  List.any_eq_true.mpr ⟨sub, hs, List.contains_iff_mem.mpr h⟩

/-- **Orders do not matter.** From the same testcases in another order the
same targets arise, or the same error. A submission whose evaluations come in
another order, more or fewer of them for testcases that are not targeted,
has the same result, or the same error, also where the testcases were in
another order. -/
theorem computeScore_eq_of_perm {name : Text} {json : Json} {testcases others : List Testcase}
    (h : testcases.Perm others) :
    (create name json others).map targets = (create name json testcases).map targets ∧
      ∀ st st', create name json testcases = .ok st → create name json others = .ok st' →
        ∀ s s' : Submission, s'.evaluated = s.evaluated →
          (s.evaluations.map (·.codename)).Nodup →
          (s.restrict st.isTargeted).evaluations.Perm (s'.restrict st.isTargeted).evaluations →
          st'.computeScore s' = st.computeScore s := by
  have hcreate := create_eq_of_perm h name json
  constructor
  · rw [hcreate]
    cases create name json testcases <;> rfl
  · intro st st' hst hst' s s' he hn hperm
    obtain ⟨policy, -, hbuilt⟩ := create_eq_ok_iff.mp hst
    obtain ⟨policy', -, hbuilt'⟩ := create_eq_ok_iff.mp hst'
    rw [hst, hst'] at hcreate
    cases hcreate
    refine computeScore_congr rfl rfl ?_ he ?_
    · rw [isPublic_of_ofPolicy hbuilt, isPublic_of_ofPolicy hbuilt', isPublicIn_eq_of_perm h]
    · intro sub hsub codename hc
      have htargeted := isTargeted_of_mem hsub hc
      have hrestricted : ((s.restrict st.isTargeted).evaluations.map (·.codename)).Nodup :=
        hn.sublist (List.filter_sublist.map _)
      rw [← Submission.evaluation?_restrict htargeted s',
        ← Submission.evaluation?_restrict htargeted s,
        Submission.evaluation?_eq_of_perm hrestricted hperm]

/-- A submission with its evaluations in reverse, and one more in front. -/
def reversed (submission : Submission) (codename : Text) : Submission :=
  { submission with
    evaluations := ⟨codename, half, .null, none, none, []⟩ :: submission.evaluations.reverse }

theorem computeScore_eq_of_perm_fullBut :
    fourTestcases.Perm fourTestcases.reverse ∧
      ∃ st', create Policy.mean.name threeAndOne fourTestcases = .ok (twoSubtasks .mean) ∧
        create Policy.mean.name threeAndOne fourTestcases.reverse = .ok st' ∧
        ((fullBut half .zero).evaluations.map (·.codename)).Nodup ∧
        st'.computeScore (reversed (fullBut half .zero) [120]) =
          (twoSubtasks .mean).computeScore (fullBut half .zero) := by
  have hperm : fourTestcases.Perm fourTestcases.reverse := (List.reverse_perm _).symm
  have hst := create_twoSubtasks .mean
  have hst' := create_eq_of_perm hperm Policy.mean.name threeAndOne
  rw [hst] at hst'
  have hn : ((fullBut half .zero).evaluations.map (·.codename)).Nodup := by decide
  have huntargeted : (twoSubtasks .mean).isTargeted [120] = false := by decide
  have hevaluations :
      ((fullBut half .zero).restrict (twoSubtasks .mean).isTargeted).evaluations.Perm
        ((reversed (fullBut half .zero) [120]).restrict
          (twoSubtasks .mean).isTargeted).evaluations := by
    rw [Submission.restrict, Submission.restrict, reversed,
      List.filter_cons_of_neg (by simp [huntargeted]), List.filter_reverse]
    exact (List.reverse_perm _).symm
  exact ⟨hperm, _, hst, hst', hn,
    (computeScore_eq_of_perm hperm).2 _ _ hst hst' _ _ rfl hn hevaluations⟩

end ScoreType

end ContestGrading
