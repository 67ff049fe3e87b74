import ContestGrading.Grading.ScoreType
import ContestGrading.Proofs.Json.Keys
import ContestGrading.Proofs.Outcome
import Mathlib.Data.List.Nodup
/-!
# Score types that were built

What the parameters and testcases of a score type are, once it could be
built: those of the list of parameters and those that the targets resolve
to, one for one and none empty.

Results:
* `ofPolicy_eq_ok_iff`, `create_eq_ok_iff`: when a score type is built, and which.
* `resolve_ok`: one list of testcases per target, none of them empty or
  longer than the list of all codenames.
* `testcases_of_ofPolicy`: the same for the subtasks of a score type.
* `isPublic_of_ofPolicy`: a codename is public if a public testcase has it.
-/
namespace ContestGrading

namespace Targets

theorem length_mapM_option {α β : Type} {f : α → Option β} {xs : List α} {ys : List β}
    (h : xs.mapM f = some ys) : ys.length = xs.length := by
  induction xs generalizing ys with
  | nil => simp at h; simp [← h]
  | cons x xs ih =>
    simp only [List.mapM_cons, Option.bind_eq_bind, Option.bind_eq_some_iff, Option.pure_def,
      Option.some.injEq] at h
    obtain ⟨y, -, zs, hzs, rfl⟩ := h
    simp [ih hzs]

theorem split_mem {α : Type} {counts : List Nat} {xs part : List α}
    (h : part ∈ split counts xs) : part.length ≤ xs.length := by
  induction counts generalizing xs with
  | nil => cases h
  | cons n counts ih =>
    rcases List.mem_cons.mp h with rfl | h
    · rw [List.length_take]; exact Nat.min_le_right _ _
    · have := ih h
      rw [List.length_drop] at this
      omega

theorem byCounts_ok {counts : List Binary64} {sorted : List Text} {lists : List (List Text)}
    (h : byCounts counts sorted = .ok lists) :
    lists.length = counts.length ∧ ∀ l ∈ lists, l.length ≤ sorted.length := by
  unfold byCounts at h
  split at h
  · cases h
  · dsimp only at h
    split at h
    · cases h
      exact ⟨by simp [length_split], fun l hl => split_mem hl⟩
    · cases h

theorem byPatterns_ok {sorted patterns : List Text} {lists : List (List Text)}
    (h : byPatterns sorted patterns = .ok lists) :
    lists.length = patterns.length ∧ ∀ l ∈ lists, l.length ≤ sorted.length := by
  induction patterns generalizing lists with
  | nil => cases h; simp
  | cons target rest ih =>
    unfold byPatterns at h
    split at h
    · cases h
    · next node _ =>
      cases hr : byPatterns sorted rest with
      | error e => rw [hr] at h; cases h
      | ok found =>
        rw [hr] at h
        cases h
        obtain ⟨hlen, hle⟩ := ih hr
        refine ⟨by simp [hlen], ?_⟩
        intro l hl
        rcases List.mem_cons.mp hl with rfl | hl
        · exact List.length_filter_le _ _
        · exact hle l hl

theorem perm_sort (codenames : List Text) : (sort codenames).Perm codenames :=
  List.mergeSort_perm _ _

theorem length_sort (codenames : List Text) : (sort codenames).length = codenames.length :=
  List.length_mergeSort _

/-- One list of testcases per target, none empty or longer than them all. -/
theorem resolve_ok {targets : List Target} {codenames : List Text} {lists : List (List Text)}
    (h : resolve targets codenames = .ok lists) :
    lists.length = targets.length ∧
      ∀ l ∈ lists, l ≠ [] ∧ l.length ≤ codenames.length := by
  have hfound : ∃ found, requireTestcases found = .ok lists ∧ found.length = targets.length ∧
      ∀ l ∈ found, l.length ≤ (sort codenames).length := by
    unfold resolve at h
    dsimp only at h
    split at h
    next counts hc =>
      obtain ⟨found, hf, hr⟩ := bind_eq_ok_iff.mp h
      obtain ⟨h1, h2⟩ := byCounts_ok hf
      exact ⟨found, hr, h1.trans (length_mapM_option hc), h2⟩
    next =>
      split at h
      next patterns hp =>
        obtain ⟨found, hf, hr⟩ := bind_eq_ok_iff.mp h
        obtain ⟨h1, h2⟩ := byPatterns_ok hf
        exact ⟨found, hr, h1.trans (length_mapM_option hp), h2⟩
      next => cases h
  obtain ⟨found, hr, hlen, hle⟩ := hfound
  obtain ⟨rfl, hne⟩ := requireTestcases_ok hr
  rw [length_sort] at hle
  exact ⟨hlen, fun l hl => ⟨hne l hl, hle l hl⟩⟩

end Targets

namespace ScoreType

theorem map_zipWith_mk {ps : List Parameter} {ts : List (List Text)} (h : ts.length = ps.length) :
    (List.zipWith Subtask.mk ps ts).map (·.parameter) = ps ∧
      (List.zipWith Subtask.mk ps ts).map (·.testcases) = ts := by
  induction ps generalizing ts with
  | nil =>
    cases ts with
    | nil => exact ⟨rfl, rfl⟩
    | cons t ts => cases h
  | cons p ps ih =>
    cases ts with
    | nil => cases h
    | cons t ts =>
      obtain ⟨h1, h2⟩ := ih (Nat.succ.inj h)
      simp [h1, h2]

theorem zipWith_mk_map (subtasks : List Subtask) :
    List.zipWith Subtask.mk (subtasks.map (·.parameter)) (subtasks.map (·.testcases)) =
      subtasks := by
  rw [List.zipWith_map, List.zipWith_self, List.map_id']

/-- A score type is built from its parameters and resolved targets exactly
when there is no error in either and no codename occurs twice. -/
theorem ofPolicy_eq_ok_iff {policy : Policy} {json : Json} {testcases : List Testcase}
    {st : ScoreType} :
    ofPolicy policy json testcases = .ok st ↔
      (testcases.map (·.codename)).Nodup ∧ st.policy = policy ∧ st.testcases = testcases ∧
        Parameter.parse json = .ok st.parameters ∧
        Targets.resolve (st.parameters.map (·.target)) (testcases.map (·.codename)) =
          .ok st.targets := by
  unfold ofPolicy
  rw [bind_eq_ok_iff]
  constructor
  · rintro ⟨parameters, hp, h⟩
    dsimp only at h
    split at h
    next => cases h
    next hn =>
      obtain ⟨targets, ht, h⟩ := bind_eq_ok_iff.mp h
      cases h
      have hlen : targets.length = parameters.length := by
        have := (Targets.resolve_ok ht).1
        rwa [List.length_map] at this
      obtain ⟨hps, hts⟩ := map_zipWith_mk hlen
      refine ⟨Classical.not_not.mp hn, rfl, rfl, ?_, ?_⟩
      · rw [ScoreType.parameters, hps]; exact hp
      · rw [ScoreType.parameters, hps, ScoreType.targets, hts]; exact ht
  · rintro ⟨hn, rfl, rfl, hp, ht⟩
    refine ⟨st.parameters, hp, ?_⟩
    dsimp only
    rw [if_neg (not_not_intro hn), ht, ScoreType.parameters, ScoreType.targets]
    show Except.ok (ScoreType.mk _ _ (List.zipWith Subtask.mk _ _)) = _
    rw [zipWith_mk_map]

/-- A score type of a known name is that of its policy. -/
theorem create_eq_ok_iff {name : Text} {json : Json} {testcases : List Testcase}
    {st : ScoreType} :
    create name json testcases = .ok st ↔
      ∃ policy, Policy.ofName? name = some policy ∧ ofPolicy policy json testcases = .ok st := by
  unfold create
  cases Policy.ofName? name with
  | none => simp
  | some policy => simp

/-- No subtask of a score type that was built is empty. -/
theorem testcases_of_ofPolicy {policy : Policy} {json : Json} {testcases : List Testcase}
    {st : ScoreType} (h : ofPolicy policy json testcases = .ok st) {s : Subtask}
    (hs : s ∈ st.subtasks) : s.testcases ≠ [] ∧ s.testcases.length ≤ testcases.length := by
  obtain ⟨-, -, -, -, ht⟩ := ofPolicy_eq_ok_iff.mp h
  have := (Targets.resolve_ok ht).2 _ (List.mem_map_of_mem hs)
  rwa [List.length_map] at this

/-! ## Public testcases -/

/-- The codename of a public testcase. -/
def isPublicIn (testcases : List Testcase) (codename : Text) : Bool :=
  decide (⟨codename, true⟩ ∈ testcases)

/-- The public codenames of a score type are those of its public testcases. -/
theorem isPublic_of_ofPolicy {policy : Policy} {json : Json} {testcases : List Testcase}
    {st : ScoreType} (h : ofPolicy policy json testcases = .ok st) :
    st.isPublic = isPublicIn testcases := by
  obtain ⟨hn, -, rfl, -, -⟩ := ofPolicy_eq_ok_iff.mp h
  funext codename
  rw [isPublic, isPublicIn, Bool.eq_iff_iff, Option.any_eq_true, decide_eq_true_iff]
  constructor
  · rintro ⟨⟨name, flag⟩, hf, hp⟩
    obtain ⟨hmem, hname⟩ := (find?_key_eq_some_iff hn).mp hf
    dsimp only at hp hname
    rwa [← hp, ← hname]
  · intro hmem
    exact ⟨_, (find?_key_eq_some_iff hn).mpr ⟨hmem, rfl⟩, rfl⟩

/-- The codename of a private testcase is not public. -/
theorem isPublicIn_of_private {policy : Policy} {json : Json} {testcases : List Testcase}
    {st : ScoreType} (h : ofPolicy policy json testcases = .ok st) {tc : Testcase}
    (htc : tc ∈ testcases) (hp : tc.isPublic = false) :
    isPublicIn testcases tc.codename = false := by
  obtain ⟨hn, -⟩ := ofPolicy_eq_ok_iff.mp h
  refine decide_eq_false fun hmem => ?_
  rw [← List.inj_on_of_nodup_map hn hmem htc rfl] at hp
  cases hp

/-! ## A score type of two subtasks -/

/-- Four testcases, the third of them private. -/
def fourTestcases : List Testcase :=
  [⟨[97], true⟩, ⟨[98], true⟩, ⟨[99], false⟩, ⟨[100], true⟩]

/-- Two subtasks, the first of three testcases and the second of one. -/
def threeAndOne : Json :=
  .list [.list [.number (.ofNat 30), .number (.ofNat 3)],
    .list [.number (.ofNat 70), .number (.ofNat 1), .string [84]]]

theorem validWeight_thirty : ValidWeight (.ofNat 30) := by decide +kernel

theorem validWeight_seventy : ValidWeight (.ofNat 70) := by decide +kernel

/-- The score type of the two subtasks. -/
def twoSubtasks (policy : Policy) : ScoreType where
  policy := policy
  testcases := fourTestcases
  subtasks :=
    [⟨⟨.ofNat 30, validWeight_thirty, .count (.ofNat 3), [], none, fun _ => rfl⟩,
        [[97], [98], [99]]⟩,
      ⟨⟨.ofNat 70, validWeight_seventy, .count (.ofNat 1), [], some [84], nofun⟩, [[100]]⟩]

theorem byCounts_fourTestcases :
    Targets.byCounts [.ofNat 3, .ofNat 1] (fourTestcases.map (·.codename)) =
      .ok [[[97], [98], [99]], [[100]]] := by
  obtain ⟨hcount, htotal, hcut⟩ : [Binary64.ofNat 3, .ofNat 1].all Targets.isCount = true ∧
      (Binary64.sum [.ofNat 3, .ofNat 1]).sameValue (.ofNat 4) = true ∧
      [Binary64.ofNat 3, .ofNat 1].map (fun x => x.truncate.toNat) = [3, 1] := by
    decide +kernel
  have hlen : (fourTestcases.map (·.codename)).length = 4 := rfl
  simp only [Targets.byCounts, hcount, Bool.not_true, Bool.false_eq_true, if_false, hcut, hlen]
  rw [if_pos htotal]
  rfl

theorem ofPolicy_twoSubtasks (policy : Policy) :
    ofPolicy policy threeAndOne fourTestcases = .ok (twoSubtasks policy) := by
  refine ofPolicy_eq_ok_iff.mpr ⟨by decide, rfl, rfl, ?_, ?_⟩
  · simp [threeAndOne, Parameter.parse, Parameter.listFrom, Parameter.ofJson, Parameter.weight?,
      validWeight_thirty, validWeight_seventy, Target.ofJson?, Parameter.titled?, twoSubtasks,
      parameters, bind, Except.bind, pure, Except.pure]
  · have hsort : Targets.sort (fourTestcases.map (·.codename)) = fourTestcases.map (·.codename) :=
      List.mergeSort_of_pairwise (by decide)
    simp only [Targets.resolve, hsort]
    show Targets.byCounts [.ofNat 3, .ofNat 1] _ >>= Targets.requireTestcases = _
    rw [byCounts_fourTestcases]
    rfl

theorem create_twoSubtasks (policy : Policy) :
    create policy.name threeAndOne fourTestcases = .ok (twoSubtasks policy) :=
  create_eq_ok_iff.mpr ⟨policy, Policy.ofName?_name policy, ofPolicy_twoSubtasks policy⟩

end ScoreType

end ContestGrading
