import ContestGrading.Proofs.Grading.PublicView
/-!
# Which details restricted feedback shows

Restricted feedback shows the testcases of a subtask from the first one on
and ends behind the first public one that has the least outcome of the
subtask. A private testcase never ends it, even with the least outcome.

Results:
* `getElem?_feedbackFrom`: a flag tells whether a testcase before it ends
  what is shown.
* `hasLeastOutcome_iff`: the least outcome, told by comparing.
* `buildFeedback_shown_iff`: the shown testcases are a prefix, and which.
-/
namespace ContestGrading

/-- No evaluation of the list has a lesser outcome. -/
def Evaluation.HasLeastOutcome (evaluations : List Evaluation) (ev : Evaluation) : Prop :=
  ∀ other ∈ evaluations, ev.outcome ≤ other.outcome

/-- Behind this evaluation nothing is shown: it is public and its outcome is
at most `worst`. -/
def Evaluation.ends (isPublic : Text → Bool) (worst : Binary64) (ev : Evaluation) : Bool :=
  isPublic ev.codename && decide (ev.outcome ≤ worst)

/-! ## Flags -/

/-- Every evaluation has its detail, with a flag that is on as long as no
evaluation before it ends what is shown. -/
theorem getElem?_feedbackFrom (isPublic : Text → Bool) (classify : Binary64 → OutcomeLabel)
    (worst : Binary64) (shown : Bool) (evaluations : List Evaluation) (i : Nat) :
    (feedbackFrom isPublic classify worst shown evaluations).testcases[i]? =
      evaluations[i]?.map fun ev =>
        ev.detail (classify ev.outcome)
          (shown && !(evaluations.take i).any (·.ends isPublic worst)) := by
  induction evaluations generalizing shown i with
  | nil => rfl
  | cons ev rest ih =>
    cases i with
    | zero => simp [feedbackFrom]
    | succ i =>
      simp only [feedbackFrom, List.getElem?_cons_succ, ih, List.take_succ_cons, List.any_cons,
        Bool.not_or, Bool.and_assoc]
      rfl

/-- No element before a place has the property exactly up to the first that has it. -/
theorem any_take_eq_false_iff {α : Type} {p : α → Bool} {as : List α} {i : Nat}
    (hi : i ≤ as.length) : (as.take i).any p = false ↔ i ≤ as.findIdx p := by
  induction as generalizing i with
  | nil => simpa using hi
  | cons a as ih =>
    cases i with
    | zero => simp
    | succ i =>
      rw [List.take_succ_cons, List.any_cons, List.findIdx_cons]
      cases hp : p a with
      | true => simp
      | false =>
        rw [Bool.false_or, ih (Nat.le_of_succ_le_succ hi)]
        simp

/-! ## The least outcome -/

variable {evaluations : List Evaluation}

theorem nan_not_mem_outcomes (hn : ∀ ev ∈ evaluations, ev.outcome ≠ .nan) :
    .nan ∉ evaluations.map (·.outcome) := by
  intro hmem
  obtain ⟨ev, hev, he⟩ := List.mem_map.mp hmem
  exact hn ev hev he

/-- To have the least outcome is to be no greater than the minimum. -/
theorem le_minimum_iff (hn : ∀ ev ∈ evaluations, ev.outcome ≠ .nan) {ev : Evaluation}
    (hev : ev ∈ evaluations) :
    ev.outcome ≤ .minimum (evaluations.map (·.outcome)) ↔ ev.HasLeastOutcome evaluations := by
  have hnan := nan_not_mem_outcomes hn
  constructor
  · intro h other hother
    exact Binary64.le_trans h (Binary64.minimum_le hnan (List.mem_map_of_mem hother))
  · intro h
    refine Binary64.le_minimum hnan (List.ne_nil_of_mem (List.mem_map_of_mem hev)) ?_
    intro x hx
    obtain ⟨other, hother, rfl⟩ := List.mem_map.mp hx
    exact h other hother

/-- To have the least outcome is to be equal in value to the minimum. -/
theorem hasLeastOutcome_iff (hn : ∀ ev ∈ evaluations, ev.outcome ≠ .nan) {ev : Evaluation}
    (hev : ev ∈ evaluations) :
    ev.HasLeastOutcome evaluations ↔
      ev.outcome.sameValue (.minimum (evaluations.map (·.outcome))) = true := by
  have hle := Binary64.minimum_le (nan_not_mem_outcomes hn) (List.mem_map_of_mem hev)
  rw [← le_minimum_iff hn hev, Binary64.sameValue, Bool.and_eq_true, decide_eq_true_iff,
    decide_eq_true_iff]
  exact ⟨fun h => ⟨h, hle⟩, fun h => h.1⟩

/-- Some evaluation has the least outcome. -/
theorem exists_hasLeastOutcome (hne : evaluations ≠ [])
    (hn : ∀ ev ∈ evaluations, ev.outcome ≠ .nan) :
    ∃ ev ∈ evaluations, ev.HasLeastOutcome evaluations := by
  have hmem := Binary64.minimum_mem (nan_not_mem_outcomes hn) (by simpa using hne)
  obtain ⟨ev, hev, he⟩ := List.mem_map.mp hmem
  refine ⟨ev, hev, (le_minimum_iff hn hev).mp ?_⟩
  rw [he]
  exact Binary64.le_refl_of_not_nan (he ▸ hn ev hev)

theorem ends_minimum_iff (hn : ∀ ev ∈ evaluations, ev.outcome ≠ .nan) (isPublic : Text → Bool)
    {ev : Evaluation} (hev : ev ∈ evaluations) :
    ev.ends isPublic (.minimum (evaluations.map (·.outcome))) = true ↔
      isPublic ev.codename = true ∧ ev.HasLeastOutcome evaluations := by
  rw [Evaluation.ends, Bool.and_eq_true, decide_eq_true_iff, le_minimum_iff hn hev]

/-! ## The prefix that is shown -/

/-- How many testcases are shown: all up to the first that ends it. -/
def shownCount (isPublic : Text → Bool) (evaluations : List Evaluation) : Nat :=
  min (evaluations.findIdx (·.ends isPublic (.minimum (evaluations.map (·.outcome)))) + 1)
    evaluations.length

theorem shownCount_bounds (hne : evaluations ≠ []) (isPublic : Text → Bool) :
    0 < shownCount isPublic evaluations ∧ shownCount isPublic evaluations ≤ evaluations.length := by
  have := List.length_pos_iff.mpr hne
  unfold shownCount
  omega

/-- Each testcase of both lists, and whether it is among those that are shown. -/
theorem getElem?_buildFeedback (isPublic : Text → Bool) (classify : Binary64 → OutcomeLabel)
    {i : Nat} {ev : Evaluation} (hi : evaluations[i]? = some ev) :
    let detail : TestcaseDetail :=
      { codename := ev.codename
        outcome := (classify ev.outcome).text
        text := ev.text
        time := ev.executionTime
        memory := ev.executionMemory
        shownRestricted := decide (i < shownCount isPublic evaluations) }
    (buildFeedback evaluations isPublic classify).testcases[i]? = some detail ∧
      (buildFeedback evaluations isPublic classify).publicTestcases[i]? =
        some (if isPublic ev.codename then .detailed detail else .hidden ev.codename) := by
  obtain ⟨hlt, -⟩ := List.getElem?_eq_some_iff.mp hi
  have hshown : (true && !(evaluations.take i).any
      (·.ends isPublic (.minimum (evaluations.map (·.outcome))))) =
      decide (i < shownCount isPublic evaluations) := by
    rw [Bool.true_and, Bool.eq_iff_iff, Bool.not_eq_true', any_take_eq_false_iff (Nat.le_of_lt hlt),
      decide_eq_true_iff, shownCount]
    omega
  intro detail
  have hdetail : (buildFeedback evaluations isPublic classify).testcases[i]? = some detail := by
    rw [buildFeedback, getElem?_feedbackFrom, hi, hshown]
    rfl
  refine ⟨hdetail, ?_⟩
  have hpublic : (buildFeedback evaluations isPublic classify).publicTestcases =
      (buildFeedback evaluations isPublic classify).testcases.map
        fun d => (TestcaseFeedback.detailed d).redacted isPublic :=
    publicTestcases_feedbackFrom ..
  rw [hpublic, List.getElem?_map, hdetail]
  rfl

/-- A testcase is shown exactly when no public one before it has the least outcome. -/
theorem lt_shownCount_iff (hn : ∀ ev ∈ evaluations, ev.outcome ≠ .nan) (isPublic : Text → Bool)
    {i : Nat} (hi : i < evaluations.length) :
    i < shownCount isPublic evaluations ↔
      ∀ j < i, ∀ ev, evaluations[j]? = some ev →
        ¬ (isPublic ev.codename = true ∧ ev.HasLeastOutcome evaluations) := by
  have hcount : i < shownCount isPublic evaluations ↔
      i ≤ evaluations.findIdx (·.ends isPublic (.minimum (evaluations.map (·.outcome)))) := by
    rw [shownCount]
    omega
  rw [hcount, ← any_take_eq_false_iff (Nat.le_of_lt hi), List.any_eq_false]
  constructor
  · intro h j hj ev hev hends
    have hmem : ev ∈ evaluations.take i :=
      List.mem_of_getElem? ((List.getElem?_take_of_lt hj).trans hev)
    exact h ev hmem ((ends_minimum_iff hn isPublic (List.mem_of_getElem? hev)).mpr hends)
  · intro h ev hmem hends
    obtain ⟨j, hj⟩ := List.mem_iff_getElem?.mp hmem
    obtain ⟨hji, hev⟩ : j < i ∧ evaluations[j]? = some ev := by
      rw [List.getElem?_take] at hj
      split at hj
      next hji => exact ⟨hji, hj⟩
      next => cases hj
    exact h j hji ev hev
      ((ends_minimum_iff hn isPublic (List.mem_of_getElem? hev)).mp hends)

/-- Where all testcases are public, the last one shown is the first with the
least outcome. -/
theorem hasLeastOutcome_of_public (hne : evaluations ≠ [])
    (hn : ∀ ev ∈ evaluations, ev.outcome ≠ .nan) {isPublic : Text → Bool}
    (hpublic : ∀ ev ∈ evaluations, isPublic ev.codename = true) :
    (∃ ev, evaluations[shownCount isPublic evaluations - 1]? = some ev ∧
        ev.HasLeastOutcome evaluations) ∧
      ∀ j < shownCount isPublic evaluations - 1, ∀ ev, evaluations[j]? = some ev →
        ¬ ev.HasLeastOutcome evaluations := by
  obtain ⟨hpos, hle⟩ := shownCount_bounds hne isPublic
  have hbefore : ∀ j < shownCount isPublic evaluations - 1, ∀ ev, evaluations[j]? = some ev →
      ¬ ev.HasLeastOutcome evaluations := by
    intro j hj ev hev hleast
    have hshown := (lt_shownCount_iff hn isPublic (by omega)).mp (Nat.sub_one_lt_of_lt hpos)
    exact hshown j hj ev hev ⟨hpublic ev (List.mem_of_getElem? hev), hleast⟩
  refine ⟨?_, hbefore⟩
  obtain ⟨last, hlast⟩ : ∃ ev, evaluations[shownCount isPublic evaluations - 1]? = some ev :=
    ⟨_, List.getElem?_eq_getElem (by omega)⟩
  refine ⟨last, hlast, ?_⟩
  by_contra hnot
  -- otherwise the least outcome comes later, and one more testcase is shown
  have hnone : ∀ j < shownCount isPublic evaluations, ∀ ev, evaluations[j]? = some ev →
      ¬ ev.HasLeastOutcome evaluations := by
    intro j hj ev hev
    rcases Nat.lt_or_eq_of_le (Nat.le_sub_one_of_lt hj) with hj | rfl
    · exact hbefore j hj ev hev
    · rwa [Option.some.inj (hev.symm.trans hlast)]
  obtain ⟨least, hmem, hleast⟩ := exists_hasLeastOutcome hne hn
  obtain ⟨i, hi⟩ := List.mem_iff_getElem?.mp hmem
  obtain ⟨hlt, -⟩ := List.getElem?_eq_some_iff.mp hi
  have hge : shownCount isPublic evaluations ≤ i :=
    Nat.le_of_not_lt fun hlt => hnone i hlt least hi hleast
  have hnext := (lt_shownCount_iff hn isPublic (Nat.lt_of_le_of_lt hge hlt)).mpr
    fun j hj ev hev hends => hnone j hj ev hev hends.2
  exact Nat.lt_irrefl _ hnext

/-- **Restricted feedback shows a prefix of a subtask.** Both lists have an
entry for every evaluation, in order, with all that is known of it in the
full list and, if it is public, in the other. A testcase is shown exactly
when no public testcase before it has the least outcome, so that the first
testcases are shown, at least one of them: where all are public, up to the
first with the least outcome; where no public one has it, all of them. -/
theorem buildFeedback_shown_iff (hne : evaluations ≠ [])
    (hn : ∀ ev ∈ evaluations, ev.outcome ≠ .nan) (isPublic : Text → Bool)
    (classify : Binary64 → OutcomeLabel) :
    ∃ (feedback : Feedback) (shown : Nat → Bool) (count : Nat),
      buildFeedback evaluations isPublic classify = feedback ∧
      feedback.testcases.length = evaluations.length ∧
      feedback.publicTestcases.length = evaluations.length ∧
      (∀ (i : Nat) (ev : Evaluation), evaluations[i]? = some ev →
        ∃ detail : TestcaseDetail,
          feedback.testcases[i]? = some detail ∧
          feedback.publicTestcases[i]? =
            some (if isPublic ev.codename then .detailed detail else .hidden ev.codename) ∧
          detail.codename = ev.codename ∧ detail.outcome = (classify ev.outcome).text ∧
          detail.text = ev.text ∧ detail.time = ev.executionTime ∧
          detail.memory = ev.executionMemory ∧ detail.shownRestricted = shown i) ∧
      (∀ ev ∈ evaluations, ev.HasLeastOutcome evaluations ↔
        ev.outcome.sameValue (.minimum (evaluations.map (·.outcome))) = true) ∧
      (∀ i < evaluations.length, shown i = true ↔
        ∀ j < i, ∀ ev, evaluations[j]? = some ev →
          ¬ (isPublic ev.codename = true ∧ ev.HasLeastOutcome evaluations)) ∧
      (∀ i < evaluations.length, shown i = true ↔ i < count) ∧
      0 < count ∧ count ≤ evaluations.length ∧
      ((∀ ev ∈ evaluations, isPublic ev.codename = true) →
        (∃ ev, evaluations[count - 1]? = some ev ∧ ev.HasLeastOutcome evaluations) ∧
        ∀ j < count - 1, ∀ ev, evaluations[j]? = some ev → ¬ ev.HasLeastOutcome evaluations) ∧
      ((∀ ev ∈ evaluations, isPublic ev.codename = true → ¬ ev.HasLeastOutcome evaluations) →
        count = evaluations.length) := by
  obtain ⟨hpos, hle⟩ := shownCount_bounds hne isPublic
  have hlength := length_feedbackFrom isPublic classify
    (.minimum (evaluations.map (·.outcome))) true evaluations
  refine ⟨_, fun i => decide (i < shownCount isPublic evaluations),
    shownCount isPublic evaluations, rfl, hlength.1, hlength.2,
    fun i ev hi => ?_, fun ev hev => hasLeastOutcome_iff hn hev, ?_,
    fun i _ => decide_eq_true_iff, hpos, hle, ?_, ?_⟩
  · obtain ⟨hfull, hpublic⟩ := getElem?_buildFeedback isPublic classify hi
    exact ⟨_, hfull, hpublic, rfl, rfl, rfl, rfl, rfl, rfl⟩
  · intro i hi
    rw [decide_eq_true_iff]
    exact lt_shownCount_iff hn isPublic hi
  · exact hasLeastOutcome_of_public hne hn
  · intro hnone
    by_contra hcount
    have hnext := (lt_shownCount_iff hn isPublic (Nat.lt_of_le_of_ne hle hcount)).mpr
      fun j _ ev hev hends => hnone ev (List.mem_of_getElem? hev) hends.1 hends.2
    exact Nat.lt_irrefl _ hnext

/-- A private testcase fails, then a public one, and a third one passes. -/
def failuresAhead : List Evaluation :=
  [⟨[99], .zero, .null, some .one, none, []⟩, ⟨[97], .zero, .null, none, some .one, []⟩,
    ⟨[98], .one, .string [79], none, none, []⟩]

/-- The private failure hides nothing, and the public one what is behind it. -/
theorem buildFeedback_shown_iff_failuresAhead :
    failuresAhead ≠ [] ∧ (∀ ev ∈ failuresAhead, ev.outcome ≠ .nan) ∧
      ∃ feedback, buildFeedback failuresAhead
          (ScoreType.isPublicIn ScoreType.fourTestcases) .classify = feedback ∧
        feedback.testcases.map (·.codename) = [[99], [97], [98]] ∧
        feedback.testcases.map (·.time) = [some .one, none, none] ∧
        feedback.testcases.map (·.shownRestricted) = [true, true, false] := by
  have hne : failuresAhead ≠ [] := List.cons_ne_nil _ _
  have hn : ∀ ev ∈ failuresAhead, ev.outcome ≠ .nan := by decide +kernel
  obtain ⟨feedback, shown, count, hbuild, hlength, -, hentry, -, hshown, -⟩ :=
    buildFeedback_shown_iff hne hn (ScoreType.isPublicIn ScoreType.fourTestcases) .classify
  have hprivate : ScoreType.isPublicIn ScoreType.fourTestcases [99] = false := by decide
  have hpublic : ScoreType.isPublicIn ScoreType.fourTestcases [97] = true := by decide
  have hleast : ∀ ev, failuresAhead[1]? = some ev → ev.HasLeastOutcome failuresAhead := by
    rintro _ ⟨⟩
    unfold Evaluation.HasLeastOutcome
    decide +kernel
  have hfirst : shown 0 = true := (hshown 0 (by decide)).mpr nofun
  have hsecond : shown 1 = true := by
    refine (hshown 1 (by decide)).mpr fun j hj ev hev hends => ?_
    obtain rfl : j = 0 := Nat.lt_one_iff.mp hj
    cases hev
    exact Bool.false_ne_true (hprivate.symm.trans hends.1)
  have hthird : shown 2 = false := by
    rw [← Bool.not_eq_true]
    intro h
    exact (hshown 2 (by decide)).mp h 1 (by decide) _ rfl ⟨hpublic, hleast _ rfl⟩
  obtain ⟨a, b, c, hall⟩ := List.length_eq_three.mp (hlength.trans rfl)
  obtain ⟨_, ha, -, haname, -, -, hatime, -, haflag⟩ := hentry 0 _ rfl
  obtain ⟨_, hb, -, hbname, -, -, hbtime, -, hbflag⟩ := hentry 1 _ rfl
  obtain ⟨_, hc, -, hcname, -, -, hctime, -, hcflag⟩ := hentry 2 _ rfl
  rw [hall] at ha hb hc
  cases ha
  cases hb
  cases hc
  refine ⟨hne, hn, feedback, hbuild, ?_⟩
  rw [hall]
  refine ⟨?_, ?_, ?_⟩
  · simp only [List.map_cons, List.map_nil, haname, hbname, hcname]
  · simp only [List.map_cons, List.map_nil, hatime, hbtime, hctime]
  · simp only [List.map_cons, List.map_nil, haflag, hbflag, hcflag, hfirst, hsecond, hthird]

end ContestGrading
