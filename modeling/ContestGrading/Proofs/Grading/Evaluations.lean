import Mathlib.Data.List.Forall2
import ContestGrading.Grading.Submission
/-!
# The evaluations that count

A submission may have several evaluations of a testcase, or none. The last
one counts, and those that it replaces might as well not be there.

Results:
* `evaluation?_eq_none_iff`, `evaluation?_eq_some_iff_isLast`: the evaluation
  of a testcase, in terms of the list of them.
* `Covers.forall₂_isLast`: the evaluations of testcases that all have one.
* `evaluation?_latest`: what a later evaluation replaces does not matter.
-/
namespace ContestGrading.Submission

/-! ## The last evaluation of a testcase -/

section Last

variable {s : Submission} {codename : Text}

/-- No evaluation is of that testcase. -/
def Lacks (s : Submission) (codename : Text) : Prop :=
  ∀ ev ∈ s.evaluations, ev.codename ≠ codename

/-- `ev` is an evaluation of that testcase, and none behind it is. -/
def IsLast (s : Submission) (codename : Text) (ev : Evaluation) : Prop :=
  ev.codename = codename ∧ ∃ before behind, s.evaluations = before ++ ev :: behind ∧
    ∀ other ∈ behind, other.codename ≠ codename

theorem evaluation?_eq_none_iff : s.evaluation? codename = none ↔ s.Lacks codename := by
  simp [evaluation?, Lacks]

theorem evaluation?_eq_some_iff_isLast {ev : Evaluation} :
    s.evaluation? codename = some ev ↔ s.IsLast codename ev := by
  rw [evaluation?, List.find?_eq_some_iff_append, beq_iff_eq, IsLast]
  refine and_congr_right fun _ => ?_
  constructor
  · rintro ⟨behind, before, hsplit, hbehind⟩
    refine ⟨before.reverse, behind.reverse, ?_, fun other hother => ?_⟩
    · rw [← List.reverse_inj, hsplit]
      simp
    · simpa using hbehind other (List.mem_reverse.mp hother)
  · rintro ⟨before, behind, hsplit, hbehind⟩
    refine ⟨behind.reverse, before.reverse, ?_, fun other hother => ?_⟩
    · rw [hsplit]
      simp
    · simpa using hbehind other (List.mem_reverse.mp hother)

theorem IsLast.unique {ev ev' : Evaluation} (h : s.IsLast codename ev)
    (h' : s.IsLast codename ev') : ev = ev' :=
  Option.some.inj ((evaluation?_eq_some_iff_isLast.mpr h).symm.trans
    (evaluation?_eq_some_iff_isLast.mpr h'))

/-- There is at most one way to give each testcase its last evaluation. -/
theorem forall₂_isLast_unique {codenames : List Text} {evaluations others : List Evaluation}
    (h : List.Forall₂ s.IsLast codenames evaluations)
    (h' : List.Forall₂ s.IsLast codenames others) : evaluations = others := by
  induction h generalizing others with
  | nil => cases h'; rfl
  | cons hev _ ih =>
    cases h' with
    | cons hev' hrest => rw [hev.unique hev', ih hrest]

end Last

/-! ## The evaluations of several testcases -/

/-- The outcome that counts for a testcase; NaN without an evaluation. -/
def outcome (submission : Submission) (codename : Text) : Binary64 :=
  ((submission.evaluation? codename).map (·.outcome)).getD .nan

/-- The evaluations that count for these testcases, in their order. -/
def evaluationsFor (submission : Submission) (codenames : List Text) : List Evaluation :=
  codenames.filterMap submission.evaluation?

/-- Every one of these testcases has an evaluation. -/
def Covers (submission : Submission) (codenames : List Text) : Prop :=
  ∀ codename ∈ codenames, (submission.evaluation? codename).isSome = true

theorem Covers.tail {submission : Submission} {codename : Text} {rest : List Text}
    (h : submission.Covers (codename :: rest)) : submission.Covers rest :=
  fun c hc => h c (List.mem_cons_of_mem _ hc)

theorem Covers.head {submission : Submission} {codename : Text} {rest : List Text}
    (h : submission.Covers (codename :: rest)) :
    ∃ ev, submission.evaluation? codename = some ev :=
  Option.isSome_iff_exists.mp (h codename (List.mem_cons_self ..))

theorem Covers.cons {submission : Submission} {codename : Text} {rest : List Text}
    {ev : Evaluation} (h : submission.evaluation? codename = some ev)
    (hrest : submission.Covers rest) : submission.Covers (codename :: rest) := by
  intro c hc
  rcases List.mem_cons.mp hc with rfl | hc
  · rw [h]
    rfl
  · exact hrest c hc

theorem map_evaluation? {submission : Submission} {codenames : List Text}
    (h : submission.Covers codenames) :
    codenames.map submission.evaluation? = (submission.evaluationsFor codenames).map some := by
  induction codenames with
  | nil => rfl
  | cons codename rest ih =>
    obtain ⟨ev, hev⟩ := h.head
    have := ih h.tail
    simp only [evaluationsFor] at this ⊢
    simp [hev, this]

theorem outcomes_evaluationsFor {submission : Submission} {codenames : List Text}
    (h : submission.Covers codenames) :
    (submission.evaluationsFor codenames).map (·.outcome) = codenames.map submission.outcome := by
  induction codenames with
  | nil => rfl
  | cons codename rest ih =>
    obtain ⟨ev, hev⟩ := h.head
    have := ih h.tail
    simp only [evaluationsFor] at this ⊢
    simp [hev, this, outcome]

theorem Covers.forall₂_isLast {submission : Submission} {codenames : List Text}
    (h : submission.Covers codenames) :
    List.Forall₂ submission.IsLast codenames (submission.evaluationsFor codenames) := by
  have hmap := map_evaluation? h
  rw [← List.forall₂_eq_eq_eq, List.forall₂_map_left_iff, List.forall₂_map_right_iff] at hmap
  exact hmap.imp fun _ _ => evaluation?_eq_some_iff_isLast.mp

/-! ## Evaluations that are replaced -/

/-- The evaluations without those that a later one of the same testcase replaces. -/
def latest : List Evaluation → List Evaluation
  | [] => []
  | ev :: rest =>
    if rest.any (·.codename == ev.codename) then latest rest else ev :: latest rest

theorem latest_sublist (evs : List Evaluation) : (latest evs).Sublist evs := by
  induction evs with
  | nil => exact .slnil
  | cons ev rest ih =>
    rw [latest]
    split
    · exact ih.cons ev
    · exact ih.cons_cons ev

/-- What is left has one evaluation of each testcase. -/
theorem nodup_latest (evs : List Evaluation) : ((latest evs).map (·.codename)).Nodup := by
  induction evs with
  | nil => exact .nil
  | cons ev rest ih =>
    rw [latest]
    split
    next => exact ih
    next hnot =>
      rw [List.map_cons, List.nodup_cons]
      refine ⟨fun hmem => hnot ?_, ih⟩
      obtain ⟨other, hother, hcodename⟩ := List.mem_map.mp hmem
      exact List.any_eq_true.mpr
        ⟨other, (latest_sublist rest).subset hother, beq_iff_eq.mpr hcodename⟩

/-- The evaluation in front counts if none behind it does. -/
theorem evaluation?_cons (b : Bool) (ev : Evaluation) (rest : List Evaluation) (codename : Text) :
    evaluation? ⟨b, ev :: rest⟩ codename =
      (evaluation? ⟨b, rest⟩ codename).or (if ev.codename = codename then some ev else none) := by
  simp [evaluation?, List.find?_append]

theorem evaluation?_latest (b : Bool) (evs : List Evaluation) (codename : Text) :
    evaluation? ⟨b, latest evs⟩ codename = evaluation? ⟨b, evs⟩ codename := by
  induction evs with
  | nil => rfl
  | cons ev rest ih =>
    rw [latest, evaluation?_cons]
    split
    next hreplaced =>
      rw [ih]
      cases hrest : evaluation? ⟨b, rest⟩ codename with
      | some found => rfl
      | none =>
        -- the one that replaces it has another codename, and so has it
        have hlacks := evaluation?_eq_none_iff.mp hrest
        obtain ⟨other, hother, hcodename⟩ := List.any_eq_true.mp hreplaced
        rw [beq_iff_eq] at hcodename
        rw [if_neg fun h => hlacks other hother (hcodename.trans h)]
        rfl
    next => rw [evaluation?_cons, ih]

end ContestGrading.Submission
