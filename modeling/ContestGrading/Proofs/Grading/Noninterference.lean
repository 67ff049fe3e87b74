import ContestGrading.Proofs.Grading.Breakdown
import ContestGrading.Proofs.Grading.Rows
/-!
# What the public breakdown tells of private testcases

Two submissions that do alike on the public testcases get public breakdowns
that differ at most in which details restricted feedback shows. There they
can differ: the outcome from which on details are not shown is the least of
the whole subtask, so that a private testcase with a lesser outcome than all
public ones makes the details of the public testcases appear.

Results:
* `getLast?_flagsFrom`, `flagsFrom_eq_iff`: the last public testcase of a
  subtask tells which details are shown.
* `publicFeedback_eq_iff`, `unflagged_publicFeedback_eq`: the entry of one subtask.
* `shown_of_renderFeedback`, `renderFeedback_full_congr`: what rows tell of the entries.
* `publicSubtasks_eq_iff_conceals`: the public breakdowns are the same
  exactly when the same subtasks conceal a detail.
-/
namespace ContestGrading

/-- What is told of a run. -/
def Evaluation.content (ev : Evaluation) : Binary64 × Json × Option Binary64 × Option Binary64 :=
  (ev.outcome, ev.text, ev.executionTime, ev.executionMemory)

theorem Submission.codename_of_evaluation? {submission : Submission} {codename : Text}
    {ev : Evaluation} (h : submission.evaluation? codename = some ev) : ev.codename = codename := by
  have := List.find?_some h
  simpa using this

/-- Evaluations of the same content have the same detail, but for the flag. -/
theorem Evaluation.detail_inj {ev₁ ev₂ : Evaluation} (hname : ev₁.codename = ev₂.codename)
    (h : ev₁.content = ev₂.content) (classify : Binary64 → OutcomeLabel) (b₁ b₂ : Bool) :
    ev₁.detail (classify ev₁.outcome) b₁ = ev₂.detail (classify ev₂.outcome) b₂ ↔ b₁ = b₂ := by
  simp only [content, Prod.mk.injEq] at h
  obtain ⟨ho, ht, htime, hmem⟩ := h
  simp [detail, hname, ho, ht, htime, hmem]

/-! ## Flags -/

/-- The flags of the public testcases with these outcomes, in their order. -/
def flagsFrom (worst : Binary64) : (shown : Bool) → List Binary64 → List Bool
  | _, [] => []
  | shown, x :: rest => shown :: flagsFrom worst (shown && !decide (x ≤ worst)) rest

/-- Some flag is off: an outcome that is not the last one is the worst. -/
def cuts (worst : Binary64) (outcomes : List Binary64) : Bool :=
  outcomes.dropLast.any (· ≤ worst)

theorem getLast?_flagsFrom (worst : Binary64) (shown : Bool) (x : Binary64)
    (rest : List Binary64) :
    (flagsFrom worst shown (x :: rest)).getLast? = some (shown && !cuts worst (x :: rest)) := by
  induction rest generalizing shown x with
  | nil => simp [flagsFrom, cuts]
  | cons y rest ih =>
    have hcuts : cuts worst (x :: y :: rest) = (decide (x ≤ worst) || cuts worst (y :: rest)) := by
      simp [cuts]
    rw [hcuts, flagsFrom, flagsFrom, List.getLast?_cons_cons, ← flagsFrom, ih, Bool.not_or,
      Bool.and_assoc]

theorem flagsFrom_of_not_cuts {worst : Binary64} {shown : Bool} {outcomes : List Binary64}
    (h : cuts worst outcomes = false) :
    flagsFrom worst shown outcomes = outcomes.map fun _ => shown := by
  induction outcomes with
  | nil => rfl
  | cons x rest ih =>
    cases rest with
    | nil => rfl
    | cons y rest =>
      obtain ⟨hx, hrest⟩ : decide (x ≤ worst) = false ∧ cuts worst (y :: rest) = false := by
        simpa [cuts] using h
      rw [flagsFrom, hx, Bool.not_false, Bool.and_true, ih hrest]
      rfl

theorem flagsFrom_congr {w₁ w₂ : Binary64} {outcomes : List Binary64}
    (h : ∀ x ∈ outcomes, x ≤ w₁ ↔ x ≤ w₂) (shown : Bool) :
    flagsFrom w₁ shown outcomes = flagsFrom w₂ shown outcomes := by
  induction outcomes generalizing shown with
  | nil => rfl
  | cons x rest ih =>
    obtain ⟨hx, hrest⟩ := List.forall_mem_cons.mp h
    rw [flagsFrom, flagsFrom, ih hrest, decide_eq_decide.mpr hx]

/-- `worst` is below all outcomes as soon as it is not below one of them strictly. -/
def IsLeast (worst : Binary64) (outcomes : List Binary64) : Prop :=
  ∀ x ∈ outcomes, x ≤ worst → ∀ y ∈ outcomes, worst ≤ y

theorem isLeast_minimum {outcomes all : List Binary64} (h : ∀ x ∈ outcomes, x ∈ all) :
    IsLeast (.minimum all) outcomes := by
  intro x _ hle y hy
  have hn : .nan ∉ all := fun hm =>
    (Binary64.ne_nan_of_le hle).2 (Binary64.minimum_eq_nan_iff.mpr hm)
  exact Binary64.minimum_le hn (h y hy)

/-- The flags are the same exactly when both cut some off or neither does:
that the least outcomes are reached makes them equal. -/
theorem flagsFrom_eq_iff {w₁ w₂ : Binary64} {outcomes : List Binary64}
    (h₁ : IsLeast w₁ outcomes) (h₂ : IsLeast w₂ outcomes) :
    flagsFrom w₁ true outcomes = flagsFrom w₂ true outcomes ↔
      cuts w₁ outcomes = cuts w₂ outcomes := by
  constructor
  · intro h
    cases outcomes with
    | nil => rfl
    | cons x rest =>
      have hlast := congrArg List.getLast? h
      rw [getLast?_flagsFrom, getLast?_flagsFrom] at hlast
      simpa using hlast
  · intro h
    cases hc : cuts w₁ outcomes with
    | false => rw [flagsFrom_of_not_cuts hc, flagsFrom_of_not_cuts (h ▸ hc)]
    | true =>
      obtain ⟨x, hx, hxw⟩ := List.any_eq_true.mp hc
      obtain ⟨y, hy, hyw⟩ := List.any_eq_true.mp (h ▸ hc : cuts w₂ outcomes = true)
      have hx := List.dropLast_subset _ hx
      have hy := List.dropLast_subset _ hy
      have hxw := of_decide_eq_true hxw
      have hyw := of_decide_eq_true hyw
      -- each of the two least outcomes is reached, and so below the other
      have hle : w₁ ≤ w₂ := Binary64.le_trans (h₁ x hx hxw y hy) hyw
      have hge : w₂ ≤ w₁ := Binary64.le_trans (h₂ y hy hyw x hx) hxw
      exact flagsFrom_congr
        (fun z _ => ⟨fun hz => Binary64.le_trans hz hle, fun hz => Binary64.le_trans hz hge⟩) true

/-! ## Entries without their flags -/

theorem eq_of_map_eq {α β γ : Type} {f : α → β} {g : α → γ}
    (hinj : ∀ a b, f a = f b → g a = g b → a = b) {as bs : List α} (hf : as.map f = bs.map f)
    (hg : as.map g = bs.map g) : as = bs := by
  induction as generalizing bs with
  | nil => exact (List.map_eq_nil_iff.mp hf.symm).symm
  | cons a as ih =>
    cases bs with
    | nil => cases hf
    | cons b bs =>
      obtain ⟨hf, hfs⟩ := List.cons.inj hf
      obtain ⟨hg, hgs⟩ := List.cons.inj hg
      rw [hinj a b hf hg, ih hfs hgs]

namespace TestcaseFeedback

/-- The testcase, its detail to be shown if there is one. -/
def unflagged : TestcaseFeedback → TestcaseFeedback
  | .detailed d => .detailed { d with shownRestricted := true }
  | .hidden codename => .hidden codename

/-- There is a detail, and restricted feedback shows it. -/
def shown : TestcaseFeedback → Bool
  | .detailed d => d.shownRestricted
  | .hidden _ => false

theorem eq_of_unflagged {t u : TestcaseFeedback} (h : t.unflagged = u.unflagged)
    (hs : t.shown = u.shown) : t = u := by
  cases t with
  | hidden codename =>
    cases u with
    | hidden codename' => exact h
    | detailed d' => cases h
  | detailed d =>
    cases u with
    | hidden codename' => cases h
    | detailed d' =>
      obtain ⟨codename, outcome, text, time, memory, flag⟩ := d
      simp only [unflagged, detailed.injEq, TestcaseDetail.mk.injEq, and_true] at h
      simp only [shown] at hs
      simp [h, hs]

end TestcaseFeedback

namespace SubtaskFeedback

/-- The entry, all its details to be shown. -/
def unflagged (entry : SubtaskFeedback) : SubtaskFeedback :=
  { entry with testcases := entry.testcases.map (·.unflagged) }

/-- Which testcases of the entry restricted feedback shows. -/
def shown (entry : SubtaskFeedback) : List Bool := entry.testcases.map (·.shown)

theorem eq_of_unflagged {entries others : List SubtaskFeedback}
    (h : entries.map (·.unflagged) = others.map (·.unflagged))
    (hs : entries.map (·.shown) = others.map (·.shown)) : entries = others := by
  refine eq_of_map_eq ?_ h hs
  intro a b hab hshown
  obtain ⟨index, score, testcases⟩ := a
  obtain ⟨index', score', testcases'⟩ := b
  simp only [unflagged, mk.injEq] at hab ⊢
  obtain ⟨hindex, hscore, htestcases⟩ := hab
  exact ⟨hindex, hscore,
    eq_of_map_eq (fun _ _ => TestcaseFeedback.eq_of_unflagged) htestcases hshown⟩

end SubtaskFeedback

/-! ## Rows -/

namespace Rendering

open Journal

theorem renderSubtask_unflagged (tr : Translation) (entry : SubtaskFeedback) :
    renderSubtask tr .full entry.unflagged = renderSubtask tr .full entry := by
  have htestcase : ∀ t : TestcaseFeedback,
      renderTestcase tr .full t.unflagged = renderTestcase tr .full t := by
    intro t
    cases t <;> rfl
  have hforEach : forEach (renderTestcase tr .full) entry.unflagged.testcases =
      forEach (renderTestcase tr .full) entry.testcases := by
    rw [SubtaskFeedback.unflagged, forEach_map]
    exact congrArg (forEach · entry.testcases) (funext htestcase)
  rw [renderSubtask, renderSubtask, hforEach]
  rfl

/-- A row has a detail exactly when restricted feedback shows it. -/
theorem shown_of_renderTestcase {tr : Translation} {t : TestcaseFeedback} {row : RenderedTestcase}
    (h : (renderTestcase tr .restricted t).outcome = .ok row) : row.detail.isSome = t.shown := by
  cases t with
  | hidden codename => cases h; rfl
  | detailed d =>
    cases hd : d.shownRestricted with
    | false =>
      rw [renderTestcase_restricted tr hd] at h
      cases h
      exact hd.symm
    | true =>
      rw [renderTestcase, if_neg (by simp [hd])] at h
      exact (renderDetail_ok h).2.trans hd.symm

theorem shown_of_renderSubtask {tr : Translation} {entry : SubtaskFeedback} {row : RenderedSubtask}
    (h : (renderSubtask tr .restricted entry).outcome = .ok row) :
    row.testcases.map (·.detail.isSome) = entry.shown :=
  map_of_forEach_ok (fun _ _ => shown_of_renderTestcase) (renderSubtask_eq_ok_iff.mp h).testcases

end Rendering

theorem renderFeedback_full_congr (tr : Translation) {entries others : List SubtaskFeedback}
    (h : entries.map (·.unflagged) = others.map (·.unflagged)) :
    renderFeedback tr .full entries = renderFeedback tr .full others := by
  have hunflagged : ∀ entries : List SubtaskFeedback,
      renderFeedback tr .full (entries.map (·.unflagged)) = renderFeedback tr .full entries := by
    intro entries
    rw [renderFeedback, Journal.forEach_map]
    exact congrArg (Journal.forEach · entries) (funext (Rendering.renderSubtask_unflagged tr))
  rw [← hunflagged entries, h, hunflagged]

/-- The rows in restricted view tell which details are shown. -/
theorem shown_of_renderFeedback {tr : Translation} {entries : List SubtaskFeedback}
    {rows : List RenderedSubtask}
    (h : (renderFeedback tr .restricted entries).outcome = .ok rows) :
    rows.map (fun row => row.testcases.map (·.detail.isSome)) = entries.map (·.shown) :=
  Journal.map_of_forEach_ok (fun _ _ => Rendering.shown_of_renderSubtask) h

namespace ScoreType

open Submission

/-- The submissions do alike on every public testcase. -/
def AgreeOnPublic (st : ScoreType) (s₁ s₂ : Submission) : Prop :=
  ∀ codename, st.isPublic codename = true →
    (s₁.evaluation? codename).map (·.content) = (s₂.evaluation? codename).map (·.content)

/-- Restricted feedback conceals a detail: a public testcase of the subtask
other than the last has the least outcome, private testcases included. -/
def conceals (st : ScoreType) (submission : Submission) (s : Subtask) : Bool :=
  cuts (.minimum (s.testcases.map submission.outcome))
    ((s.testcases.filter st.isPublic).map submission.outcome)

/-! ## The public testcases of a subtask -/

/-- The public feedback on these testcases. -/
def publicTestcasesFrom (st : ScoreType) (submission : Submission) (worst : Binary64)
    (shown : Bool) (codenames : List Text) : List TestcaseFeedback :=
  (feedbackFrom st.isPublic st.policy.classify worst shown
    (submission.evaluationsFor codenames)).publicTestcases

theorem publicTestcasesFrom_cons (st : ScoreType) {submission : Submission} {codename : Text}
    {ev : Evaluation} (h : submission.evaluation? codename = some ev) (worst : Binary64)
    (shown : Bool) (rest : List Text) :
    st.publicTestcasesFrom submission worst shown (codename :: rest) =
      (if st.isPublic codename then .detailed (ev.detail (st.policy.classify ev.outcome) shown)
        else .hidden codename) ::
        st.publicTestcasesFrom submission worst
          (shown && !(st.isPublic codename && decide (ev.outcome ≤ worst))) rest := by
  have hname := codename_of_evaluation? h
  simp only [publicTestcasesFrom, evaluationsFor, List.filterMap_cons, h, feedbackFrom, hname]

variable {st : ScoreType} {s₁ s₂ : Submission}

theorem AgreeOnPublic.outcome (ha : st.AgreeOnPublic s₁ s₂) {codename : Text}
    (hp : st.isPublic codename = true) : s₁.outcome codename = s₂.outcome codename := by
  have := congrArg (Option.map (·.1)) (ha codename hp)
  rw [Option.map_map, Option.map_map] at this
  exact congrArg (·.getD .nan) this

theorem AgreeOnPublic.outcomes (ha : st.AgreeOnPublic s₁ s₂) (codenames : List Text) :
    (codenames.filter st.isPublic).map s₁.outcome =
      (codenames.filter st.isPublic).map s₂.outcome :=
  List.map_congr_left fun _ hc => ha.outcome (List.mem_filter.mp hc).2

/-- The public testcases are the same exactly when their flags are. -/
theorem publicTestcasesFrom_eq_iff (ha : st.AgreeOnPublic s₁ s₂) (w₁ w₂ : Binary64)
    (b₁ b₂ : Bool) {codenames : List Text} (h₁ : s₁.Covers codenames)
    (h₂ : s₂.Covers codenames) :
    st.publicTestcasesFrom s₁ w₁ b₁ codenames = st.publicTestcasesFrom s₂ w₂ b₂ codenames ↔
      flagsFrom w₁ b₁ ((codenames.filter st.isPublic).map s₁.outcome) =
        flagsFrom w₂ b₂ ((codenames.filter st.isPublic).map s₁.outcome) := by
  induction codenames generalizing b₁ b₂ with
  | nil => exact iff_of_true rfl rfl
  | cons codename rest ih =>
    obtain ⟨ev₁, hev₁⟩ := h₁.head
    obtain ⟨ev₂, hev₂⟩ := h₂.head
    rw [publicTestcasesFrom_cons st hev₁, publicTestcasesFrom_cons st hev₂, List.cons.injEq,
      ih _ _ h₁.tail h₂.tail]
    cases hp : st.isPublic codename with
    | false => simp [hp]
    | true =>
      have hcontent : ev₁.content = ev₂.content := by simpa [hev₁, hev₂] using ha codename hp
      have hname : ev₁.codename = ev₂.codename :=
        (codename_of_evaluation? hev₁).trans (codename_of_evaluation? hev₂).symm
      have ho₁ : s₁.outcome codename = ev₁.outcome := by simp [outcome, hev₁]
      have ho : ev₁.outcome = ev₂.outcome := congrArg (·.1) hcontent
      simp only [if_true, Bool.true_and, TestcaseFeedback.detailed.injEq, List.filter_cons, hp,
        List.map_cons, flagsFrom, List.cons.injEq, ho₁]
      rw [Evaluation.detail_inj hname hcontent, ho]

/-- But for the flags the public testcases are always the same. -/
theorem map_unflagged_publicTestcasesFrom (ha : st.AgreeOnPublic s₁ s₂) (w₁ w₂ : Binary64)
    (b₁ b₂ : Bool) {codenames : List Text} (h₁ : s₁.Covers codenames)
    (h₂ : s₂.Covers codenames) :
    (st.publicTestcasesFrom s₁ w₁ b₁ codenames).map (·.unflagged) =
      (st.publicTestcasesFrom s₂ w₂ b₂ codenames).map (·.unflagged) := by
  induction codenames generalizing b₁ b₂ with
  | nil => rfl
  | cons codename rest ih =>
    obtain ⟨ev₁, hev₁⟩ := h₁.head
    obtain ⟨ev₂, hev₂⟩ := h₂.head
    rw [publicTestcasesFrom_cons st hev₁, publicTestcasesFrom_cons st hev₂, List.map_cons,
      List.map_cons]
    refine List.cons_eq_cons.mpr ⟨?_, ih _ _ h₁.tail h₂.tail⟩
    cases hp : st.isPublic codename with
    | false => rfl
    | true =>
      have hcontent : ev₁.content = ev₂.content := by simpa [hev₁, hev₂] using ha codename hp
      have hname : ev₁.codename = ev₂.codename :=
        (codename_of_evaluation? hev₁).trans (codename_of_evaluation? hev₂).symm
      have := (Evaluation.detail_inj hname hcontent st.policy.classify true true).mpr rfl
      exact congrArg TestcaseFeedback.detailed this

/-! ## The public entry of a subtask -/

/-- Where all testcases are public, the public feedback is the full one. -/
theorem publicTestcases_of_all {isPublic : Text → Bool} (classify : Binary64 → OutcomeLabel)
    (worst : Binary64) (shown : Bool) {evs : List Evaluation}
    (h : ∀ ev ∈ evs, isPublic ev.codename = true) :
    (feedbackFrom isPublic classify worst shown evs).testcases.map .detailed =
      (feedbackFrom isPublic classify worst shown evs).publicTestcases := by
  induction evs generalizing shown with
  | nil => rfl
  | cons ev rest ih =>
    obtain ⟨hev, hrest⟩ := List.forall_mem_cons.mp h
    simp only [feedbackFrom, List.map_cons, hev, if_true, ih _ hrest]

/-- The score that is told of a subtask in public. -/
def publicScoreOf (st : ScoreType) (submission : Submission) (s : Subtask) : Option SubtaskScore :=
  if st.isFullyPublic s then
    some ⟨st.fractionOf submission s, s.parameter.weight, s.parameter.title⟩
  else none

theorem publicFeedback_gradedOf (st : ScoreType) {submission : Submission} (number : Nat)
    {s : Subtask} (h : submission.Covers s.testcases) :
    (gradedOf st number s (submission.evaluationsFor s.testcases)).publicFeedback =
      { index := .ofNat number
        score := st.publicScoreOf submission s
        testcases :=
          st.publicTestcasesFrom submission (.minimum (s.testcases.map submission.outcome)) true
            s.testcases } := by
  have hfraction := gradedOf_fraction st number h
  simp only [gradedOf] at hfraction ⊢
  rw [publicTestcasesFrom, publicScoreOf, ← outcomes_evaluationsFor h, ← buildFeedback, hfraction]
  cases hp : st.isFullyPublic s with
  | false => simp only [Bool.false_eq_true, if_false]
  | true =>
    have hall : ∀ ev ∈ submission.evaluationsFor s.testcases, st.isPublic ev.codename = true := by
      intro ev hev
      obtain ⟨codename, hc, hev⟩ := List.mem_filterMap.mp hev
      rw [codename_of_evaluation? hev]
      exact List.all_eq_true.mp hp codename hc
    simp only [if_true]
    rw [buildFeedback, publicTestcases_of_all _ _ _ hall]

theorem AgreeOnPublic.publicScoreOf (ha : st.AgreeOnPublic s₁ s₂) (s : Subtask) :
    st.publicScoreOf s₁ s = st.publicScoreOf s₂ s := by
  unfold ScoreType.publicScoreOf
  split
  next hp =>
    have := ha.outcomes s.testcases
    rw [List.filter_eq_self.mpr (List.all_eq_true.mp hp)] at this
    rw [fractionOf, fractionOf, this]
  next => rfl

/-- The public entry of a subtask is the same exactly when both or neither
of the submissions conceals a detail. -/
theorem publicFeedback_eq_iff (ha : st.AgreeOnPublic s₁ s₂) (number : Nat) {s : Subtask}
    (h₁ : s₁.Covers s.testcases) (h₂ : s₂.Covers s.testcases) :
    (gradedOf st number s (s₁.evaluationsFor s.testcases)).publicFeedback =
        (gradedOf st number s (s₂.evaluationsFor s.testcases)).publicFeedback ↔
      st.conceals s₁ s = st.conceals s₂ s := by
  have hmem : ∀ submission : Submission,
      ∀ x ∈ (s.testcases.filter st.isPublic).map submission.outcome,
        x ∈ s.testcases.map submission.outcome :=
    fun submission => (List.filter_sublist.map submission.outcome).subset
  rw [publicFeedback_gradedOf st number h₁, publicFeedback_gradedOf st number h₂,
    SubtaskFeedback.mk.injEq, and_iff_right rfl, and_iff_right (ha.publicScoreOf s),
    publicTestcasesFrom_eq_iff ha _ _ _ _ h₁ h₂, conceals, conceals, ← ha.outcomes]
  exact flagsFrom_eq_iff (isLeast_minimum (hmem s₁))
    (isLeast_minimum (ha.outcomes s.testcases ▸ hmem s₂))

/-- But for the flags the public entry of a subtask is always the same. -/
theorem unflagged_publicFeedback_eq (ha : st.AgreeOnPublic s₁ s₂) (number : Nat) {s : Subtask}
    (h₁ : s₁.Covers s.testcases) (h₂ : s₂.Covers s.testcases) :
    (gradedOf st number s (s₁.evaluationsFor s.testcases)).publicFeedback.unflagged =
      (gradedOf st number s (s₂.evaluationsFor s.testcases)).publicFeedback.unflagged := by
  rw [publicFeedback_gradedOf st number h₁, publicFeedback_gradedOf st number h₂]
  simp only [SubtaskFeedback.unflagged, SubtaskFeedback.mk.injEq, true_and]
  exact ⟨ha.publicScoreOf s, map_unflagged_publicTestcasesFrom ha _ _ _ _ h₁ h₂⟩

/-! ## The whole breakdown -/

/-- What is told of the subtasks is the same in two breakdowns exactly when
it is the same subtask by subtask. -/
theorem map_gradedFrom_eq_iff {β : Type} {f : Graded → β} {p : Subtask → Prop}
    {subtasks : List Subtask}
    (h : ∀ s ∈ subtasks, ∀ number, f (gradedOf st number s (s₁.evaluationsFor s.testcases)) =
      f (gradedOf st number s (s₂.evaluationsFor s.testcases)) ↔ p s) (number : Nat) :
    (st.gradedFrom s₁ number subtasks).map f = (st.gradedFrom s₂ number subtasks).map f ↔
      ∀ s ∈ subtasks, p s := by
  induction subtasks generalizing number with
  | nil => simp [gradedFrom]
  | cons s rest ih =>
    obtain ⟨hs, hrest⟩ := List.forall_mem_cons.mp h
    rw [gradedFrom_cons, gradedFrom_cons, List.map_cons, List.map_cons, List.cons.injEq,
      hs number, ih hrest (number + 1), List.forall_mem_cons]

theorem map_publicFeedback_eq_iff (ha : st.AgreeOnPublic s₁ s₂) (hc₁ : st.Complete s₁)
    (hc₂ : st.Complete s₂) (number : Nat) :
    (st.gradedFrom s₁ number st.subtasks).map (·.publicFeedback) =
        (st.gradedFrom s₂ number st.subtasks).map (·.publicFeedback) ↔
      ∀ s ∈ st.subtasks, st.conceals s₁ s = st.conceals s₂ s := by
  refine map_gradedFrom_eq_iff ?_ number
  intro s hs number
  exact publicFeedback_eq_iff ha number (hc₁ s hs) (hc₂ s hs)

theorem map_unflagged_publicFeedback (ha : st.AgreeOnPublic s₁ s₂) (hc₁ : st.Complete s₁)
    (hc₂ : st.Complete s₂) (number : Nat) :
    ((st.gradedFrom s₁ number st.subtasks).map (·.publicFeedback)).map (·.unflagged) =
      ((st.gradedFrom s₂ number st.subtasks).map (·.publicFeedback)).map (·.unflagged) := by
  rw [List.map_map, List.map_map]
  refine (map_gradedFrom_eq_iff (p := fun _ => True) ?_ number).mpr fun _ _ => trivial
  intro s hs number
  exact iff_of_true (unflagged_publicFeedback_eq ha number (hc₁ s hs) (hc₂ s hs)) trivial

/-- **What hidden testcases reveal.** Of two submissions that do alike on the
public testcases the public breakdowns are the same exactly when the same
subtasks conceal a detail. In full view they are always rendered the same;
in restricted view the rows are the same exactly under that condition. -/
theorem publicSubtasks_eq_iff_conceals (he₁ : s₁.evaluated = true) (he₂ : s₂.evaluated = true)
    (hc₁ : st.Complete s₁) (hc₂ : st.Complete s₂) (ha : st.AgreeOnPublic s₁ s₂) :
    ∃ r₁ r₂, st.computeScore s₁ = .ok r₁ ∧ st.computeScore s₂ = .ok r₂ ∧
      (r₁.publicSubtasks = r₂.publicSubtasks ↔
        ∀ s ∈ st.subtasks, st.conceals s₁ s = st.conceals s₂ s) ∧
      (∀ tr, renderFeedback tr .full r₁.publicSubtasks =
        renderFeedback tr .full r₂.publicSubtasks) ∧
      ∀ tr rows₁ rows₂, (renderFeedback tr .restricted r₁.publicSubtasks).outcome = .ok rows₁ →
        (renderFeedback tr .restricted r₂.publicSubtasks).outcome = .ok rows₂ →
        (rows₁ = rows₂ ↔ ∀ s ∈ st.subtasks, st.conceals s₁ s = st.conceals s₂ s) := by
  have hiff := map_publicFeedback_eq_iff ha hc₁ hc₂ 1
  have hunflagged := map_unflagged_publicFeedback ha hc₁ hc₂ 1
  refine ⟨_, _, (computeScore_eq_ok_iff he₁).mpr ⟨hc₁, rfl⟩,
    (computeScore_eq_ok_iff he₂).mpr ⟨hc₂, rfl⟩, hiff, ?_, ?_⟩
  · intro tr
    exact renderFeedback_full_congr tr hunflagged
  · intro tr rows₁ rows₂ hr₁ hr₂
    rw [← hiff]
    constructor
    · intro h
      subst h
      exact SubtaskFeedback.eq_of_unflagged hunflagged
        ((shown_of_renderFeedback hr₁).symm.trans (shown_of_renderFeedback hr₂))
    · intro h
      have hrows := congrArg (fun entries => (renderFeedback tr .restricted entries).outcome) h
      exact Except.ok.inj (hr₁.symm.trans (hrows.trans hr₂))

/-! ## A hidden failure that shows -/

theorem agree_fullBut (policy : Policy) (first third third' : Binary64) :
    (twoSubtasks policy).AgreeOnPublic (fullBut first third) (fullBut first third') := by
  intro codename hp
  have hc : (([99] : Text) == codename) = false := by
    rw [beq_eq_false_iff_ne]
    rintro rfl
    cases hp
  cases hd : ([100] : Text) == codename <;>
    simp [evaluation?, fullBut, List.find?_cons, hc, hd]

theorem publicSubtasks_eq_iff_conceals_fullBut :
    (fullBut half .one).evaluated = true ∧ (fullBut half .zero).evaluated = true ∧
      (twoSubtasks .minimum).Complete (fullBut half .one) ∧
      (twoSubtasks .minimum).Complete (fullBut half .zero) ∧
      (twoSubtasks .minimum).AgreeOnPublic (fullBut half .one) (fullBut half .zero) ∧
      ∃ r₁ r₂, (twoSubtasks .minimum).computeScore (fullBut half .one) = .ok r₁ ∧
        (twoSubtasks .minimum).computeScore (fullBut half .zero) = .ok r₂ ∧
        ∀ tr, renderFeedback tr .full r₁.publicSubtasks =
          renderFeedback tr .full r₂.publicSubtasks := by
  have hc := complete_fullBut .minimum half
  have ha := agree_fullBut .minimum half .one .zero
  obtain ⟨r₁, r₂, h₁, h₂, -, hfull, -⟩ :=
    publicSubtasks_eq_iff_conceals rfl rfl (hc .one) (hc .zero) ha
  exact ⟨rfl, rfl, hc .one, hc .zero, ha, r₁, r₂, h₁, h₂, hfull⟩

theorem shown_fullBut :
    ((twoSubtasks .minimum).breakdown (fullBut half .one)).publicSubtasks.map (·.shown) =
        [[true, false, false], [true]] ∧
      ((twoSubtasks .minimum).breakdown (fullBut half .zero)).publicSubtasks.map (·.shown) =
        [[true, true, false], [true]] := by
  decide +kernel

theorem rows_fullBut :
    (renderFeedback .default .restricted
        ((twoSubtasks .minimum).breakdown (fullBut half .one)).publicSubtasks).outcome.isOk = true ∧
      (renderFeedback .default .restricted
        ((twoSubtasks .minimum).breakdown (fullBut half .zero)).publicSubtasks).outcome.isOk =
          true := by
  decide +kernel

/-- The private testcase alone decides whether the detail of the second
public testcase is shown. -/
theorem hidden_failure_shows :
    (twoSubtasks .minimum).AgreeOnPublic (fullBut half .one) (fullBut half .zero) ∧
      ∃ r₁ r₂ rows₁ rows₂, (twoSubtasks .minimum).computeScore (fullBut half .one) = .ok r₁ ∧
        (twoSubtasks .minimum).computeScore (fullBut half .zero) = .ok r₂ ∧
        r₁.publicSubtasks ≠ r₂.publicSubtasks ∧
        (renderFeedback .default .restricted r₁.publicSubtasks).outcome = .ok rows₁ ∧
        (renderFeedback .default .restricted r₂.publicSubtasks).outcome = .ok rows₂ ∧
        rows₁ ≠ rows₂ := by
  have hc := complete_fullBut .minimum half
  obtain ⟨hshown₁, hshown₂⟩ := shown_fullBut
  obtain ⟨rows₁, hrows₁⟩ := eq_ok_of_isOk rows_fullBut.1
  obtain ⟨rows₂, hrows₂⟩ := eq_ok_of_isOk rows_fullBut.2
  have hne : [[true, false, false], [true]] ≠ [[true, true, false], [true]] := by decide
  refine ⟨agree_fullBut _ _ _ _, _, _, rows₁, rows₂,
    (computeScore_eq_ok_iff rfl).mpr ⟨hc .one, rfl⟩,
    (computeScore_eq_ok_iff rfl).mpr ⟨hc .zero, rfl⟩, ?_, hrows₁, hrows₂, ?_⟩
  · intro h
    have := congrArg (List.map (·.shown)) h
    rw [hshown₁, hshown₂] at this
    exact hne this
  · rintro rfl
    have := (shown_of_renderFeedback hrows₁).symm.trans (shown_of_renderFeedback hrows₂)
    rw [hshown₁, hshown₂] at this
    exact hne this

end ScoreType

end ContestGrading
