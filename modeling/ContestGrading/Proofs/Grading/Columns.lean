import ContestGrading.Proofs.Grading.Rendering
/-!
# The columns of the ranking

A parameter has a heading in the ranking, a line in the ranking details and a
row in the rendered breakdown. Titles, weights and scores in them are made in
different places, and they are the same.

Results:
* `plainTitle_default`: the title that a subtask has from its number.
* `isRow_breakdown`: the row at one place, beside its heading and its line.
* `columns_agree`: headings, lines and rows, for every parameter.
-/
namespace ContestGrading

open Decimal (natText)

/-! ## Titles -/

namespace Template

def titlePlaceholder : Placeholder := ⟨.next, false, 32, false, none, none, .integer⟩

theorem parse_titleMessage :
    parse Translation.titleMessage =
      .ok [.literal "Subtask ", .placeholder titlePlaceholder] := by
  decide +kernel

theorem fillPlaceholder_title {n : Nat} (h : n < 2 ^ 53) :
    fillPlaceholder titlePlaceholder (some (.number (.ofNat n))) =
      .ok (natText n) := by
  have hwhole : Binary64.ofNat n = .ofInt n := rfl
  have habs : (n : Int).natAbs = n := Int.natAbs_natCast n
  have hsign : wholeSign titlePlaceholder n = [] := by
    simp [wholeSign, titlePlaceholder]
  rw [hwhole, fillPlaceholder_ofInt rfl (by decide) (by rwa [habs]), hsign, habs,
    pad_of_le (Nat.zero_le _)]
  rfl

/-- The title of a subtask that is counted. -/
theorem format_titleMessage {n : Nat} (h : n < 2 ^ 53) :
    format Translation.titleMessage [.number (.ofNat n)] =
      .ok (("Subtask " : Text) ++ natText n) := by
  have hpiece : fillPiece [.number (.ofNat n)] 0 (.placeholder titlePlaceholder) =
      .ok (natText n, 1) := fillPiece_next rfl (fillPlaceholder_title h)
  rw [format_of_parse parse_titleMessage, fill, fillFrom_cons rfl, fillFrom_cons hpiece]
  simp [fillFrom, Except.map]

end Template

namespace Rendering

theorem plainTitle_default {n : Nat} (h : n < 2 ^ 53) :
    plainTitle .default (.ofNat n) = .ok (("Subtask " : Text) ++ natText n) := by
  unfold plainTitle
  rw [Translation.gettext_default]
  exact Template.format_titleMessage h

/-- The title of a row is that of the heading. -/
theorem header_eq_of_titleOf {number : Nat} {p : Parameter} {fraction : Binary64}
    {testcases : List TestcaseFeedback} {title : Text}
    (hnumber : p.title = none → number < 2 ^ 53)
    (h : titleOf .default ⟨.ofNat number, some ⟨fraction, p.weight, p.title⟩, testcases⟩ =
      .ok title) :
    ScoreType.header number p = title ++ (" (" : Text) ++ scoreText p.weight ++ (")" : Text) := by
  unfold ScoreType.header
  unfold titleOf at h
  cases hp : p.title with
  | none =>
    simp only [hp, Option.bind_some, plainTitle_default (hnumber hp), Except.ok.injEq] at h
    rw [← h]
    rfl
  | some own =>
    simp only [hp, Option.bind_some, Except.ok.injEq] at h
    rw [← h]
    rfl

/-- With the default translation every breakdown can be rendered. -/
theorem exists_rows_default (level : FeedbackLevel) (subtasks : List SubtaskFeedback) :
    ∃ rows, (renderFeedback .default level subtasks).outcome = .ok rows := by
  apply (renderFeedback_fills .default level subtasks).exists_ok
  intro f hf
  obtain ⟨m, hm, htemplate⟩ := mem_fillings .default level hf
  unfold Filling.outcome
  rw [htemplate]
  exact Template.format_number_ok f.number
    (List.all_eq_true.mp Translation.fitsNumbers_default m hm)

end Rendering

/-! ## Columns -/

namespace ScoreType

open Rendering

variable {st : ScoreType} {submission : Submission}

theorem length_rankingDetails {r : ScoreResult} (h : st.computeScore submission = .ok r) :
    r.rankingDetails.length = st.subtasks.length := by
  cases he : submission.evaluated with
  | false =>
    rw [computeScore, grade_unevaluated st he] at h
    cases h
    simp
  | true =>
    obtain ⟨-, rfl⟩ := (computeScore_eq_ok_iff he).mp h
    simp [breakdown]

/-- The row at one place, beside its heading and its line. -/
theorem isRow_breakdown {level : FeedbackLevel} {rows : List RenderedSubtask}
    (hc : st.Complete submission)
    (h : (renderFeedback .default level (st.breakdown submission).subtasks).outcome = .ok rows)
    {i : Nat} {s : Subtask} (hs : st.subtasks[i]? = some s) :
    ∃ row score line header, rows[i]? = some row ∧ row.score = some score ∧
      (st.breakdown submission).rankingDetails[i]? = some line ∧
      st.maxScores.headers[i]? = some header ∧
      score.score = line ++ (" / " : Text) ++ scoreText s.parameter.weight ∧
      ((s.parameter.title = none → i + 1 < 2 ^ 53) →
        header = row.title ++ (" (" : Text) ++ scoreText s.parameter.weight ++ (")" : Text)) := by
  obtain ⟨hentry, hline⟩ := getElem?_breakdown st submission hs
  obtain ⟨row, hrow, hparts⟩ := exists_row h hentry
  have hheader : st.maxScores.headers[i]? = some (header (1 + i) s.parameter) := by
    simp [maxScores_eq, hs]
  have hscore := gradedOf_score st (i + 1) (hc s (List.mem_of_getElem? hs))
  refine ⟨row, _, _, _, hrow, hparts.score, hline, hheader, ?_, ?_⟩
  · rw [← hscore]
    rfl
  · intro hnumber
    rw [Nat.add_comm]
    exact header_eq_of_titleOf hnumber hparts.title

/-- An entry of the public breakdown has a score just if its subtask is public. -/
theorem isSome_score_publicFeedback (number : Nat) (subtasks : List Subtask) :
    ((st.gradedFrom submission number subtasks).map (·.publicFeedback)).map (·.score.isSome) =
      subtasks.map st.isFullyPublic := by
  induction subtasks generalizing number with
  | nil => rfl
  | cons s rest ih =>
    rw [gradedFrom_cons, List.map_cons, List.map_cons, List.map_cons, ih]
    cases hp : st.isFullyPublic s with
    | false => simp [gradedOf, hp]
    | true => simp [gradedOf, hp]

/-- The weights at the rows with a score are those of the subtasks told by it. -/
theorem weights_of_rows {subtasks : List Subtask} {rows : List RenderedSubtask}
    {p : Subtask → Bool} (h : rows.map (·.score.isSome) = subtasks.map p) :
    (((subtasks.map (·.parameter)).zip rows).filter (·.2.score.isSome)).map (·.1.weight) =
      (subtasks.filter p).map (·.parameter.weight) := by
  induction subtasks generalizing rows with
  | nil => rfl
  | cons s rest ih =>
    cases rows with
    | nil => cases h
    | cons row rows =>
      obtain ⟨hrow, hrows⟩ := List.cons.inj h
      rw [List.map_cons, List.zip_cons_cons, List.filter_cons, List.filter_cons, ← hrow]
      split
      · rw [List.map_cons, List.map_cons, ih hrows]
      · exact ih hrows

/-- **The columns agree.** Ranking details and headings have one entry for
each parameter, every line being a zero if the submission was not evaluated.
If it was, a row of the breakdown in the default translation has the score of
its line over the weight, and its title and weight are the heading; a subtask
without a title needs a number below `2 ^ 53` for that, which no list gets
to. A row of the public breakdown, in any translation, has a score just if
all testcases of its subtask are public, and the weights at these rows, and no
others, add up to the maximal public score. -/
theorem columns_agree {policy : Policy} {json : Json} {testcases : List Testcase}
    (hst : ofPolicy policy json testcases = .ok st) {r : ScoreResult}
    (h : st.computeScore submission = .ok r) :
    ∃ (parameters : List Parameter) (targets : List (List Text)),
      Parameter.parse json = .ok parameters ∧
      Targets.resolve (parameters.map (·.target)) (testcases.map (·.codename)) = .ok targets ∧
      r.rankingDetails.length = parameters.length ∧
      st.maxScores.headers.length = parameters.length ∧
      (submission.evaluated = false → ∀ line ∈ r.rankingDetails, line = ("0" : Text)) ∧
      (submission.evaluated = true →
        (∀ level, ∃ rows, (renderFeedback .default level r.subtasks).outcome = .ok rows ∧
          rows.length = parameters.length ∧
          ∀ (i : Nat) (p : Parameter), parameters[i]? = some p →
            ∃ row score line header, rows[i]? = some row ∧ row.score = some score ∧
              r.rankingDetails[i]? = some line ∧ st.maxScores.headers[i]? = some header ∧
              score.score = line ++ (" / " : Text) ++ scoreText p.weight ∧
              ((p.title = none → i + 1 < 2 ^ 53) →
                header = row.title ++ (" (" : Text) ++ scoreText p.weight ++ (")" : Text))) ∧
        (∀ level, ∃ rows, (renderFeedback .default level r.publicSubtasks).outcome = .ok rows) ∧
        ∀ tr level rows, (renderFeedback tr level r.publicSubtasks).outcome = .ok rows →
          rows.length = parameters.length ∧
          (∀ (i : Nat) (row : RenderedSubtask) (codenames : List Text), rows[i]? = some row →
            targets[i]? = some codenames →
            (row.score.isSome = true ↔ ∀ codename ∈ codenames, ⟨codename, true⟩ ∈ testcases)) ∧
          st.maxScores.maxPublicScore = Binary64.sum
            (((parameters.zip rows).filter (·.2.score.isSome)).map (·.1.weight))) := by
  have hpublic := isPublic_of_ofPolicy hst
  obtain ⟨-, -, -, hp, ht⟩ := ofPolicy_eq_ok_iff.mp hst
  refine ⟨st.parameters, st.targets, hp, ht, ?_, ?_, ?_, ?_⟩
  · rw [length_rankingDetails h, parameters, List.length_map]
  · simp [maxScores_eq, parameters]
  · intro he line hline
    rw [computeScore, grade_unevaluated st he] at h
    cases h
    obtain ⟨s, -, rfl⟩ := List.mem_map.mp hline
    exact scoreText_zero
  intro he
  obtain ⟨hc, rfl⟩ := (computeScore_eq_ok_iff he).mp h
  refine ⟨?_, fun level => exists_rows_default level _, ?_⟩
  · intro level
    obtain ⟨rows, hrows⟩ := exists_rows_default level (st.breakdown submission).subtasks
    refine ⟨rows, hrows, ?_, ?_⟩
    · rw [← (renderFeedback_eq_ok_iff.mp hrows).length_eq]
      simp [breakdown, gradedFrom, parameters]
    · intro i p hip
      obtain ⟨s, hs, rfl⟩ : ∃ s, st.subtasks[i]? = some s ∧ s.parameter = p := by
        simpa [parameters] using hip
      exact isRow_breakdown hc hrows hs
  · intro tr level rows hrows
    have hscores : rows.map (·.score.isSome) = st.subtasks.map st.isFullyPublic :=
      (isSome_score_of_rows hrows).trans (isSome_score_publicFeedback 1 st.subtasks)
    refine ⟨?_, ?_, ?_⟩
    · simpa [parameters] using congrArg List.length hscores
    · intro i row codenames hrow hcodenames
      obtain ⟨s, hs, rfl⟩ : ∃ s, st.subtasks[i]? = some s ∧ s.testcases = codenames := by
        simpa [targets] using hcodenames
      have hscore : row.score.isSome = st.isFullyPublic s := by
        simpa [hrow, hs] using congrArg (·[i]?) hscores
      rw [hscore, isFullyPublic, hpublic, List.all_eq_true]
      simp only [isPublicIn, decide_eq_true_eq]
    · rw [maxScores_eq, parameters, weights_of_rows hscores]

theorem columns_agree_fullBut :
    ∃ r, ofPolicy .mean threeAndOne fourTestcases = .ok (twoSubtasks .mean) ∧
      (twoSubtasks .mean).computeScore (fullBut half .zero) = .ok r ∧
      r.rankingDetails.length = (twoSubtasks .mean).maxScores.headers.length ∧
      ∃ rows, (renderFeedback .default .full r.subtasks).outcome = .ok rows := by
  have hst := ofPolicy_twoSubtasks .mean
  have h : (twoSubtasks .mean).computeScore (fullBut half .zero) = .ok _ :=
    (computeScore_eq_ok_iff rfl).mpr ⟨complete_fullBut .mean half .zero, rfl⟩
  obtain ⟨_, _, -, -, hlines, hheaders, -, hevaluated⟩ := columns_agree hst h
  obtain ⟨hrows, -⟩ := hevaluated rfl
  obtain ⟨rows, hrows, -⟩ := hrows .full
  exact ⟨_, hst, h, hlines.trans hheaders.symm, rows, hrows⟩

end ScoreType

end ContestGrading
