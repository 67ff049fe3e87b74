import ContestGrading.Proofs.Decimal.Checked
import ContestGrading.Proofs.Grading.Breakdown
/-!
# Where building and grading can fail

A score type keeps its parameters as they were written and the testcases of
its subtasks in a list beside them. Whoever grades with it reads weights and
titles from the one and looks up testcases in the other, and writes numbers.
Here each of these steps may fail: a pattern may not be readable, a weight
not be there, a place of the list be empty and a number not be writable.

For score types that were built none of these steps fails. What is left are
the errors of the configuration while a score type is built, an unreadable
pattern among them, and those of the stored data, a missing evaluation,
while a submission is graded.

Results:
* `create_eq`, `maxScores_eq_checked`, `computeScore_eq_checked`: no step
  fails that does not fail without the checks.
* `failures_confined`: which failures reach whoever builds and grades.
-/
namespace ContestGrading.Checked

open ScoreType (Graded evaluationsOf noResult record)

/-! ## Steps that may fail -/

/-- Why building or grading stops. -/
inductive Failure where
  | configuration (error : ConfigurationError)
  | integrity (error : IntegrityError)
  /-- A pattern that can not be read. -/
  | unreadable (pattern : Text)
  /-- A parameter that does not start with a number. -/
  | noWeight (parameter : Json)
  /-- A place of a list, counted from zero, at which nothing stands. -/
  | nothingAt (place : Nat)
  /-- A number that can not be written. -/
  | unwritable (error : TemplateError)

/-- The pattern of a target. -/
def compile (target : Text) : Except Failure Pattern.Node :=
  match Targets.compile? target with
  | none => .error (.unreadable target)
  | some node => .ok node

/-- The same, with any failure reported as one of the configuration. -/
def compileTarget (target : Text) : Except Failure Pattern.Node :=
  tryCatch (compile target) fun _ => .error (.configuration (.badPattern target))

def weightOf : Json → Except Failure Binary64
  | .list (.number weight :: _) => .ok weight
  | parameter => .error (.noWeight parameter)

/-- The last of three elements or more, if it is a text. -/
def titleOf : Json → Option Text
  | .list fields =>
    if 3 ≤ fields.length then
      match fields.getLast? with
      | some (.string title) => some title
      | _ => none
    else none
  | _ => none

def textOf (score : Binary64) : Except Failure Text := (scoreText score).mapError .unwritable

/-! ## Building -/

/-- A score type with its parameters as they were written and the testcases
of the subtasks beside them. -/
structure Columns where
  policy : Policy
  testcases : List Testcase
  parameters : List Json
  targets : List (List Text)

/-- The testcases of subtasks with patterns. -/
def byPatterns (sorted : List Text) (patterns : List Text) : Except Failure (List (List Text)) :=
  patterns.mapM fun target => do
    let node ← compileTarget target
    return sorted.filter node.foundIn

/-- The testcases of each subtask. -/
def resolve (targets : List Target) (codenames : List Text) :
    Except Failure (List (List Text)) := do
  let sorted := Targets.sort codenames
  let lists ←
    match Targets.counts? targets with
    | some counts => (Targets.byCounts counts sorted).mapError .configuration
    | none =>
      match Targets.patterns? targets with
      | some patterns => byPatterns sorted patterns
      | none => .error (.configuration .mixedTargets)
  (Targets.requireTestcases lists).mapError .configuration

/-- The score type of that name. -/
def create (name : Text) (parameters : Json) (testcases : List Testcase) :
    Except Failure Columns :=
  match Policy.ofName? name with
  | none => .error (.configuration (.unknownScoreType name))
  | some policy => do
    let parameters ← (Parameter.parse parameters).mapError .configuration
    let codenames := testcases.map (·.codename)
    if ¬ codenames.Nodup then .error (.configuration .duplicateCodenames)
    else
      let targets ← resolve (parameters.map (·.target)) codenames
      return ⟨policy, testcases, parameters.map (·.toJson), targets⟩

namespace Columns

def isPublic (st : Columns) (codename : Text) : Bool :=
  ScoreType.isPublic ⟨st.policy, st.testcases, []⟩ codename

def targetAt (st : Columns) (place : Nat) : Except Failure (List Text) :=
  match st.targets[place]? with
  | none => .error (.nothingAt place)
  | some target => .ok target

/-! ## Maximal scores -/

/-- The heading of the column at a place. -/
def headerAt (place : Nat) (parameter : Json) : Except Failure Text := do
  let weight ← weightOf parameter
  let text ← textOf weight
  let title := (titleOf parameter).getD (("Subtask " : Text) ++ Decimal.natText (place + 1))
  return title ++ (" (" : Text) ++ text ++ (")" : Text)

/-- The maximal scores once the subtasks from this place on are added. -/
def addMaxScores (st : Columns) (so : MaxScores) (place : Nat) :
    List Json → Except Failure MaxScores
  | [] => .ok so
  | parameter :: rest => do
    let weight ← weightOf parameter
    let target ← st.targetAt place
    let header ← headerAt place parameter
    st.addMaxScores
      { maxScore := so.maxScore + weight
        maxPublicScore :=
          if target.all st.isPublic then so.maxPublicScore + weight else so.maxPublicScore
        headers := so.headers ++ [header] }
      (place + 1) rest

def maxScores (st : Columns) : Except Failure MaxScores :=
  st.addMaxScores ⟨.zero, .zero, []⟩ 0 st.parameters

/-! ## Grading -/

/-- The subtask at a place, graded. -/
def gradedAt (st : Columns) (submission : Submission) (place : Nat) (parameter : Json) :
    Except Failure Graded := do
  let target ← st.targetAt place
  let evaluations ← (evaluationsOf submission (place + 1) target).mapError .integrity
  let weight ← weightOf parameter
  let feedback := buildFeedback evaluations st.isPublic st.policy.classify
  let fraction := st.policy.reduce (evaluations.map (·.outcome))
  let entry : SubtaskFeedback :=
    { index := .ofNat (place + 1)
      score := some ⟨fraction, weight, titleOf parameter⟩
      testcases := feedback.testcases.map .detailed }
  return {
    number := place + 1
    fraction
    score := fraction * weight
    fullyPublic := target.all st.isPublic
    feedback := entry
    publicFeedback :=
      if target.all st.isPublic then entry
      else ⟨.ofNat (place + 1), none, feedback.publicTestcases⟩ }

/-- The result once the subtasks from this place on are graded. -/
def gradeFrom (st : Columns) (submission : Submission) (so : ScoreResult) (place : Nat) :
    List Json → Except Failure ScoreResult
  | [] => .ok so
  | parameter :: rest => do
    let graded ← st.gradedAt submission place parameter
    let text ← textOf graded.score
    st.gradeFrom submission
      { score := so.score + graded.score
        subtasks := so.subtasks ++ [graded.feedback]
        publicScore :=
          if graded.fullyPublic then so.publicScore + graded.score else so.publicScore
        publicSubtasks := so.publicSubtasks ++ [graded.publicFeedback]
        rankingDetails := so.rankingDetails ++ [text] }
      (place + 1) rest

/-- The result of a submission. -/
def computeScore (st : Columns) (submission : Submission) : Except Failure ScoreResult :=
  if !submission.evaluated then do
    let details ← st.parameters.mapM fun _ => textOf .zero
    return { noResult with rankingDetails := details }
  else st.gradeFrom submission noResult 0 st.parameters

/-- The columns of a score type. -/
def ofScoreType (st : ScoreType) : Columns :=
  ⟨st.policy, st.testcases, st.parameters.map (·.toJson), st.targets⟩

end Columns

/-! ## No other failure -/

theorem textOf_eq (score : Binary64) : textOf score = .ok (ContestGrading.scoreText score) := by
  rw [textOf, scoreText_eq]
  rfl

theorem weightOf_toJson (p : Parameter) : weightOf p.toJson = .ok p.weight := rfl

theorem titleOf_toJson (p : Parameter) : titleOf p.toJson = p.title := by
  cases ht : p.title with
  | none =>
    have he := p.extras_titled ht
    simp [titleOf, Parameter.toJson, ht, he]
  | some title =>
    have hlast : (p.target.toJson :: (p.extras ++ [Json.string title])).getLast? =
        some (.string title) := by
      rw [← List.cons_append, List.getLast?_concat]
    simp [titleOf, Parameter.toJson, ht, hlast]

/-- An unreadable pattern is an error of the configuration. -/
theorem compileTarget_eq (target : Text) :
    compileTarget target =
      match Targets.compile? target with
      | none => .error (.configuration (.badPattern target))
      | some node => .ok node := by
  rw [compileTarget, compile]
  cases Targets.compile? target <;> rfl

theorem mapError_bind {α β ε ε' : Type} (report : ε → ε') (x : Except ε α) (f : α → Except ε β) :
    (x >>= f).mapError report = x.mapError report >>= fun a => (f a).mapError report := by
  cases x <;> rfl

theorem byPatterns_eq (sorted patterns : List Text) :
    byPatterns sorted patterns = (Targets.byPatterns sorted patterns).mapError .configuration := by
  induction patterns with
  | nil => rfl
  | cons target rest ih =>
    rw [byPatterns, List.mapM_cons, ← byPatterns, ih, compileTarget_eq, Targets.byPatterns]
    cases Targets.compile? target with
    | none => rfl
    | some node => cases Targets.byPatterns sorted rest <;> rfl

theorem resolve_eq (targets : List Target) (codenames : List Text) :
    resolve targets codenames = (Targets.resolve targets codenames).mapError .configuration := by
  simp only [resolve, Targets.resolve]
  cases Targets.counts? targets with
  | some counts => exact (mapError_bind _ _ _).symm
  | none =>
    cases Targets.patterns? targets with
    | some patterns =>
      dsimp only
      rw [byPatterns_eq]
      exact (mapError_bind _ _ _).symm
    | none => rfl

/-- Building fails with errors of the configuration only. -/
theorem create_eq (name : Text) (json : Json) (testcases : List Testcase) :
    create name json testcases =
      ((ScoreType.create name json testcases).map Columns.ofScoreType).mapError
        .configuration := by
  unfold create ScoreType.create
  cases Policy.ofName? name with
  | none => rfl
  | some policy =>
    dsimp only
    unfold ScoreType.ofPolicy
    cases hp : Parameter.parse json with
    | error e => rfl
    | ok parameters =>
      show (if _ then _ else _) = ((if _ then _ else _ : Except _ _).map _).mapError _
      split
      next => rfl
      next =>
        rw [resolve_eq]
        cases ht : Targets.resolve (parameters.map (·.target)) (testcases.map (·.codename)) with
        | error e => rfl
        | ok targets =>
          have hlen : targets.length = parameters.length := by
            have := (Targets.resolve_ok ht).1
            rwa [List.length_map] at this
          obtain ⟨hps, hts⟩ := ScoreType.map_zipWith_mk hlen
          show Except.ok (Columns.mk policy testcases (parameters.map (·.toJson)) targets) =
            .ok (Columns.ofScoreType ⟨policy, testcases, List.zipWith Subtask.mk parameters targets⟩)
          rw [Columns.ofScoreType, ScoreType.parameters, ScoreType.targets, hps, hts]

namespace Columns

variable {st : ScoreType} {done rest : List Subtask}

theorem parameters_ofScoreType (st : ScoreType) :
    (ofScoreType st).parameters = st.subtasks.map (·.parameter.toJson) :=
  List.map_map

/-- Behind the subtasks that are done stand the testcases of the next one. -/
theorem targetAt_ofScoreType {s : Subtask} (h : st.subtasks = done ++ s :: rest) :
    (ofScoreType st).targetAt done.length = .ok s.testcases := by
  have hplace : (ofScoreType st).targets[done.length]? = some s.testcases := by
    show (st.subtasks.map (·.testcases))[done.length]? = _
    rw [h]
    simp
  rw [targetAt, hplace]

theorem headerAt_toJson (place : Nat) (p : Parameter) :
    headerAt place p.toJson = .ok (ScoreType.header (place + 1) p) := by
  simp only [headerAt, weightOf_toJson, textOf_eq, titleOf_toJson, bind, Except.bind]
  rfl

theorem addMaxScores_eq (h : st.subtasks = done ++ rest) (so : MaxScores) :
    (ofScoreType st).addMaxScores so done.length (rest.map (·.parameter.toJson)) =
      .ok (st.addMaxScores (done.length + 1) so rest) := by
  induction rest generalizing done so with
  | nil => rfl
  | cons s rest ih =>
    -- one more subtask is done, and the next one stands one place further
    have hnext : st.subtasks = (done ++ [s]) ++ rest := by rw [h, List.append_assoc]; rfl
    have hrest := ih hnext
    rw [List.length_append, List.length_singleton] at hrest
    simp only [List.map_cons, addMaxScores, weightOf_toJson, targetAt_ofScoreType h,
      headerAt_toJson, bind, Except.bind]
    exact hrest _

/-- Maximal scores never fail. -/
theorem maxScores_eq_checked (st : ScoreType) : (ofScoreType st).maxScores = .ok st.maxScores := by
  rw [maxScores, parameters_ofScoreType]
  exact @addMaxScores_eq st [] st.subtasks rfl _

/-- A subtask can be graded as soon as its testcases have evaluations. -/
theorem gradedAt_ofScoreType {s : Subtask} (h : st.subtasks = done ++ s :: rest)
    (submission : Submission) :
    (ofScoreType st).gradedAt submission done.length s.parameter.toJson =
      ((evaluationsOf submission (done.length + 1) s.testcases).map
        (st.gradedOf (done.length + 1) s)).mapError .integrity := by
  simp only [gradedAt, targetAt_ofScoreType h, weightOf_toJson, titleOf_toJson, bind, Except.bind]
  cases evaluationsOf submission (done.length + 1) s.testcases <;> rfl

theorem gradeFrom_eq (h : st.subtasks = done ++ rest) (submission : Submission)
    (so : ScoreResult) :
    (ofScoreType st).gradeFrom submission so done.length (rest.map (·.parameter.toJson)) =
      match st.gradeFrom submission (done.length + 1) rest with
      | (_, some error) => .error (.integrity error)
      | (graded, none) => .ok (graded.foldl record so) := by
  induction rest generalizing done so with
  | nil => rfl
  | cons s rest ih =>
    have hnext : st.subtasks = (done ++ [s]) ++ rest := by rw [h, List.append_assoc]; rfl
    have hrest := ih hnext
    rw [List.length_append, List.length_singleton] at hrest
    rw [List.map_cons, gradeFrom, gradedAt_ofScoreType h, ScoreType.gradeFrom]
    cases evaluationsOf submission (done.length + 1) s.testcases with
    | error e => rfl
    | ok evaluations =>
      show (textOf (st.gradedOf (done.length + 1) s evaluations).score >>= fun text => _) = _
      rw [textOf_eq]
      refine (hrest (record so (st.gradedOf (done.length + 1) s evaluations))).trans ?_
      dsimp only
      obtain ⟨graded, error⟩ := st.gradeFrom submission (done.length + 1 + 1) rest
      cases error <;> rfl

/-- Grading fails with errors of the stored data only. -/
theorem computeScore_eq_checked (st : ScoreType) (submission : Submission) :
    (ofScoreType st).computeScore submission =
      (st.computeScore submission).mapError .integrity := by
  unfold computeScore ScoreType.computeScore ScoreType.grade
  rw [parameters_ofScoreType]
  cases submission.evaluated with
  | false =>
    have hdetails : (st.subtasks.map (·.parameter.toJson)).mapM (fun _ => textOf .zero) =
        .ok (st.subtasks.map fun _ => ContestGrading.scoreText .zero) := by
      rw [textOf_eq]
      refine (List.mapM_pure (m := Except Failure)).trans ?_
      rw [List.map_map]
      rfl
    show (List.mapM _ _ >>= fun details => _) = _
    rw [hdetails]
    rfl
  | true =>
    show (ofScoreType st).gradeFrom submission noResult 0 _ = _
    refine (@gradeFrom_eq st [] st.subtasks rfl submission noResult).trans ?_
    show (match st.gradeFrom submission 1 st.subtasks with
      | (_, some error) => _
      | (graded, none) => _) = _
    dsimp only [Bool.not_true]
    obtain ⟨graded, error⟩ := st.gradeFrom submission 1 st.subtasks
    cases error <;> rfl

end Columns

/-- **Failures are confined.** Building a score type, from any name,
parameters and testcases, fails with errors of the configuration only, those
that it fails with anyway. Every number can be written as a score. With what
was built, the maximal scores never fail, and grading a submission fails
with errors of the stored data only; the results are those of the score type. -/
theorem failures_confined (name : Text) (json : Json) (testcases : List Testcase) :
    create name json testcases =
        ((ScoreType.create name json testcases).map Columns.ofScoreType).mapError
          .configuration ∧
      (∀ score, scoreText score = .ok (ContestGrading.scoreText score)) ∧
      ∀ columns, create name json testcases = .ok columns →
        ∃ st, ScoreType.create name json testcases = .ok st ∧
          columns.maxScores = .ok st.maxScores ∧
          ∀ submission, columns.computeScore submission =
            (st.computeScore submission).mapError .integrity := by
  have hcreate := create_eq name json testcases
  refine ⟨hcreate, scoreText_eq, fun columns h => ?_⟩
  rw [hcreate] at h
  cases hst : ScoreType.create name json testcases with
  | error e =>
    rw [hst] at h
    cases h
  | ok st =>
    rw [hst] at h
    obtain rfl : Columns.ofScoreType st = columns := Except.ok.inj h
    exact ⟨st, rfl, Columns.maxScores_eq_checked st, Columns.computeScore_eq_checked st⟩

theorem failures_confined_twoSubtasks :
    create Policy.mean.name ScoreType.threeAndOne ScoreType.fourTestcases =
        .ok (.ofScoreType (.twoSubtasks .mean)) ∧
      ∃ st, ScoreType.create Policy.mean.name ScoreType.threeAndOne ScoreType.fourTestcases =
          .ok st ∧
        (Columns.ofScoreType (.twoSubtasks .mean)).maxScores = .ok st.maxScores ∧
        ∀ submission, (Columns.ofScoreType (.twoSubtasks .mean)).computeScore submission =
          (st.computeScore submission).mapError .integrity := by
  obtain ⟨hcreate, -, hrun⟩ :=
    failures_confined Policy.mean.name ScoreType.threeAndOne ScoreType.fourTestcases
  have hcolumns : create Policy.mean.name ScoreType.threeAndOne ScoreType.fourTestcases =
      .ok (.ofScoreType (.twoSubtasks .mean)) := by
    rw [hcreate, ScoreType.create_twoSubtasks]
    rfl
  exact ⟨hcolumns, hrun _ hcolumns⟩

end ContestGrading.Checked
