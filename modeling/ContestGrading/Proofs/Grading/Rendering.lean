import ContestGrading.Proofs.Grading.Breakdown
import ContestGrading.Proofs.Grading.Rows
import ContestGrading.Proofs.Locale.Shipped
/-!
# When a breakdown can be rendered

Rendering fills translated templates with numbers: the title of a subtask
without one of its own, and the measures of the details that are shown.
Statuses never stop it, but one of these templates that cannot be filled
does.

Results:
* `renderFeedback_fills`: what rendering fills, and how it fails.
* `mem_fillings`: all of it are translations of the messages for numbers.
* `renders_iff`: when there are rows, one for each subtask.
* `brokenTitle_stops`: a catalog that is in the way.
-/
namespace ContestGrading

/-- A template that is filled with a number. -/
structure Filling where
  template : Text
  number : Binary64

namespace Filling

def outcome (f : Filling) : Except TemplateError Text :=
  Template.format f.template [.number f.number]

end Filling

namespace Rendering

open Translation

def titleFilling (tr : Translation) (index : Binary64) : Filling :=
  ⟨tr.gettext titleMessage, index⟩

def durationFilling (tr : Translation) (seconds : Binary64) : Filling :=
  ⟨tr.gettext durationMessage, seconds⟩

def sizeFilling (tr : Translation) (bytes : Binary64) : Filling :=
  ⟨tr.gettext (Size.ofBytes bytes).1.message, (Size.ofBytes bytes).2⟩

/-- What is filled for a detail that is shown. -/
def detailFillings (tr : Translation) (d : TestcaseDetail) : List Filling :=
  d.time.toList.map (durationFilling tr) ++ d.memory.toList.map (sizeFilling tr)

def testcaseFillings (tr : Translation) (level : FeedbackLevel) : TestcaseFeedback → List Filling
  | .hidden _ => []
  | .detailed d =>
    if level = .restricted ∧ d.shownRestricted = false then [] else detailFillings tr d

def subtaskFillings (tr : Translation) (level : FeedbackLevel) (s : SubtaskFeedback) :
    List Filling :=
  s.testcases.flatMap (testcaseFillings tr level) ++
    if (s.score.bind (·.title)).isNone then [titleFilling tr s.index] else []

/-- All that is filled for a breakdown, in order. -/
def fillings (tr : Translation) (level : FeedbackLevel) (subtasks : List SubtaskFeedback) :
    List Filling :=
  subtasks.flatMap (subtaskFillings tr level)

/-! ## What a rendering fills -/

variable {α β : Type}

/-- The rendering succeeds if all of this can be filled, and fails as one of
them does. -/
structure Fills (j : Rendering α) (fs : List Filling) : Prop where
  ok : ∀ a, j.outcome = .ok a → ∀ f ∈ fs, ∃ text, f.outcome = .ok text
  error : ∀ e, j.outcome = .error e → ∃ f ∈ fs, f.outcome = .error e

namespace Fills

variable {j : Rendering α} {fs gs : List Filling}

theorem nothing {a : α} (h : j.outcome = .ok a) : Fills j [] :=
  ⟨fun _ _ => List.forall_mem_nil _, fun e he => by cases h.symm.trans he⟩

theorem done (a : α) : Fills (.done a) [] := nothing rfl

theorem filling (f : Filling) (g : Text → α) : Fills (.ofExcept (f.outcome.map g)) [f] := by
  rw [Journal.ofExcept]
  cases hf : f.outcome with
  | ok text =>
    refine ⟨fun a _ f' hf' => ?_, fun e he => ?_⟩
    · obtain rfl := List.mem_singleton.mp hf'
      exact ⟨text, hf⟩
    · cases he
  | error e =>
    refine ⟨fun a ha => ?_, fun e' he => ?_⟩
    · cases ha
    · cases he
      exact ⟨f, List.mem_singleton_self f, hf⟩

theorem andThen {k : α → Rendering β} (hj : Fills j fs) (hk : ∀ a, Fills (k a) gs) :
    Fills (j.andThen k) (fs ++ gs) := by
  refine ⟨fun b hb f hf => ?_, fun e he => ?_⟩
  · obtain ⟨a, ha, hb⟩ := Journal.outcome_andThen_ok hb
    rcases List.mem_append.mp hf with hf | hf
    · exact hj.ok a ha f hf
    · exact (hk a).ok b hb f hf
  · cases ho : j.outcome with
    | error e' =>
      obtain rfl := Except.error.inj ((Journal.outcome_andThen_error ho k).symm.trans he)
      obtain ⟨f, hf, hfails⟩ := hj.error e' ho
      exact ⟨f, List.mem_append_left _ hf, hfails⟩
    | ok a =>
      obtain ⟨f, hf, hfails⟩ := (hk a).error e ((Journal.outcome_andThen ho k).symm.trans he)
      exact ⟨f, List.mem_append_right _ hf, hfails⟩

/-- A step that fills nothing more. -/
theorem andThen_nothing {k : α → Rendering β} (hj : Fills j fs) (hk : ∀ a, Fills (k a) []) :
    Fills (j.andThen k) fs := List.append_nil fs ▸ hj.andThen hk

theorem forEach {f : α → Rendering β} {g : α → List Filling} (hf : ∀ a, Fills (f a) (g a))
    (as : List α) : Fills (Journal.forEach f as) (as.flatMap g) := by
  induction as with
  | nil => exact done []
  | cons a as ih =>
    rw [List.flatMap_cons]
    exact (hf a).andThen fun b => ih.andThen_nothing fun bs => done _

/-- If all of it can be filled there is a value. -/
theorem exists_ok (h : Fills j fs) (hfs : ∀ f ∈ fs, ∃ text, f.outcome = .ok text) :
    ∃ a, j.outcome = .ok a := by
  cases ho : j.outcome with
  | ok a => exact ⟨a, rfl⟩
  | error e =>
    obtain ⟨f, hf, hfails⟩ := h.error e ho
    obtain ⟨text, htext⟩ := hfs f hf
    cases hfails.symm.trans htext

end Fills

/-! ## What a breakdown fills -/

variable (tr : Translation) (level : FeedbackLevel)

theorem measure_fills {text : Binary64 → Except TemplateError Text} {filling : Binary64 → Filling}
    (h : ∀ x, text x = (filling x).outcome) (x : Option Binary64) :
    Fills (measure text x) (x.toList.map filling) := by
  cases x with
  | none => exact .done none
  | some x =>
    rw [measure, h]
    exact .filling (filling x) some

theorem renderTestcase_fills (tc : TestcaseFeedback) :
    Fills (renderTestcase tr level tc) (testcaseFillings tr level tc) := by
  cases tc with
  | hidden codename => exact .done _
  | detailed d =>
    rw [renderTestcase, testcaseFillings]
    split
    next => exact .done _
    next =>
      have hstatus : Fills (.noteAll (statusLine tr d.text).failure.toList) [] := .nothing rfl
      have htime := @measure_fills (durationText tr) (durationFilling tr) (fun _ => rfl) d.time
      have hmemory := @measure_fills (sizeText tr) (sizeFilling tr) (fun _ => rfl) d.memory
      rw [renderDetail, detailFillings]
      exact hstatus.andThen fun _ => htime.andThen fun _ =>
        hmemory.andThen_nothing fun _ => .done _

theorem renderSubtask_fills (s : SubtaskFeedback) :
    Fills (renderSubtask tr level s) (subtaskFillings tr level s) := by
  rw [renderSubtask, subtaskFillings]
  refine (Fills.forEach (renderTestcase_fills tr level) s.testcases).andThen fun testcases => ?_
  cases s.score.bind (·.title) with
  | some title => exact .done _
  | none =>
    have htitle : Fills (.ofExcept (plainTitle tr s.index)) [titleFilling tr s.index] := by
      have hmap := Fills.filling (titleFilling tr s.index) id
      rwa [Except.map_id] at hmap
    exact htitle.andThen_nothing fun title => .done _

theorem renderFeedback_fills (subtasks : List SubtaskFeedback) :
    Fills (renderFeedback tr level subtasks) (fillings tr level subtasks) :=
  .forEach (renderSubtask_fills tr level) subtasks

/-- All that is filled are translations of the messages for numbers. -/
theorem mem_fillings {subtasks : List SubtaskFeedback} {f : Filling}
    (h : f ∈ fillings tr level subtasks) : ∃ m ∈ numberMessages, f.template = tr.gettext m := by
  have htitle : titleMessage ∈ numberMessages := List.mem_cons_self ..
  have hduration : durationMessage ∈ numberMessages :=
    List.mem_cons_of_mem _ (List.mem_cons_self ..)
  have hsize : ∀ unit : Size.Unit, unit.message ∈ numberMessages := fun unit =>
    List.mem_cons_of_mem _ (List.mem_cons_of_mem _ (List.mem_map_of_mem (Size.mem_units unit)))
  obtain ⟨s, -, hs⟩ := List.mem_flatMap.mp h
  rcases List.mem_append.mp hs with hs | hs
  · obtain ⟨tc, -, htc⟩ := List.mem_flatMap.mp hs
    cases tc with
    | hidden codename => cases htc
    | detailed d =>
      rw [testcaseFillings] at htc
      split at htc
      next => cases htc
      next =>
        rcases List.mem_append.mp htc with hf | hf
        · obtain ⟨x, -, rfl⟩ := List.mem_map.mp hf
          exact ⟨_, hduration, rfl⟩
        · obtain ⟨x, -, rfl⟩ := List.mem_map.mp hf
          exact ⟨_, hsize _, rfl⟩
  · split at hs
    next =>
      obtain rfl := List.mem_singleton.mp hs
      exact ⟨_, htitle, rfl⟩
    next => cases hs

theorem index_of_renderSubtask_ok {s : SubtaskFeedback} {row : RenderedSubtask}
    (h : (renderSubtask tr level s).outcome = .ok row) : row.index = s.index :=
  (renderSubtask_eq_ok_iff.mp h).index

/-- **When there are rows.** Rendering a breakdown gives a row for each
subtask if every template that it fills with a number can be filled, and
fails as one of these templates does. Any number fits the default
translation, those that come with the program, and every other that is found
to do so: with these it never fails. -/
theorem renders_iff (subtasks : List SubtaskFeedback) :
    ((∃ rows, (renderFeedback tr level subtasks).outcome = .ok rows) ↔
      ∀ f ∈ fillings tr level subtasks, ∃ text, f.outcome = .ok text) ∧
    (∀ rows, (renderFeedback tr level subtasks).outcome = .ok rows →
      rows.map (·.index) = subtasks.map (·.index)) ∧
    (∀ e, (renderFeedback tr level subtasks).outcome = .error e →
      ∃ f ∈ fillings tr level subtasks, f.outcome = .error e) ∧
    (tr.fitsNumbers = true → ∃ rows, (renderFeedback tr level subtasks).outcome = .ok rows) ∧
    (∀ locale, (Locale.load Locale.shippedFiles Locale.shippedDirectory locale).outcome = .ok tr →
      ∃ rows, (renderFeedback tr level subtasks).outcome = .ok rows) := by
  obtain ⟨hok, herror⟩ := renderFeedback_fills tr level subtasks
  have hsucceeds : (∀ f ∈ fillings tr level subtasks, ∃ text, f.outcome = .ok text) →
      ∃ rows, (renderFeedback tr level subtasks).outcome = .ok rows := by
    intro hfilled
    cases ho : (renderFeedback tr level subtasks).outcome with
    | ok rows => exact ⟨rows, rfl⟩
    | error e =>
      obtain ⟨f, hf, hfails⟩ := herror e ho
      obtain ⟨text, htext⟩ := hfilled f hf
      cases hfails.symm.trans htext
  have hfits : tr.fitsNumbers = true →
      ∃ rows, (renderFeedback tr level subtasks).outcome = .ok rows := by
    intro hfits
    refine hsucceeds fun f hf => ?_
    obtain ⟨m, hm, htemplate⟩ := mem_fillings tr level hf
    rw [Filling.outcome, htemplate]
    exact Template.format_number_ok f.number (List.all_eq_true.mp hfits m hm)
  refine ⟨⟨fun ⟨rows, hrows⟩ => hok rows hrows, hsucceeds⟩, fun rows hrows => ?_, herror, hfits, ?_⟩
  · exact Journal.map_of_forEach_ok (fun s row => index_of_renderSubtask_ok tr level) hrows
  · intro locale hload
    exact hfits (Locale.fitsNumbers_of_load_shipped hload)

/-! ## A catalog that is in the way -/

open ScoreType (twoSubtasks fullBut half)

/-- A percent sign that is not doubled. -/
def brokenTitle : Translation := ⟨"xx", [("Subtask %d", "Subtask %d (100%)")]⟩

/-- The catalog as a file. -/
def brokenFiles : Files := fun path =>
  if path = "locales/xx.json" then
    .content (Text.encode (Json.print 4 (.object
      (brokenTitle.messages.map fun m => (m.1, .string m.2)))))
  else .missing

theorem load_brokenFiles : (Locale.load brokenFiles "locales" "xx").outcome = .ok brokenTitle := by
  have hparts : (Locale.load brokenFiles "locales" "xx").outcome.map
      (fun tr => (tr.identifier, tr.messages)) =
        .ok (brokenTitle.identifier, brokenTitle.messages) := by
    decide +kernel
  obtain ⟨tr, hload, hparts⟩ := map_eq_ok_iff.mp hparts
  obtain ⟨hidentifier, hmessages⟩ := Prod.mk.inj hparts
  rw [hload]
  exact congrArg Except.ok (congrArg₂ Translation.mk hidentifier hmessages)

theorem render_brokenTitle :
    ∃ r, (twoSubtasks .mean).computeScore (fullBut half .zero) = .ok r ∧
      (renderFeedback brokenTitle .restricted r.publicSubtasks).outcome =
        .error .unexpectedPlaceholder := by
  have hrows : ((twoSubtasks .mean).computeScore (fullBut half .zero)).map (fun r =>
      (renderFeedback brokenTitle .restricted r.publicSubtasks).outcome.map List.length) =
        .ok (.error .unexpectedPlaceholder) := by
    decide +kernel
  obtain ⟨r, hscore, hrender⟩ := map_eq_ok_iff.mp hrows
  exact ⟨r, hscore, map_eq_error_iff.mp hrender⟩

/-- The catalog is accepted, and it stops the rendering of what was graded. -/
theorem brokenTitle_stops :
    (¬ ∀ files directory locale tr, (Locale.load files directory locale).outcome = .ok tr →
      ∀ (st : ScoreType) submission r level, st.computeScore submission = .ok r →
        ∃ rows, (renderFeedback tr level r.publicSubtasks).outcome = .ok rows) ∧
    (Locale.load brokenFiles "locales" "xx").outcome = .ok brokenTitle ∧
    ∃ r, (twoSubtasks .mean).computeScore (fullBut half .zero) = .ok r ∧
      (renderFeedback brokenTitle .restricted r.publicSubtasks).outcome =
        .error .unexpectedPlaceholder := by
  obtain ⟨r, hscore, hfails⟩ := render_brokenTitle
  refine ⟨fun hall => ?_, load_brokenFiles, r, hscore, hfails⟩
  obtain ⟨rows, hrows⟩ := hall _ _ _ _ load_brokenFiles _ _ r .restricted hscore
  cases hfails.symm.trans hrows

end Rendering

end ContestGrading
