import ContestGrading.Grading.Rendering
import ContestGrading.Proofs.Grading.Arity
import ContestGrading.Proofs.Journal
import Mathlib.Data.List.Pairwise
/-!
# Which statuses are shown

A status is shown as its filled template or as the locale's `N/A`, with one
failure beside it. The failures are those of the steps in their order: the
status is no list, it has no template, the template does not ask for as many
arguments as there are, one of them is no argument, the template cannot be
filled. Of a status of a known failure only its guidance is filled, so that
nothing else in it matters.

Results:
* `guidance?_eq_some_iff`, `guidance?_eq_none_iff`: when there is guidance.
* `text_eq_ok_iff`, `text_eq_error_iff`: which statuses are shown, and which
  are not and why.
* `statusLine_conforms`: what is shown and what is noted, for any status.
-/
namespace ContestGrading

namespace Rendering

/-- Rendering a detail notes the failure of its status, and nothing else. -/
theorem notes_renderDetail (tr : Translation) (d : TestcaseDetail) :
    (renderDetail tr d).notes = (statusLine tr d.text).failure.toList := by
  have hquiet : ∀ text x, (measure text x).seen some = [] := by
    rintro text (- | x) <;> rfl
  calc (renderDetail tr d).notes
      = (renderDetail tr d).seen some := List.filterMap_some.symm
    _ = (.noteAll (statusLine tr d.text).failure.toList : Rendering Unit).seen some :=
        Journal.seen_andThen_of_quiet _ fun _ =>
          (Journal.seen_andThen_of_quiet _ fun _ =>
            (Journal.seen_andThen_of_quiet _ fun _ => rfl).trans (hquiet _ _)).trans (hquiet _ _)
    _ = (statusLine tr d.text).failure.toList := List.filterMap_some

end Rendering

namespace Status

open Template

variable {tr : Translation} {template : Text} {args : List Json} {status : Json}

/-! ## Known failures -/

/-- No known failure starts like another one. -/
theorem guidance_apart :
    guidance.Pairwise fun known other => ¬ (known.1 <+: other.1 ∨ other.1 <+: known.1) := by
  decide +kernel

theorem guidance_unique {known other : Text × Text} (hknown : known ∈ guidance)
    (hother : other ∈ guidance) (h : known.1 <+: template) (h' : other.1 <+: template) :
    known = other := by
  by_contra hne
  have hsymm : Std.Symm fun known other : Text × Text =>
      ¬ (known.1 <+: other.1 ∨ other.1 <+: known.1) := ⟨fun _ _ hapart hpre => hapart hpre.symm⟩
  exact guidance_apart.forall hknown hother hne (List.prefix_or_prefix_of_prefix h h')

theorem guidance?_eq_none_iff :
    guidance? template = none ↔ ∀ known ∈ guidance, ¬ known.1 <+: template := by
  simp [guidance?, List.find?_eq_none]

/-- The guidance is that of the one known failure that the template starts
like. -/
theorem guidance?_eq_some_iff {advice : Text} :
    guidance? template = some advice ↔
      ∃ known ∈ guidance, known.1 <+: template ∧ known.2 = advice := by
  have hfits : ∀ known, (guidance.find? fun g => g.1.isPrefixOf template) = some known →
      known ∈ guidance ∧ known.1 <+: template := fun known hfind =>
    ⟨List.mem_of_find?_eq_some hfind, by simpa using List.find?_some hfind⟩
  rw [guidance?, Option.map_eq_some_iff]
  constructor
  · rintro ⟨known, hfind, rfl⟩
    exact ⟨known, (hfits known hfind).1, (hfits known hfind).2, rfl⟩
  · rintro ⟨known, hknown, hpre, rfl⟩
    cases hfind : guidance.find? fun g => g.1.isPrefixOf template with
    | none =>
      exact absurd (List.isPrefixOf_iff_prefix.mpr hpre) (List.find?_eq_none.mp hfind known hknown)
    | some other =>
      obtain ⟨hother, hpre'⟩ := hfits other hfind
      exact ⟨other, rfl, congrArg Prod.snd (guidance_unique hother hknown hpre' hpre)⟩

/-! ## Arguments -/

theorem argument_eq_ok_iff {found : Json} {arg : Argument} :
    argument found = .ok arg ↔ found = arg.toJson := by
  cases found <;> cases arg <;> simp [argument, Argument.toJson]

theorem argument_eq_error_iff {found : Json} {e : StatusError} :
    argument found = .error e ↔
      (∀ arg : Argument, found ≠ arg.toJson) ∧ e = .badArgument found.kind := by
  constructor
  · intro h
    refine ⟨fun arg harg => ?_, ?_⟩
    · rw [argument_eq_ok_iff.mpr harg] at h
      cases h
    · cases found <;> cases h <;> rfl
  · rintro ⟨hnone, rfl⟩
    cases found with
    | number x => exact absurd rfl (hnone (.number x))
    | string t => exact absurd rfl (hnone (.text t))
    | _ => rfl

theorem forall_ne_toJson_iff {found : Json} :
    (∀ arg : Argument, found ≠ arg.toJson) ↔ (∀ t, found ≠ .string t) ∧ ∀ x, found ≠ .number x := by
  constructor
  · intro h
    exact ⟨fun t => h (.text t), fun x => h (.number x)⟩
  · rintro ⟨htext, hnumber⟩ (x | t)
    · exact hnumber x
    · exact htext t

theorem arguments_cons (found : Json) (rest : List Json) :
    arguments (found :: rest) =
      argument found >>= fun arg => (arguments rest).map (arg :: ·) := by
  rw [arguments]
  cases argument found with
  | error e => rfl
  | ok arg => cases arguments rest <;> rfl

theorem arguments_eq_ok_iff {as : List Argument} :
    arguments args = .ok as ↔ args = as.map Argument.toJson := by
  induction args generalizing as with
  | nil => cases as <;> simp [arguments]
  | cons found rest ih =>
    rw [arguments_cons, bind_eq_ok_iff]
    simp only [map_eq_ok_iff, argument_eq_ok_iff, ih]
    constructor
    · rintro ⟨arg, rfl, as, rfl, rfl⟩
      rfl
    · intro h
      cases as with
      | nil => cases h
      | cons arg as =>
        obtain ⟨hfound, hrest⟩ := List.cons.inj h
        exact ⟨arg, hfound, as, hrest, rfl⟩

/-- The first one that is no argument is reported. -/
theorem arguments_eq_error_iff {e : StatusError} :
    arguments args = .error e ↔
      ∃ (done : List Argument) (found : Json) (rest : List Json),
        args = done.map Argument.toJson ++ found :: rest ∧
        (∀ arg : Argument, found ≠ arg.toJson) ∧ e = .badArgument found.kind := by
  induction args with
  | nil => simp [arguments]
  | cons arg rest ih =>
    rw [arguments_cons, bind_eq_error_iff]
    simp only [map_eq_error_iff, argument_eq_error_iff, argument_eq_ok_iff, ih]
    constructor
    · rintro (⟨hnone, rfl⟩ | ⟨arg, rfl, done, found, rest, rfl, hnone, rfl⟩)
      · exact ⟨[], arg, rest, rfl, hnone, rfl⟩
      · exact ⟨arg :: done, found, rest, rfl, hnone, rfl⟩
    · rintro ⟨done, found, rest', h, hnone, rfl⟩
      cases done with
      | nil =>
        obtain ⟨rfl, rfl⟩ := List.cons.inj h
        exact .inl ⟨hnone, rfl⟩
      | cons a done =>
        obtain ⟨harg, hrest⟩ := List.cons.inj h
        exact .inr ⟨a, harg, done, found, rest', hrest, hnone, rfl⟩

/-! ## Templates and their arguments -/

/-- Why a template is not filled with these arguments. -/
inductive Unfillable (template : Text) : List Json → StatusError → Prop where
  | argumentCount {args : List Json} (h : countPlaceholders template ≠ args.length) :
    Unfillable template args (.argumentCount (countPlaceholders template) args.length)
  | badArgument {args : List Json} (hcount : countPlaceholders template = args.length)
    (done : List Argument) {found : Json} {rest : List Json}
    (hargs : args = done.map Argument.toJson ++ found :: rest)
    (hfound : ∀ arg : Argument, found ≠ arg.toJson) :
    Unfillable template args (.badArgument found.kind)
  | template {as : List Argument} (hcount : countPlaceholders template = as.length)
    {e : TemplateError} (h : format template as = .error e) :
    Unfillable template (as.map Argument.toJson) (.template e)

theorem fillTemplate_of_count (h : countPlaceholders template = args.length) :
    fillTemplate template args =
      arguments args >>= fun as => (format template as).mapError .template :=
  if_neg (not_not.mpr h)

theorem fillTemplate_eq_ok_iff {t : Text} :
    fillTemplate template args = .ok t ↔
      ∃ as : List Argument, args = as.map Argument.toJson ∧
        countPlaceholders template = as.length ∧ format template as = .ok t := by
  by_cases hcount : countPlaceholders template = args.length
  · rw [fillTemplate_of_count hcount, bind_eq_ok_iff]
    simp only [arguments_eq_ok_iff, mapError_eq_ok_iff]
    constructor
    · rintro ⟨as, rfl, h⟩
      exact ⟨as, rfl, by rw [hcount, List.length_map], h⟩
    · rintro ⟨as, rfl, -, h⟩
      exact ⟨as, rfl, h⟩
  · constructor
    · intro h
      rw [fillTemplate, if_pos hcount] at h
      cases h
    · rintro ⟨as, rfl, hcount', -⟩
      rw [List.length_map] at hcount
      exact absurd hcount' hcount

theorem fillTemplate_eq_error_iff {e : StatusError} :
    fillTemplate template args = .error e ↔ Unfillable template args e := by
  constructor
  · intro h
    by_cases hcount : countPlaceholders template = args.length
    · rw [fillTemplate_of_count hcount, bind_eq_error_iff] at h
      rcases h with h | ⟨as, has, h⟩
      · obtain ⟨done, found, rest, hargs, hfound, rfl⟩ := arguments_eq_error_iff.mp h
        exact .badArgument hcount done hargs hfound
      · obtain rfl := arguments_eq_ok_iff.mp has
        rw [List.length_map] at hcount
        cases hf : format template as with
        | ok t =>
          rw [hf] at h
          cases h
        | error e' =>
          rw [hf] at h
          cases h
          exact .template hcount hf
    · rw [fillTemplate, if_pos hcount] at h
      cases h
      exact .argumentCount hcount
  · intro h
    cases h with
    | argumentCount hcount => exact if_pos hcount
    | badArgument hcount done hargs hfound =>
      rw [fillTemplate_of_count hcount, bind_eq_error_iff]
      exact .inl (arguments_eq_error_iff.mpr ⟨done, _, _, hargs, hfound, rfl⟩)
    | @template as hcount e hf =>
      rw [fillTemplate_of_count (by rw [hcount, List.length_map]), bind_eq_error_iff]
      refine .inr ⟨as, arguments_eq_ok_iff.mpr rfl, ?_⟩
      rw [hf]
      rfl

/-- What keeps a template from being filled, whichever is found first. -/
theorem exists_unfillable_iff :
    (∃ e, Unfillable template args e) ↔
      countPlaceholders template ≠ args.length ∨
      (∃ found ∈ args, ∀ arg : Argument, found ≠ arg.toJson) ∨
      ∃ as e, args = as.map Argument.toJson ∧ format template as = .error e := by
  constructor
  · rintro ⟨e, h⟩
    cases h with
    | argumentCount hcount => exact .inl hcount
    | badArgument _ done hargs hfound =>
      exact .inr (.inl ⟨_, hargs ▸ List.mem_append_right _ (List.mem_cons_self ..), hfound⟩)
    | template _ hf => exact .inr (.inr ⟨_, _, rfl, hf⟩)
  · intro h
    cases hfill : fillTemplate template args with
    | error e => exact ⟨e, fillTemplate_eq_error_iff.mp hfill⟩
    | ok t =>
      obtain ⟨as, rfl, hcount, hformat⟩ := fillTemplate_eq_ok_iff.mp hfill
      rcases h with hcount' | ⟨found, hfound, hnone⟩ | ⟨as', e, has', hformat'⟩
      · exact absurd hcount (by rwa [List.length_map] at hcount')
      · obtain ⟨arg, -, rfl⟩ := List.mem_map.mp hfound
        exact absurd rfl (hnone arg)
      · have hsame : as = as' :=
          Except.ok.inj ((arguments_eq_ok_iff.mpr rfl).symm.trans (arguments_eq_ok_iff.mpr has'))
        rw [hsame, hformat'] at hformat
        cases hformat

/-! ## Statuses -/

/-- Why a status is not shown. -/
inductive Malformed (tr : Translation) : Json → StatusError → Prop where
  | notAList {found : Json} (h : ∀ items, found ≠ .list items) :
    Malformed tr found (.notAList found.kind)
  | badTemplate {items : List Json} (h : ∀ t, items.head? ≠ some (.string t)) :
    Malformed tr (.list items) (.badTemplate items.head?)
  | unfillable {template : Text} {args : List Json} {e : StatusError}
    (h : Unfillable (filling tr template args).1 (filling tr template args).2 e) :
    Malformed tr (.list (.string template :: args)) e

/-- The status is a template and its arguments, and this is its filled text. -/
def Filled (tr : Translation) (status : Json) (t : Text) : Prop :=
  ∃ template args as, status = .list (.string template :: args) ∧
    (filling tr template args).2 = as.map Argument.toJson ∧
    countPlaceholders (filling tr template args).1 = as.length ∧
    format (filling tr template args).1 as = .ok t

theorem text_list {items : List Json} (h : ∀ t, items.head? ≠ some (.string t)) :
    text tr (.list items) = .error (.badTemplate items.head?) := by
  cases items with
  | nil => rfl
  | cons found rest =>
    cases found with
    | string t => exact absurd rfl (h t)
    | _ => rfl

theorem text_of_not_list (h : ∀ items, status ≠ .list items) :
    text tr status = .error (.notAList status.kind) := by
  cases status with
  | list items => exact absurd rfl (h items)
  | _ => rfl

/-- A status is no list, has no template, or is one with its arguments. -/
theorem status_cases (status : Json) :
    (∀ items, status ≠ .list items) ∨
      (∃ items, status = .list items ∧ ∀ t, items.head? ≠ some (.string t)) ∨
      ∃ template args, status = .list (.string template :: args) := by
  cases status with
  | list items =>
    rcases items with - | ⟨⟨⟩ | ⟨b⟩ | ⟨x⟩ | ⟨t⟩ | ⟨items⟩ | ⟨members⟩, args⟩
    case cons.string => exact .inr (.inr ⟨t, args, rfl⟩)
    all_goals exact .inr (.inl ⟨_, rfl, nofun⟩)
  | _ => exact .inl nofun

theorem text_eq_ok_iff {t : Text} : text tr status = .ok t ↔ Filled tr status t := by
  constructor
  · intro h
    rcases status_cases status with hno | ⟨items, rfl, hno⟩ | ⟨template, args, rfl⟩
    · rw [text_of_not_list hno] at h
      cases h
    · rw [text_list hno] at h
      cases h
    · rw [text_eq_fillTemplate, fillTemplate_eq_ok_iff] at h
      obtain ⟨as, hargs, hcount, hformat⟩ := h
      exact ⟨template, args, as, rfl, hargs, hcount, hformat⟩
  · rintro ⟨template, args, as, rfl, hargs, hcount, hformat⟩
    rw [text_eq_fillTemplate, fillTemplate_eq_ok_iff]
    exact ⟨as, hargs, hcount, hformat⟩

theorem text_eq_error_iff {e : StatusError} :
    text tr status = .error e ↔ Malformed tr status e := by
  constructor
  · intro h
    rcases status_cases status with hno | ⟨items, rfl, hno⟩ | ⟨template, args, rfl⟩
    · rw [text_of_not_list hno] at h
      cases h
      exact .notAList hno
    · rw [text_list hno] at h
      cases h
      exact .badTemplate hno
    · rw [text_eq_fillTemplate, fillTemplate_eq_error_iff] at h
      exact .unfillable h
  · intro h
    cases h with
    | notAList hno => exact text_of_not_list hno
    | badTemplate hno => exact text_list hno
    | unfillable h =>
      rw [text_eq_fillTemplate]
      exact fillTemplate_eq_error_iff.mpr h

/-- The status is a list whose first element starts like a known failure. -/
def IsKnown (status : Json) : Prop :=
  ∃ known ∈ guidance, ∃ template args,
    status = .list (.string template :: args) ∧ known.1 <+: template

theorem text_of_known {known : Text × Text} (hknown : known ∈ guidance)
    (h : known.1 <+: template) :
    text tr (.list (.string template :: args)) = fillTemplate (tr.gettext known.2) [] := by
  rw [text, guidance?_eq_some_iff.mpr ⟨known, hknown, h, rfl⟩]

/-- A status is its own filling unless it is a known failure. -/
theorem filling_of_not_known (h : ¬ IsKnown (.list (.string template :: args))) :
    filling tr template args = (tr.gettext template, args) := by
  have hnone : guidance? template = none := guidance?_eq_none_iff.mpr fun known hknown hpre =>
    h ⟨known, hknown, template, args, rfl, hpre⟩
  rw [filling, hnone]

/-- What keeps a status that is no known failure from being shown, without
regard to which failure is found first. -/
theorem exists_malformed_iff (h : ¬ IsKnown status) :
    (∃ e, Malformed tr status e) ↔
      (∀ items, status ≠ .list items) ∨
      (∃ items, status = .list items ∧ ∀ t, items.head? ≠ some (.string t)) ∨
      ∃ template args, status = .list (.string template :: args) ∧
        (countPlaceholders (tr.gettext template) ≠ args.length ∨
          (∃ found ∈ args, (∀ t, found ≠ .string t) ∧ ∀ x, found ≠ .number x) ∨
          ∃ as e, args = as.map Argument.toJson ∧
            format (tr.gettext template) as = .error e) := by
  simp only [← forall_ne_toJson_iff, ← exists_unfillable_iff]
  constructor
  · rintro ⟨e, hno | hno | @⟨template, args, e, hunfillable⟩⟩
    · exact .inl hno
    · exact .inr (.inl ⟨_, rfl, hno⟩)
    · rw [filling_of_not_known h] at hunfillable
      exact .inr (.inr ⟨template, args, rfl, e, hunfillable⟩)
  · rintro (hno | ⟨items, rfl, hno⟩ | ⟨template, args, rfl, e, hunfillable⟩)
    · exact ⟨_, .notAList hno⟩
    · exact ⟨_, .badTemplate hno⟩
    · refine ⟨e, .unfillable ?_⟩
      rw [filling_of_not_known h]
      exact hunfillable

/-- The line of an outcome: its text, or the locale's `N/A` and the failure. -/
def lineOf (tr : Translation) : Except StatusError Text → StatusLine
  | .ok text => ⟨text, none⟩
  | .error error => ⟨tr.gettext "N/A", some error⟩

theorem statusLine_eq_lineOf (tr : Translation) (status : Json) :
    statusLine tr status = lineOf tr (text tr status) := by
  rw [statusLine]
  cases text tr status <;> rfl

/-- **What is shown and what is noted.** For any status in any translation:

* it is shown as its filled text, without a failure, or as the locale's `N/A`
  with the one failure that is found first; where its detail is rendered,
  that failure is noted and nothing else;
* if it starts like a known failure, its line is that of the guidance, a
  matter of that failure and the translation alone;
* else there is a failure exactly if it is no list, or has no template, or
  its template asks for another number of arguments, or one of them is
  neither a text nor a number, or the template cannot be filled with them. -/
theorem statusLine_conforms (tr : Translation) :
    (∀ status,
      (∃ t, Filled tr status t ∧ statusLine tr status = ⟨t, none⟩) ∨
        ∃ e, Malformed tr status e ∧ statusLine tr status = ⟨tr.gettext "N/A", some e⟩) ∧
    (∀ d, (Rendering.renderDetail tr d).notes = (statusLine tr d.text).failure.toList) ∧
    (∀ known ∈ guidance, ∀ template args, known.1 <+: template →
      statusLine tr (.list (.string template :: args)) =
        lineOf tr (fillTemplate (tr.gettext known.2) [])) ∧
    (∀ status, ¬ IsKnown status →
      ((statusLine tr status).failure.isSome ↔
        (∀ items, status ≠ .list items) ∨
        (∃ items, status = .list items ∧ ∀ t, items.head? ≠ some (.string t)) ∨
        ∃ template args, status = .list (.string template :: args) ∧
          (countPlaceholders (tr.gettext template) ≠ args.length ∨
            (∃ found ∈ args, (∀ t, found ≠ .string t) ∧ ∀ x, found ≠ .number x) ∨
            ∃ as e, args = as.map Argument.toJson ∧
              format (tr.gettext template) as = .error e))) := by
  refine ⟨fun status => ?_, Rendering.notes_renderDetail tr, ?_, fun status hstatus => ?_⟩
  · cases h : text tr status with
    | ok t => exact .inl ⟨t, text_eq_ok_iff.mp h, statusLine_ok h⟩
    | error e => exact .inr ⟨e, text_eq_error_iff.mp h, statusLine_error h⟩
  · intro known hknown template args hpre
    rw [statusLine_eq_lineOf, text_of_known hknown hpre]
  · rw [← exists_malformed_iff hstatus]
    cases h : text tr status with
    | ok t =>
      rw [statusLine_ok h]
      refine iff_of_false Bool.false_ne_true ?_
      rintro ⟨e, he⟩
      cases h.symm.trans (text_eq_error_iff.mpr he)
    | error e =>
      rw [statusLine_error h]
      exact iff_of_true rfl ⟨e, text_eq_error_iff.mp h⟩

end Status

end ContestGrading
