import ContestGrading.Proofs.Grading.StatusLine
import ContestGrading.Proofs.Template.Escaping
/-!
# Texts inserted into a status

A status whose template is literal text with a placeholder between each two
literals shows its arguments as they are, in their order. Nothing in them is
read: neither a percent sign nor a placeholder nor the start of a known
failure.

Results:
* `fillTemplate_texts`, `fillTemplate_texts_of_ne`: as many texts as
  placeholders, and any other number.
* `texts_verbatim`: the line of such a status.
-/
namespace ContestGrading.Status

open Template

variable (first : Text) {texts rest : List Text}

theorem map_string_eq (texts : List Text) :
    texts.map Json.string = (texts.map Argument.text).map Argument.toJson := by
  rw [List.map_map]
  rfl

theorem fillTemplate_texts (h : texts.length = rest.length) :
    fillTemplate (textTemplate first rest) (texts.map .string) =
      .ok (interleave first texts rest) := by
  rw [fillTemplate_eq_ok_iff]
  refine ⟨texts.map .text, map_string_eq texts, ?_, format_textTemplate first h⟩
  rw [countPlaceholders_textTemplate, List.length_map, h]

theorem fillTemplate_texts_of_ne (h : texts.length ≠ rest.length) :
    fillTemplate (textTemplate first rest) (texts.map .string) =
      .error (.argumentCount rest.length texts.length) := by
  have hcount : countPlaceholders (textTemplate first rest) ≠ (texts.map Json.string).length := by
    rw [countPlaceholders_textTemplate, List.length_map]
    exact h.symm
  have herror := fillTemplate_eq_error_iff.mpr (Unfillable.argumentCount hcount)
  rwa [countPlaceholders_textTemplate, List.length_map] at herror

/-- **Texts as they are.** A template of literal texts that does not start
like a known failure shows as many texts as there are placeholders between
the literals, each in its place and as it is; with any other number of texts
the status is refused. -/
theorem texts_verbatim (rest : List Text)
    (h : ∀ known ∈ guidance, ¬ known.1 <+: textTemplate first rest) :
    (∀ texts : List Text, texts.length = rest.length →
      statusLine .default (.list (.string (textTemplate first rest) :: texts.map .string)) =
        ⟨interleave first texts rest, none⟩) ∧
    (∀ texts : List Text, texts.length ≠ rest.length →
      statusLine .default (.list (.string (textTemplate first rest) :: texts.map .string)) =
        ⟨"N/A", some (.argumentCount rest.length texts.length)⟩) := by
  have hfilling : ∀ texts : List Text,
      text .default (.list (.string (textTemplate first rest) :: texts.map .string)) =
        fillTemplate (textTemplate first rest) (texts.map .string) := fun texts => by
    rw [text, guidance?_eq_none_iff.mpr h, Translation.gettext_default]
  constructor
  · intro texts hlength
    exact statusLine_ok ((hfilling texts).trans (fillTemplate_texts first hlength))
  · intro texts hlength
    rw [statusLine_error ((hfilling texts).trans (fillTemplate_texts_of_ne first hlength)),
      Translation.gettext_default]

/-- Percent signs on both sides of every placeholder, and arguments that look
like placeholders and like a known failure. -/
theorem texts_verbatim_percents :
    (∀ known ∈ guidance, ¬ known.1 <+: textTemplate "100%" ["% s%", "d%s", ""]) ∧
    textTemplate "100%" ["% s%", "d%s", ""] = "100%%%s%% s%%%sd%%s%s" ∧
    statusLine .default (.list [.string "100%%%s%% s%%%sd%%s%s", .string "%s",
      .string "Execution timed out", .string "%1$d%"]) =
        ⟨"100%%s% s%Execution timed outd%s%1$d%", none⟩ := by
  have h : ∀ known ∈ guidance, ¬ known.1 <+: textTemplate "100%" ["% s%", "d%s", ""] := by
    decide +kernel
  have htemplate : textTemplate "100%" ["% s%", "d%s", ""] = "100%%%s%% s%%%sd%%s%s" := by
    decide +kernel
  have hline := (texts_verbatim "100%" _ h).1 ["%s", "Execution timed out", "%1$d%"] rfl
  rw [htemplate] at hline
  exact ⟨h, htemplate, hline⟩

end ContestGrading.Status
