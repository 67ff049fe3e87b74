import ContestGrading.Locale.Catalogs
import ContestGrading.Locale.Measure
import ContestGrading.Proofs.Journal
import ContestGrading.Proofs.Template.Numbers
import ContestGrading.Proofs.Text.Utf8
/-!
# Translations of the messages for numbers

Seven messages are filled with a number: the title of a subtask, a duration
and a size in each of its units. Whether any number fits their translations
can be decided, and in the locales that come with the program it does.

Results:
* `fitsNumbers_default`: the messages themselves.
* `fitsNumbers_of_load_shipped`: every locale that can be loaded.
-/
namespace ContestGrading

namespace Size

/-- The message for a size in a unit. -/
def Unit.message (unit : Unit) : Text := ("%s " : Text) ++ unit.symbol

def units : List Unit := [.byte, .kibibyte, .mebibyte, .gibibyte, .tebibyte]

theorem mem_units (unit : Unit) : unit ∈ units := by
  cases unit <;> decide

end Size

namespace Translation

def titleMessage : Text := "Subtask %d"

def durationMessage : Text := "%.3f s"

/-- The messages that are filled with numbers. -/
def numberMessages : List Text :=
  titleMessage :: durationMessage :: Size.units.map Size.Unit.message

/-- Any number fits the translations of these messages. -/
def fitsNumbers (tr : Translation) : Bool :=
  numberMessages.all fun message => Template.isFilledByNumbers (tr.gettext message)

theorem fitsNumbers_default : fitsNumbers .default = true := by decide +kernel

end Translation

namespace Locale

/-- The messages of the catalog that is shipped. -/
def shippedMessages : Except LocaleError (Members Text) := do
  let members ← (objectOfBytes shippedCatalog (catalogBytes simplifiedChinese)).mapError .document
  messagesOf shippedCatalog members

theorem fitsNumbers_shippedMessages :
    shippedMessages.map (fun messages => Translation.fitsNumbers ⟨[], messages⟩) = .ok true := by
  -- literals are taken apart before anything is computed with them
  simp only [shippedMessages, catalogBytes, Text.encode_eq, simplifiedChinese, List.map_cons,
    List.map_nil, Text.ofString_append]
  repeat rw [Text.ofString_ofList]
  decide +kernel

/-- Nothing but the shipped catalog is found. -/
theorem eq_shippedCatalog_of_isPresent {path : Text} (h : (shippedFiles path).isPresent = true) :
    path = shippedCatalog := by
  by_contra hne
  rw [shippedFiles_other hne] at h
  cases h

theorem readObject_shippedCatalog :
    (readObject shippedFiles shippedCatalog).outcome =
      objectOfBytes shippedCatalog (catalogBytes simplifiedChinese) := by
  have hnul : shippedCatalog.contains 0 = false := by decide +kernel
  have hfile : shippedFiles shippedCatalog = .content (catalogBytes simplifiedChinese) := if_pos rfl
  rw [readObject, if_neg (by rw [hnul]; exact Bool.false_ne_true), hfile, objectOfEntry]

/-- What a locale that can be loaded has as messages: none of its own, or
those of its catalog. -/
theorem load_eq_ok {files : Files} {directory locale : Text} {tr : Translation}
    (h : (load files directory locale).outcome = .ok tr) :
    tr = .default ∨
      (files (catalogPath directory locale)).isPresent = true ∧ ∃ members messages,
        (readObject files (catalogPath directory locale)).outcome = .ok members ∧
        messagesOf (catalogPath directory locale) members = .ok messages ∧
        tr = ⟨locale, messages⟩ := by
  unfold load at h
  split at h
  next =>
    cases h
    exact .inl rfl
  next =>
    split at h
    next => cases h
    next =>
      dsimp only at h
      split at h
      next => cases h
      next hpresent =>
        obtain ⟨-, -, h⟩ := Journal.outcome_andThen_ok h
        obtain ⟨members, hmembers, h⟩ := Journal.outcome_andThen_ok h
        obtain ⟨messages, hmessages, h⟩ := Journal.outcome_andThen_ok h
        cases h
        exact .inr ⟨by simpa using hpresent, members, messages,
          Journal.outcome_convert_ok.mp hmembers, hmessages, rfl⟩

/-- Any number fits the messages of a locale that comes with the program. -/
theorem fitsNumbers_of_load_shipped {locale : Text} {tr : Translation}
    (h : (load shippedFiles shippedDirectory locale).outcome = .ok tr) : tr.fitsNumbers = true := by
  rcases load_eq_ok h with rfl | ⟨hpresent, members, messages, hmembers, hmessages, rfl⟩
  · exact Translation.fitsNumbers_default
  · rw [eq_shippedCatalog_of_isPresent hpresent] at hmembers hmessages
    rw [readObject_shippedCatalog] at hmembers
    have hshipped : shippedMessages = .ok messages := by
      rw [shippedMessages, hmembers]
      exact hmessages
    have hfits := fitsNumbers_shippedMessages
    rw [hshipped] at hfits
    exact Except.ok.inj hfits

end Locale

end ContestGrading
