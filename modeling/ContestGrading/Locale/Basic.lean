import ContestGrading.Json.Basic
/-!
# Translations

A translation has an identifier and a catalog of messages. A message without
an entry stands for itself, and the empty message, which catalogs keep for
their header, is never looked up.

Results:
* `gettext_nil`: the empty message translates to itself.
* `gettext_default`: the default translation changes nothing.
-/
namespace ContestGrading

structure Translation where
  identifier : Text
  messages : Members Text

namespace Translation

/-- The default translation: every message as it is. -/
def default : Translation := ⟨"en", []⟩

instance : Inhabited Translation := ⟨default⟩

/-- The message in the language of the translation. -/
def gettext (tr : Translation) (message : Text) : Text :=
  if message.isEmpty then [] else (tr.messages.get? message).getD message

theorem gettext_nil (tr : Translation) : tr.gettext [] = [] := rfl

theorem gettext_default (message : Text) : default.gettext message = message := by
  cases message <;> rfl

end Translation

end ContestGrading
