import ContestGrading.Locale.Basic
import ContestGrading.Document
import ContestGrading.Path
/-!
# Loading translations

A locale is named by two or three letters, alone or with a low line and
letters or digits behind. Its catalog is the document of that name in the
directory of catalogs; the default locale needs none, and no file is touched
for a name that is not well formed.

Results:
* `load_default`, `load_malformed`: where no file is touched.
-/
namespace ContestGrading

inductive LocaleError where
  | malformed (locale : Text)
  | unknown (locale : Text)
  | document (error : DocumentError)
  | notText (file message : Text)
  deriving DecidableEq

def LocaleError.message : LocaleError → Text
  | .malformed locale => ("Invalid locale identifier: " : Text) ++ locale
  | .unknown locale => ("Unknown locale: " : Text) ++ locale
  | .document error => error.message
  | .notText file message =>
    file ++ (": message \"" : Text) ++ message ++ ("\" is not a string" : Text)

namespace Locale

/-- Two or three letters, and then nothing or a low line and at least one
letter or digit. -/
def isName (locale : Text) : Bool :=
  let (language, rest) := locale.span Text.isLetter
  (language.length == 2 || language.length == 3) &&
    match rest with
    | [] => true
    | 95 :: region => !region.isEmpty && region.all fun u => Text.isLetter u || Text.isDigit u
    | _ => false

/-- The file of a catalog, in the directory of catalogs. -/
def catalogPath (directory locale : Text) : Text :=
  Path.join [directory, locale ++ (".json" : Text)]

/-- A key that a catalog cannot translate. -/
def reservedKey : Text := "__proto__"

/-- The messages of a catalog; every one has to be a text, and the entry
under the reserved key is dropped. -/
def messagesOf (file : Text) : Members Json → Except LocaleError (Members Text)
  | [] => .ok []
  | (key, .string value) :: rest =>
    (messagesOf file rest).map fun messages =>
      if key = reservedKey then messages else (key, value) :: messages
  | (key, _) :: _ => .error (.notText file key)

/-- The translation of a locale, from the catalogs in a directory. -/
def load (files : Files) (directory locale : Text) :
    Journal FileAccess LocaleError Translation :=
  if locale = Translation.default.identifier then .done .default
  else if !isName locale then .fail (.malformed locale)
  else
    let path := catalogPath directory locale
    if !(files path).isPresent then ⟨[.looked path], .error (.unknown locale)⟩
    else do
      .note (.looked path)
      let members ← (readObject files path).convert id .document
      let messages ← .ofExcept (messagesOf path members)
      return ⟨locale, messages⟩

theorem load_default (files : Files) (directory : Text) :
    load files directory Translation.default.identifier = .done .default := if_pos rfl

theorem load_malformed (files : Files) (directory : Text) {locale : Text}
    (hd : locale ≠ Translation.default.identifier) (h : isName locale = false) :
    load files directory locale = .fail (.malformed locale) := by
  simp [load, hd, h]

end Locale

end ContestGrading
