import ContestGrading.Locale.Catalogs
import ContestGrading.Settings.Config
/-!
# Installations

A program that is installed finds its defaults and its catalogs among the
files, under paths of its own. The shipped documents can be laid over any
files, where an installation looks for them.

Results:
* `installedOver_other`: all other files stay as they are.
-/
namespace ContestGrading

structure Installation where
  /-- The document of the defaults. -/
  defaults : Text
  /-- The directory of the catalogs. -/
  catalogs : Text

namespace Installation

/-- Where the shipped documents are installed. -/
def shipped : Installation :=
  ⟨"/srv/contest-grading/config.json", "/srv/contest-grading/locales"⟩

/-- The catalog of simplified Chinese. -/
def shippedCatalog (home : Installation) : Text := Locale.catalogPath home.catalogs "zh_CN"

/-- These files, with the shipped documents where the program looks for them. -/
def installedOver (home : Installation) (files : Files) : Files := fun path =>
  if path = home.defaults then
    .content (Text.encode (Json.print 4 (.object Defaults.shippedMembers)))
  else if path = home.shippedCatalog then .content (Locale.catalogBytes Locale.simplifiedChinese)
  else files path

theorem installedOver_other (home : Installation) (files : Files) {path : Text}
    (h : path ≠ home.defaults) (h' : path ≠ home.shippedCatalog) :
    home.installedOver files path = files path := by
  rw [installedOver, if_neg h, if_neg h']

end Installation

end ContestGrading
