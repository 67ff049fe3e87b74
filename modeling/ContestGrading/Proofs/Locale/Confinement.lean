import ContestGrading.Locale.Loading
import ContestGrading.Proofs.Journal
import ContestGrading.Proofs.Path
import Mathlib.Data.List.TakeDrop
/-!
# The one file of a locale

The name of a locale has letters, digits and low lines only, so the file it
names is in the directory of catalogs whatever the name and the directory
are, and no other file is looked for or read. A name that is not well formed
touches no file at all, and neither does the default.

Results:
* `isName_iff`: which names are well formed.
* `catalogPath_eq`, `locate_catalogPath`: the file of a well-formed name.
* `load_confined`: what loading a locale touches.
-/
namespace ContestGrading

namespace Locale

/-! ## Names -/

/-- Two or three ASCII letters, and behind them nothing or a low line and at
least one ASCII letter or digit. -/
def NamesLocale (locale : Text) : Prop :=
  ∃ language region : Text, locale = language ++ region ∧
    (language.length = 2 ∨ language.length = 3) ∧ (∀ u ∈ language, Text.isLetter u = true) ∧
    (region = [] ∨ ∃ code : Text, region = 95 :: code ∧ code ≠ [] ∧
      ∀ u ∈ code, Text.isLetter u = true ∨ Text.isDigit u = true)

/-- What may stand behind the letters of a name. -/
def isRegion : Text → Bool
  | [] => true
  | 95 :: code => !code.isEmpty && code.all fun u => Text.isLetter u || Text.isDigit u
  | _ => false

theorem isRegion_iff (region : Text) :
    isRegion region = true ↔ region = [] ∨ ∃ code : Text, region = 95 :: code ∧ code ≠ [] ∧
      ∀ u ∈ code, Text.isLetter u = true ∨ Text.isDigit u = true := by
  unfold isRegion
  split
  next => simp
  next code => simp
  next hnil hlow =>
    refine iff_of_false Bool.false_ne_true ?_
    rintro (rfl | ⟨code, rfl, -⟩)
    · exact hnil rfl
    · exact hlow code rfl

theorem isName_eq (locale : Text) :
    isName locale = (((locale.takeWhile Text.isLetter).length == 2 ||
      (locale.takeWhile Text.isLetter).length == 3) &&
        isRegion (locale.dropWhile Text.isLetter)) := by
  rw [isName, List.span_eq_takeWhile_dropWhile]
  rfl

theorem isName_iff (locale : Text) : isName locale = true ↔ NamesLocale locale := by
  rw [isName_eq, Bool.and_eq_true, isRegion_iff, Bool.or_eq_true, beq_iff_eq, beq_iff_eq]
  constructor
  · rintro ⟨hlength, hregion⟩
    exact ⟨_, _, (List.takeWhile_append_dropWhile ..).symm, hlength,
      List.all_eq_true.mp List.all_takeWhile, hregion⟩
  · rintro ⟨language, region, rfl, hlength, hletters, hregion⟩
    -- the letters end where the region begins
    have htake : region.takeWhile Text.isLetter = [] ∧ region.dropWhile Text.isLetter = region := by
      rcases hregion with rfl | ⟨code, rfl, -⟩
      · exact ⟨rfl, rfl⟩
      · exact ⟨rfl, rfl⟩
    rw [List.takeWhile_append_of_pos hletters, List.dropWhile_append_of_pos hletters, htake.1,
      htake.2, List.append_nil]
    exact ⟨hlength, hregion⟩

def isNameUnit (u : UInt16) : Bool := (Text.isLetter u || Text.isDigit u) || u == 95

/-- A name has letters, digits and low lines only. -/
theorem isNameUnit_of_mem {locale : Text} (h : NamesLocale locale) {u : UInt16} (hu : u ∈ locale) :
    isNameUnit u = true := by
  obtain ⟨language, region, rfl, -, hletters, hregion⟩ := h
  rcases List.mem_append.mp hu with hu | hu
  · rw [isNameUnit, hletters u hu, Bool.true_or, Bool.true_or]
  · rcases hregion with rfl | ⟨code, rfl, -, hcode⟩
    · exact absurd hu List.not_mem_nil
    · rcases List.mem_cons.mp hu with rfl | hu
      · rfl
      · rw [isNameUnit, Bool.or_eq_true_iff.mpr (hcode u hu), Bool.true_or]

/-- The slashes, the dot, the NUL and the ends of a line. -/
def foreignUnits : Text := [47, 92, 46, 0, 10, 13, 0x2028, 0x2029]

theorem notMem_of_foreign {locale : Text} (h : NamesLocale locale) {u : UInt16}
    (hu : u ∈ foreignUnits) : u ∉ locale := by
  intro hmem
  have hforeign : foreignUnits.all (fun u => !isNameUnit u) = true := by decide
  simpa [isNameUnit_of_mem h hmem] using List.all_eq_true.mp hforeign u hu

/-! ## The file of a name -/

/-- The name of the file of a catalog. -/
def fileName (locale : Text) : Text := locale ++ (".json" : Text)

theorem isOrdinary_fileName {locale : Text} (h : NamesLocale locale) :
    Path.isOrdinary (fileName locale) = true := by
  have hlength : 5 ≤ (fileName locale).length := by
    rw [fileName, List.length_append]
    exact Nat.le_add_left _ _
  have hother : ∀ {name : Text}, name.length < 5 → fileName locale ≠ name := by
    rintro _ hshort rfl
    omega
  refine Path.isOrdinary_iff.mpr ⟨?_, ?_, ?_⟩
  · simp only [Path.staysAt, Bool.or_eq_false_iff, List.isEmpty_eq_false_iff, beq_eq_false_iff_ne]
    exact ⟨hother (by decide), hother (by decide)⟩
  · simpa [Path.goesUp] using hother (by decide : (Text.ofString "..").length < 5)
  · rw [fileName, List.mem_append, not_or]
    exact ⟨notMem_of_foreign h (by decide), by decide⟩

theorem locate_catalogPath {locale : Text} (directory : Text) (h : NamesLocale locale) :
    Path.locate (catalogPath directory locale) = (Path.locate directory).child (fileName locale) :=
  Path.locate_join (isOrdinary_fileName h)

theorem catalogPath_eq {locale : Text} (directory : Text) (h : NamesLocale locale) :
    catalogPath directory locale = (Path.locate directory).folder ++ fileName locale :=
  Path.join_eq (isOrdinary_fileName h)

/-! ## What is touched -/

section Touched

variable (files : Files) (directory : Text) {locale : Text}

theorem load_of_missing (hdefault : locale ≠ Translation.default.identifier)
    (hname : isName locale = true)
    (hfile : (files (catalogPath directory locale)).isPresent = false) :
    load files directory locale =
      ⟨[.looked (catalogPath directory locale)], .error (.unknown locale)⟩ := by
  simp [load, hdefault, hname, hfile]

theorem notes_load_of_present (hdefault : locale ≠ Translation.default.identifier)
    (hname : isName locale = true)
    (hfile : (files (catalogPath directory locale)).isPresent = true) :
    (load files directory locale).notes =
      .looked (catalogPath directory locale) ::
        (readObject files (catalogPath directory locale)).notes := by
  simp only [load, if_neg hdefault, hname, hfile, Bool.not_true, if_neg Bool.false_ne_true,
    Journal.bind_eq]
  rw [Journal.notes_andThen_ok rfl, Journal.notes_andThen_of_quiet _ fun members => ?_]
  · simp [Journal.note, Journal.convert]
  · rw [Journal.notes_andThen_of_quiet _ fun _ => rfl]
    rfl

theorem readObject_notes_subset {path : Text} {access : FileAccess}
    (h : access ∈ (readObject files path).notes) : access = .read path := by
  rw [readObject] at h
  split at h
  · exact absurd h List.not_mem_nil
  · exact List.mem_singleton.mp h

/-- Loading looks at the file of the catalog and reads no other. -/
theorem mem_notes_load (hdefault : locale ≠ Translation.default.identifier)
    (hname : isName locale = true) :
    .looked (catalogPath directory locale) ∈ (load files directory locale).notes ∧
      ∀ access ∈ (load files directory locale).notes,
        access = .looked (catalogPath directory locale) ∨
          access = .read (catalogPath directory locale) := by
  cases hfile : (files (catalogPath directory locale)).isPresent with
  | false =>
    rw [load_of_missing files directory hdefault hname hfile]
    exact ⟨List.mem_singleton_self _, fun access h => .inl (List.mem_singleton.mp h)⟩
  | true =>
    rw [notes_load_of_present files directory hdefault hname hfile]
    refine ⟨List.mem_cons_self .., fun access h => ?_⟩
    rcases List.mem_cons.mp h with rfl | h
    · exact .inl rfl
    · exact .inr (readObject_notes_subset files h)

/-- What else there is among the files makes no difference. -/
theorem load_congr {others : Files}
    (h : others (catalogPath directory locale) = files (catalogPath directory locale)) :
    load others directory locale = load files directory locale := by
  simp only [load, readObject, h]

end Touched

/-- A locale reaches no file but that of its name in the directory of
catalogs, and one that is not well named or needs no catalog reaches none. -/
theorem load_confined (files : Files) (directory locale : Text) :
    let path := catalogPath directory locale
    let journal := load files directory locale
    (locale = ("en" : Text) → journal = .done .default) ∧
    (locale ≠ ("en" : Text) → ¬NamesLocale locale →
      journal = .fail (.malformed locale) ∧
        (LocaleError.malformed locale).message = ("Invalid locale identifier: " : Text) ++ locale) ∧
    (locale ≠ ("en" : Text) ∧ NamesLocale locale ↔ journal.notes ≠ []) ∧
    (∀ access ∈ journal.notes, access = .looked path ∨ access = .read path) ∧
    (∀ others : Files, others path = files path → load others directory locale = journal) ∧
    (NamesLocale locale →
      (∀ u ∈ foreignUnits, u ∉ locale) ∧
      path = (Path.locate directory).folder ++ (locale ++ (".json" : Text)) ∧
      Path.locate path = (Path.locate directory).child (locale ++ (".json" : Text))) := by
  intro path journal
  have hdefault : locale = ("en" : Text) → journal = .done .default := by
    rintro rfl
    exact load_default files directory
  have hmalformed : locale ≠ ("en" : Text) → ¬NamesLocale locale →
      journal = .fail (.malformed locale) := fun hne hnot =>
    load_malformed files directory hne (by rwa [← Bool.not_eq_true, isName_iff])
  have hnamed : NamesLocale locale →
      (∀ u ∈ foreignUnits, u ∉ locale) ∧
      path = (Path.locate directory).folder ++ (locale ++ (".json" : Text)) ∧
      Path.locate path = (Path.locate directory).child (locale ++ (".json" : Text)) := fun h =>
    ⟨fun _ => notMem_of_foreign h, catalogPath_eq directory h, locate_catalogPath directory h⟩
  refine ⟨hdefault, fun hne hnot => ⟨hmalformed hne hnot, rfl⟩, ?_, ?_,
    fun others => load_congr files directory, hnamed⟩
  · constructor
    · rintro ⟨hne, hname⟩
      exact List.ne_nil_of_mem (mem_notes_load files directory hne ((isName_iff _).mpr hname)).1
    · intro hnotes
      have hne : locale ≠ ("en" : Text) := fun e => hnotes (by rw [hdefault e]; rfl)
      refine ⟨hne, by_contra fun hnot => hnotes ?_⟩
      rw [hmalformed hne hnot]
      rfl
  · intro access haccess
    by_cases hne : locale = ("en" : Text)
    · rw [hdefault hne] at haccess
      exact absurd haccess List.not_mem_nil
    · by_cases hname : NamesLocale locale
      · exact (mem_notes_load files directory hne ((isName_iff _).mpr hname)).2 access haccess
      · rw [hmalformed hne hname] at haccess
        exact absurd haccess List.not_mem_nil


/-- The law for a directory that is written the long way, where there are no
files: a name that is well formed, and the same name with a line end. -/
theorem load_confined_of_long_way :
    NamesLocale ("zh_CN" : Text) ∧ ¬NamesLocale ("zh_CN\n" : Text) ∧
      catalogPath ("a/.././b//" : Text) ("zh_CN" : Text) = ("b/zh_CN.json" : Text) ∧
      (load (fun _ => .missing) ("a/.././b//" : Text) ("zh_CN" : Text)).notes ≠ [] ∧
      load (fun _ => .missing) ("a/.././b//" : Text) ("zh_CN\n" : Text) =
        .fail (.malformed ("zh_CN\n" : Text)) := by
  have hname : NamesLocale ("zh_CN" : Text) := (isName_iff _).mp (by decide)
  have hother : ¬NamesLocale ("zh_CN\n" : Text) :=
    (isName_iff _).not.mp (by decide)
  obtain ⟨-, -, htouched, -, -, hpath⟩ := load_confined (fun _ => .missing) "a/.././b//" "zh_CN"
  obtain ⟨-, hmalformed, -⟩ := load_confined (fun _ => .missing) "a/.././b//" "zh_CN\n"
  have hfolder : (Path.locate ("a/.././b//" : Text)).folder = ("b/" : Text) := by decide
  refine ⟨hname, hother, ?_, htouched.mp ⟨by decide, hname⟩, (hmalformed (by decide) hother).1⟩
  rw [(hpath hname).2.1, hfolder]
  rfl

end Locale

end ContestGrading
