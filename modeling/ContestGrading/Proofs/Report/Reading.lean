import ContestGrading.FileTree
import ContestGrading.Proofs.Journal
import ContestGrading.Proofs.Locale.Confinement
import ContestGrading.Proofs.Settings.Merge
import ContestGrading.Report.Run
/-!
# What a run reads

A run consults the document of the defaults, the document that its arguments
name, and catalogs. It asks for no other file, and what else there is among
the files makes no difference to it. So a file that is added to a directory of
a tree leaves every run as it is that does not name it.

Results:
* `consults_of_mem_events`: the files that a run asks for.
* `run_congr`: what else there is makes no difference.
* `entry_put_of_notMem`: a file that is added, and the other paths.
* `run_put`: a file that is added, and a run.
* `options_shipped`: what the shipped documents set.
-/
namespace ContestGrading

/-! ## Files that are added to a tree -/

namespace FileTree

variable (tree : FileTree) {directory : List Text} {name : Text}

/-- What is above a directory is a directory. -/
theorem isDirectory_of_above {front : List Text} (h : front <+: directory)
    (hd : tree.isDirectory directory = true) : tree.isDirectory front = true := by
  rw [isDirectory, Bool.or_eq_true, List.isEmpty_iff] at hd ⊢
  rcases hd with rfl | hd
  · exact .inl (List.prefix_nil.mp h)
  · refine .inr ?_
    obtain ⟨f, hf, hbelow⟩ := List.any_eq_true.mp hd
    rw [Bool.and_eq_true, List.isPrefixOf_iff_prefix, bne_iff_ne] at hbelow
    refine List.any_eq_true.mpr ⟨f, hf, ?_⟩
    rw [Bool.and_eq_true, List.isPrefixOf_iff_prefix, bne_iff_ne]
    refine ⟨h.trans hbelow.1, fun heq => hbelow.2 ?_⟩
    exact (hbelow.1.eq_of_length_le (heq ▸ h.length_le)).symm

theorem file?_put_of_ne {names others : List Text} (h : names ≠ others) (bytes : List UInt8) :
    (tree.put names bytes).file? others = tree.file? others := by
  simp [file?, put, h]

theorem isDirectory_put (names others : List Text) (bytes : List UInt8) :
    (tree.put names bytes).isDirectory others =
      (others.isPrefixOf names && names != others || tree.isDirectory others) := by
  simp [isDirectory, put, Bool.or_left_comm]

/-- A file that is added to a directory makes no new one. -/
theorem isDirectory_put_of_ne (hd : tree.isDirectory directory = true) {names : List Text}
    (hne : names ≠ directory ++ [name]) (bytes : List UInt8) :
    (tree.put (directory ++ [name]) bytes).isDirectory names = tree.isDirectory names := by
  rw [isDirectory_put]
  by_cases hon : names <+: directory ++ [name]
  · have hfront := (List.prefix_concat_iff.mp hon).resolve_left hne
    rw [isDirectory_of_above tree hfront hd, Bool.or_true]
  · rw [← List.isPrefixOf_iff_prefix, Bool.not_eq_true] at hon
    rw [hon, Bool.false_and, Bool.false_or]

/-- A walk that does not name the file goes where it went without it. -/
theorem walk_put (hd : tree.isDirectory directory = true) (bytes : List UInt8) {names : List Text}
    (h : name ∉ names) (place : Place) :
    (tree.put (directory ++ [name]) bytes).walk place names = tree.walk place names := by
  induction names generalizing place with
  | nil => rfl
  | cons other rest ih =>
    obtain ⟨hother, hrest⟩ := not_or.mp (mt List.mem_cons.mpr h)
    have hne : ∀ front, front ++ [other] ≠ directory ++ [name] := fun front heq =>
      hother (List.singleton_inj.mp (List.append_inj_right' heq rfl)).symm
    have hfile := fun front => file?_put_of_ne tree (hne front).symm bytes
    have hbelow := fun front => isDirectory_put_of_ne tree hd (hne front) bytes
    simp only [walk, ih hrest, hfile, hbelow]

/-- A file that is added to a directory changes nothing for the paths that do
not name it. -/
theorem entry_put_of_notMem (hd : tree.isDirectory directory = true) (bytes : List UInt8)
    {path : Text} (h : name ∉ namesOf path) :
    (tree.put (directory ++ [name]) bytes).entry path = tree.entry path := by
  simp only [entry, walk_put tree hd bytes h]

end FileTree

/-! ## The files of a run -/

/-- The path that is asked for. -/
def FileAccess.path : FileAccess → Text
  | .looked path | .read path => path

namespace Run

variable (home : Installation) (argv : List Text)

/-- The files that a run may consult. -/
inductive Consults : Text → Prop where
  | defaults : Consults home.defaults
  | document {args : Arguments} {path : Text} (hargs : Arguments.parse argv = .ok args)
    (h : args.value? .config = some path) : Consults path
  | catalog {locale : Text} (h : Locale.NamesLocale locale) :
    Consults (Locale.catalogPath home.catalogs locale)

variable {home argv} {files others : Files}

/-! ## The files that are asked for -/

theorem consults_of_mem_load {access : FileAccess}
    (h : access ∈ (Options.load files (.file home.defaults) argv).notes) :
    Consults home argv access.path := by
  rw [Options.load] at h
  rcases Journal.mem_notes_andThen h with h | ⟨args, hargs, h⟩
  · cases h
  have hargs : Arguments.parse argv = .ok args := mapError_eq_ok_iff.mp hargs
  rcases Journal.mem_notes_andThen h with h | ⟨lower, -, h⟩
  · obtain ⟨found, hfound, rfl⟩ := List.mem_map.mp h
    rw [id, Locale.readObject_notes_subset files hfound]
    exact .defaults
  rcases Journal.mem_notes_andThen h with h | ⟨upper, -, h⟩
  · cases hpath : args.value? .config with
    | none =>
      rw [hpath] at h
      cases h
    | some path =>
      rw [hpath] at h
      obtain ⟨found, hfound, rfl⟩ := List.mem_map.mp h
      rw [id, Locale.readObject_notes_subset files hfound]
      exact .document hargs hpath
  rw [Journal.bind_eq, Journal.notes_andThen_of_quiet _ fun config => rfl] at h
  cases h

theorem consults_of_mem_translation {locale : Text} {access : FileAccess}
    (h : access ∈ (Locale.load files home.catalogs locale).notes) :
    Consults home argv access.path := by
  by_cases hdefault : locale = Translation.default.identifier
  · rw [hdefault, Locale.load_default] at h
    cases h
  cases hname : Locale.isName locale with
  | false =>
    rw [Locale.load_malformed files home.catalogs hdefault hname] at h
    cases h
  | true =>
    have hcatalog : Consults home argv (Locale.catalogPath home.catalogs locale) :=
      .catalog ((Locale.isName_iff locale).mp hname)
    rcases (Locale.mem_notes_load files home.catalogs hdefault hname).2 access h with rfl | rfl
    · exact hcatalog
    · exact hcatalog

/-- The scoring and the rendering ask for no files. -/
theorem file_notMem_scoreAndRender (db : Database) (tr : Translation) (level : FeedbackLevel)
    (submission dataset : Text) (access : FileAccess) :
    .file access ∉ (scoreAndRender db tr level submission dataset).notes := by
  intro h
  rw [scoreAndRender] at h
  rcases Journal.mem_notes_andThen h with h | ⟨found, -, h⟩
  · obtain ⟨note, -, hnote⟩ := List.mem_map.mp h
    cases hnote
  rw [Journal.bind_eq, Journal.notes_andThen_of_quiet _ fun rows => rfl] at h
  obtain ⟨error, -, herror⟩ := List.mem_map.mp h
  cases herror

theorem consults_of_mem_session {db : Database} {o : Options} {access : FileAccess}
    (h : .file access ∈ (session home files db o).notes) :
    Consults home argv access.path := by
  rw [session] at h
  rcases Journal.mem_notes_andThen h with h | ⟨⟨submission, dataset⟩, -, h⟩
  · cases h
  rcases Journal.mem_notes_andThen h with h | ⟨tr, -, h⟩
  · obtain ⟨found, hfound, hnote⟩ := List.mem_map.mp h
    cases hnote
    exact consults_of_mem_translation hfound
  rcases Journal.mem_notes_andThen h with h | ⟨-, -, h⟩
  · cases List.mem_singleton.mp h
  rcases Journal.mem_notes_andThen h with h | ⟨-, -, h⟩
  · cases List.mem_singleton.mp h
  rcases List.mem_append.mp h with h | h
  · exact (file_notMem_scoreAndRender _ _ _ _ _ access h).elim
  · cases List.mem_singleton.mp h

theorem mem_notes_of_mem_reportOf {level : LogLevel} {j : Step Text} {access : FileAccess}
    (h : .file access ∈ (reportOf level j).events) : .file access ∈ j.notes := by
  rcases j with ⟨notes, outcome⟩
  cases outcome with
  | ok text => exact h
  | error failure =>
    refine (List.mem_append.mp h).resolve_right fun hlast => ?_
    simp [Event.logged] at hlast

/-! ## What the files make a difference to -/

theorem options_congr (h : ∀ path, Consults home argv path → others path = files path) :
    Options.load others (.file home.defaults) argv =
      Options.load files (.file home.defaults) argv := by
  have hdefaults : Defaults.read others (.file home.defaults) =
      Defaults.read files (.file home.defaults) := by
    simp only [Defaults.read, readObject, h _ .defaults]
  rw [Options.load, Options.load, Journal.bind_eq, Journal.bind_eq, hdefaults]
  refine Journal.andThen_congr fun args hargs => ?_
  have hargs : Arguments.parse argv = .ok args := mapError_eq_ok_iff.mp hargs
  have huser : Options.readUser others (args.value? .config) =
      Options.readUser files (args.value? .config) := by
    cases hpath : args.value? .config with
    | none => rfl
    | some path => simp only [Options.readUser, readObject, h _ (.document hargs hpath)]
  rw [huser]

theorem session_congr (h : ∀ path, Consults home argv path → others path = files path)
    (db : Database) (o : Options) : session home others db o = session home files db o := by
  have hload : Locale.load others home.catalogs o.config.locale =
      Locale.load files home.catalogs o.config.locale := by
    cases hname : Locale.isName o.config.locale with
    | true => exact Locale.load_congr _ _ (h _ (.catalog ((Locale.isName_iff _).mp hname)))
    | false => simp [Locale.load, hname]
  rw [session, session, hload]

end Run

open Run

variable {home : Installation} {files others : Files} (db : Database) {argv : List Text}

/-- A run asks for no file but those that it may consult. -/
theorem consults_of_mem_events {access : FileAccess}
    (h : .file access ∈ (home.run files db argv).events) :
    Consults home argv access.path := by
  rw [Installation.run] at h
  rcases Journal.mem_notes_andThen (mem_notes_of_mem_reportOf h) with h | ⟨o, -, h⟩
  · obtain ⟨found, hfound, hnote⟩ := List.mem_map.mp h
    cases hnote
    exact consults_of_mem_load hfound
  · exact consults_of_mem_session h

/-- What else there is among the files makes no difference to a run. -/
theorem run_congr (h : ∀ path, Consults home argv path → others path = files path) :
    home.run others db argv = home.run files db argv := by
  have hsession := funext fun o => session_congr h db o
  rw [Installation.run, Installation.run, options_congr h, hsession]

/-- A file that is added to a directory makes no difference to a run that
consults no path with its name in it. -/
theorem run_put (tree : FileTree) {directory : List Text} {name : Text}
    (hd : tree.isDirectory directory = true) (bytes : List UInt8)
    (h : ∀ path, Consults home argv path → name ∉ FileTree.namesOf path) :
    home.run (tree.put (directory ++ [name]) bytes).entry db argv =
      home.run tree.entry db argv :=
  run_congr db fun path hpath => tree.entry_put_of_notMem hd bytes (h path hpath)

/-! ## The shipped settings -/

/-- The installed document holds the shipped settings. -/
theorem read_shipped (files : Files) :
    ∃ lower, (Defaults.read (Installation.shipped.installedOver files)
        (.file Installation.shipped.defaults)).outcome = .ok lower ∧
      Config.validate (Config.merge lower []) = .ok Options.shippedConfig := by
  let bytes := Text.encode (Json.print 4 (.object Defaults.shippedMembers))
  have hread : (Defaults.read (Installation.shipped.installedOver files)
      (.file Installation.shipped.defaults)).outcome =
        (objectOfBytes Installation.shipped.defaults bytes).mapError .document := by
    have hnul : Installation.shipped.defaults.contains 0 = false := by decide
    have hentry : Installation.shipped.installedOver files Installation.shipped.defaults =
        .content bytes := if_pos rfl
    rw [Defaults.read, readObject, hnul, hentry]
    rfl
  have hvalid : ((objectOfBytes Installation.shipped.defaults bytes).mapError
      SettingsError.document).map (fun lower => Config.validate (Config.merge lower [])) =
        .ok (.ok Options.shippedConfig) := by
    decide +kernel
  obtain ⟨lower, hlower, hvalid⟩ := map_eq_ok_iff.mp hvalid
  exact ⟨lower, hread.trans hlower, hvalid⟩

/-- Where no document is named, the shipped program has the shipped settings
under the locale of the command line. -/
theorem options_shipped (files : Files) {argv : List Text} {args : Arguments}
    (hargs : Arguments.parse argv = .ok args) (hnone : args.value? .config = none) :
    (Options.load (Installation.shipped.installedOver files) (.file Installation.shipped.defaults)
      argv).outcome = .ok
        { verbose := (args.value? .verbose).isSome
          submission := args.value? .submission
          dataset := args.value? .dataset
          config := { Options.shippedConfig with
            locale := (args.value? .locale).getD Options.shippedConfig.locale } } := by
  obtain ⟨lower, hlower, hvalid⟩ := read_shipped files
  have hupper : (Options.readUser (Installation.shipped.installedOver files)
      (args.value? .config)).outcome = .ok [] := by rw [hnone]; rfl
  rw [Options.outcome_load hargs hlower hupper, hvalid]
  rfl

end ContestGrading
