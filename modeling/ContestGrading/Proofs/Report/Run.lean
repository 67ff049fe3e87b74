import ContestGrading.FileTree
import ContestGrading.Proofs.Grading.Rendering
import ContestGrading.Proofs.Report.Failure
import ContestGrading.Proofs.Store.Unscored
/-!
# The discipline of a run

A run goes through six stages, and the first one that fails decides how it
ends. It opens one connection or none. While it is open the database is asked
for the dataset and then for the result of the submission, as far as the
scoring gets, and however the scoring and the rendering end the connection is
closed. The report is printed whole or not at all.

Results:
* `run_ends`: the stage at which a run ends, and what has reached the database
  then.
* `run_disciplined`: what reaches the database in a run, how it exits, and
  what it leaves in the log.
-/
namespace ContestGrading

/-! ## What reaches the database in a run -/

/-- What reaches the database, of an event. -/
def Event.database? : Event → Option ScoringNote
  | .scoring note => note.database?
  | .file _ | .statusFailed _ | .failed _ => none

namespace RunReport

theorem output_of_ok {r : RunReport} {text : Text} (h : r.outcome = .ok text) :
    r.output = text ∧ r.exitCode = 0 := by
  rw [output, exitCode, h]
  exact ⟨rfl, rfl⟩

theorem output_of_error {r : RunReport} {failure : Failure} (h : r.outcome = .error failure) :
    r.output = [] ∧ r.exitCode = 1 := by
  rw [output, exitCode, h]
  exact ⟨rfl, rfl⟩

/-- What reaches the database, in order. -/
def databaseEvents (r : RunReport) : List ScoringNote := r.events.filterMap Event.database?

/-- The lines of the log that matter at the level of the run. -/
def log (r : RunReport) : List (LogLevel × Text) :=
  (r.events.filterMap Event.logLine?).filter fun line => line.1.rank ≤ r.level.rank

end RunReport

namespace Run

variable {db : Database} {o : Options}

/-- The text is the whole report: the score of the submission, and the rows
of its public breakdown. -/
def Reports (db : Database) (tr : Translation) (level : FeedbackLevel) (submission dataset : Text)
    (text : Text) : Prop :=
  ∃ found rows, (scoreSubmission db.store submission dataset).outcome = .ok found ∧
    (renderFeedback tr level found.result.publicSubtasks).outcome = .ok rows ∧
    text = resultText found rows

theorem resultText_ne_nil (s : SubmissionScore) (rows : List RenderedSubtask) :
    resultText s rows ≠ [] := List.append_ne_nil_of_right_ne_nil _ nofun

/-- The settings of a run. -/
def loaded (home : Installation) (files : Files) (argv : List Text) :
    Except SettingsError Options :=
  (Options.load files (.file home.defaults) argv).outcome

/-- The translation that a session uses. -/
def translation (home : Installation) (files : Files) (o : Options) :
    Except LocaleError Translation :=
  (Locale.load files home.catalogs o.config.locale).outcome

/-- How a run ends, at the first stage that fails or with the report, and what
has reached the database then. -/
inductive Ends (home : Installation) (files : Files) (db : Database) (argv : List Text) :
    List ScoringNote → Except Failure Text → Prop where
  | settings {e : SettingsError} (h : loaded home files argv = .error e) :
    Ends home files db argv [] (.error (.settings e))
  | target {o : Options} {e : SettingsError} (ho : loaded home files argv = .ok o)
    (h : o.target = .error e) :
    Ends home files db argv [] (.error (.settings e))
  | locale {o : Options} {submission dataset : Text} {e : LocaleError}
    (ho : loaded home files argv = .ok o) (ht : o.target = .ok (submission, dataset))
    (h : translation home files o = .error e) :
    Ends home files db argv [] (.error (.locale e))
  | scoring {o : Options} {submission dataset : Text} {tr : Translation} {queries : List Query}
    {e : ScoringError} (ho : loaded home files argv = .ok o)
    (ht : o.target = .ok (submission, dataset)) (htr : translation home files o = .ok tr)
    (asked : Asked submission dataset queries)
    (h : (scoreSubmission db.store submission dataset).outcome = .error e) :
    Ends home files db argv (.connected :: queries.map .queried ++ [.closed])
      (.error (.scoring e))
  | rendering {o : Options} {submission dataset : Text} {tr : Translation} {s d : ObjectId}
    {found : SubmissionScore} {e : TemplateError} (ho : loaded home files argv = .ok o)
    (ht : o.target = .ok (submission, dataset)) (htr : translation home files o = .ok tr)
    (hs : Writes submission s) (hd : Writes dataset d)
    (hfound : (scoreSubmission db.store submission dataset).outcome = .ok found)
    (h : (renderFeedback tr o.config.feedbackLevel found.result.publicSubtasks).outcome =
      .error e) :
    Ends home files db argv [.connected, .queried (.dataset d), .queried (.result s d), .closed]
      (.error (.template e))
  | report {o : Options} {submission dataset text : Text} {tr : Translation} {s d : ObjectId}
    (ho : loaded home files argv = .ok o) (ht : o.target = .ok (submission, dataset))
    (htr : translation home files o = .ok tr) (hs : Writes submission s) (hd : Writes dataset d)
    (h : Reports db tr o.config.feedbackLevel submission dataset text) :
    Ends home files db argv [.connected, .queried (.dataset d), .queried (.result s d), .closed]
      (.ok text)

/-- Something fails before there is a connection: the settings, what is to be
scored, or the translation. -/
def StopsEarly (home : Installation) (files : Files) (argv : List Text) : Prop :=
  match loaded home files argv with
  | .error _ => True
  | .ok o => (∃ e, o.target = .error e) ∨ ∃ e, translation home files o = .error e

section Stages

variable {home : Installation} {files : Files} {argv : List Text} {submission dataset : Text}
  {tr : Translation}

/-- Both can be asked for where both are named by identifiers. -/
theorem asked_of_writes {s d : ObjectId} (hs : Writes submission s) (hd : Writes dataset d) :
    Asked submission dataset [.dataset d, .result s d] :=
  .both (ObjectId.parse?_eq_some_iff.mpr hd) (ObjectId.parse?_eq_some_iff.mpr hs)

theorem not_stopsEarly (ho : loaded home files argv = .ok o)
    (ht : o.target = .ok (submission, dataset)) (htr : translation home files o = .ok tr) :
    ¬ StopsEarly home files argv := by
  rw [StopsEarly, ho]
  rintro (⟨e, he⟩ | ⟨e, he⟩)
  · cases ht.symm.trans he
  · cases htr.symm.trans he

namespace Ends

variable {events : List ScoringNote} {outcome : Except Failure Text}

/-- Nothing reaches the database just if the run stops before that. -/
theorem nil_iff (h : Ends home files db argv events outcome) :
    events = [] ↔ StopsEarly home files argv := by
  cases h with
  | settings h =>
    refine iff_of_true rfl ?_
    rw [StopsEarly, h]
    trivial
  | target ho h =>
    refine iff_of_true rfl ?_
    rw [StopsEarly, ho]
    exact .inl ⟨_, h⟩
  | locale ho ht h =>
    refine iff_of_true rfl ?_
    rw [StopsEarly, ho]
    exact .inr ⟨_, h⟩
  | scoring ho ht htr _ _ => exact iff_of_false nofun (not_stopsEarly ho ht htr)
  | rendering ho ht htr _ _ _ _ => exact iff_of_false nofun (not_stopsEarly ho ht htr)
  | report ho ht htr _ _ _ => exact iff_of_false nofun (not_stopsEarly ho ht htr)

/-- A run that does not stop early opens a connection and closes it, and asks
for the dataset first. -/
theorem bracketed (h : Ends home files db argv events outcome)
    (hgo : ¬ StopsEarly home files argv) :
    ∃ o submission dataset queries, loaded home files argv = .ok o ∧
      o.target = .ok (submission, dataset) ∧ Asked submission dataset queries ∧
      queries.map Query.collection <+: ["dataset", "submission_result"] ∧
      events = .connected :: queries.map .queried ++ [.closed] := by
  have hnil := h.nil_iff
  cases h with
  | settings h => exact absurd (hnil.mp rfl) hgo
  | target ho h => exact absurd (hnil.mp rfl) hgo
  | locale ho ht h => exact absurd (hnil.mp rfl) hgo
  | scoring ho ht htr asked h => exact ⟨_, _, _, _, ho, ht, asked, asked.collection_prefix, rfl⟩
  | rendering ho ht htr hs hd hfound h =>
    have asked := asked_of_writes hs hd
    exact ⟨_, _, _, _, ho, ht, asked, asked.collection_prefix, rfl⟩
  | report ho ht htr hs hd h =>
    have asked := asked_of_writes hs hd
    exact ⟨_, _, _, _, ho, ht, asked, asked.collection_prefix, rfl⟩

/-- What is printed is a report. -/
theorem reported {text : Text} (h : Ends home files db argv events (.ok text)) :
    ∃ o submission dataset tr s d, loaded home files argv = .ok o ∧
      o.target = .ok (submission, dataset) ∧ translation home files o = .ok tr ∧
      Writes submission s ∧ Writes dataset d ∧
      Reports db tr o.config.feedbackLevel submission dataset text ∧
      events = [.connected, .queried (.dataset d), .queried (.result s d), .closed] := by
  cases h with
  | report ho ht htr hs hd h => exact ⟨_, _, _, _, _, _, ho, ht, htr, hs, hd, h, rfl⟩

theorem text_ne_nil {text : Text} (h : Ends home files db argv events (.ok text)) : text ≠ [] := by
  obtain ⟨_, _, _, _, _, _, -, -, -, -, -, ⟨found, rows, -, -, htext⟩, -⟩ := h.reported
  rw [htext]
  exact resultText_ne_nil found rows

end Ends

/-! ## The last stages -/

/-- The rendering asks for nothing more than the scoring did. -/
theorem seen_scoreAndRender (db : Database) (tr : Translation) (level : FeedbackLevel)
    (submission dataset : Text) :
    (scoreAndRender db tr level submission dataset).seen Event.database? =
      (scoreSubmission db.store submission dataset).seen ScoringNote.database? := by
  rw [scoreAndRender, Journal.bind_eq, Journal.seen_andThen_of_quiet]
  · exact Journal.seen_convert ..
  · intro found
    rw [Journal.bind_eq, Journal.seen_andThen_of_quiet _ fun rows => rfl, Journal.seen_convert]
    exact Journal.seen_none _

theorem outcome_scoreAndRender_of_ok {level : FeedbackLevel} {found : SubmissionScore}
    (h : (scoreSubmission db.store submission dataset).outcome = .ok found) :
    (scoreAndRender db tr level submission dataset).outcome =
      ((renderFeedback tr level found.result.publicSubtasks).outcome.mapError .template).map
        (resultText found) := by
  have hfound : ((scoreSubmission db.store submission dataset).convert .scoring .scoring :
      Step SubmissionScore).outcome = .ok found := Journal.outcome_convert_ok.mpr h
  rw [scoreAndRender, Journal.bind_eq, Journal.outcome_andThen hfound, Journal.bind_eq]
  cases hr : (renderFeedback tr level found.result.publicSubtasks).outcome with
  | error e => exact Journal.outcome_andThen_error (Journal.outcome_convert_error hr) _
  | ok rows => exact Journal.outcome_andThen (Journal.outcome_convert_ok.mpr hr) _

/-- While there is a connection, the scoring ends or the rendering does, or
there is the report. -/
theorem scoreAndRender_ends (ho : loaded home files argv = .ok o)
    (ht : o.target = .ok (submission, dataset)) (htr : translation home files o = .ok tr) :
    let last := scoreAndRender db tr o.config.feedbackLevel submission dataset
    Ends home files db argv (.connected :: last.seen Event.database? ++ [.closed])
      last.outcome := by
  intro last
  obtain ⟨queries, hasked, hseen, hboth⟩ := scoreSubmission_asks db submission dataset
  have hqueries : last.seen Event.database? = queries.map .queried :=
    (seen_scoreAndRender ..).trans hseen
  rw [hqueries]
  cases hfound : (scoreSubmission db.store submission dataset).outcome with
  | error e =>
    have herror : last.outcome = .error (.scoring e) :=
      Journal.outcome_andThen_error (Journal.outcome_convert_error hfound) _
    rw [herror]
    exact .scoring ho ht htr hasked hfound
  | ok found =>
    have houtcome : last.outcome = _ := outcome_scoreAndRender_of_ok hfound
    rw [houtcome]
    -- a scoring that succeeds has asked for both
    cases hasked with
    | nothing => cases hboth found hfound
    | dataset hd => cases hboth found hfound
    | both hd hs =>
      rw [ObjectId.parse?_eq_some_iff] at hd hs
      cases hr : (renderFeedback tr o.config.feedbackLevel found.result.publicSubtasks).outcome with
      | error e => exact .rendering ho ht htr hs hd hfound hr
      | ok rows => exact .report ho ht htr hs hd ⟨found, rows, hfound, hr, rfl⟩

/-! ## The stages before -/

/-- What a session does once the translation is loaded. -/
def connection (db : Database) (o : Options) (submission dataset : Text) (tr : Translation) :
    Step Text := do
  .note (.logged .info "Connecting to MongoDB...")
  .note (.scoring .connected)
  (scoreAndRender db tr o.config.feedbackLevel submission dataset).thenAlways [.scoring .closed]

theorem session_eq (h : o.target = .ok (submission, dataset)) :
    session home files db o =
      ((Locale.load files home.catalogs o.config.locale).convert .file .locale).andThen
        (connection db o submission dataset) := by
  rw [session, h]
  exact Journal.done_andThen ..

/-- However the scoring ends, it stands between the connection and its end. -/
theorem seen_connection (db : Database) (o : Options) (submission dataset : Text)
    (tr : Translation) :
    (connection db o submission dataset tr).seen Event.database? =
      .connected :: (scoreAndRender db tr o.config.feedbackLevel submission dataset).seen
        Event.database? ++ [.closed] := by
  rw [connection, Journal.bind_eq, Journal.seen_andThen_ok rfl, Journal.bind_eq,
    Journal.seen_andThen_ok rfl, Journal.seen_thenAlways]
  rfl

theorem outcome_connection (db : Database) (o : Options) (submission dataset : Text)
    (tr : Translation) :
    (connection db o submission dataset tr).outcome =
      (scoreAndRender db tr o.config.feedbackLevel submission dataset).outcome := by
  rw [connection, Journal.bind_eq, Journal.outcome_andThen rfl, Journal.bind_eq,
    Journal.outcome_andThen rfl]
  rfl

/-- Files are read without the database. -/
theorem seen_file {ε α : Type} (error : ε → Failure) (j : Journal FileAccess ε α) :
    (j.convert .file error : Step α).seen Event.database? = [] := by
  rw [Journal.seen_convert]
  exact Journal.seen_none _

theorem session_ends (ho : loaded home files argv = .ok o) :
    Ends home files db argv ((session home files db o).seen Event.database?)
      (session home files db o).outcome := by
  cases ht : o.target with
  | error e =>
    rw [session, ht]
    exact .target ho ht
  | ok target =>
    obtain ⟨submission, dataset⟩ := target
    rw [session_eq ht]
    cases htr : (Locale.load files home.catalogs o.config.locale).outcome with
    | error e =>
      have he : ((Locale.load files home.catalogs o.config.locale).convert .file .locale :
        Step Translation).outcome = .error (.locale e) := Journal.outcome_convert_error htr
      rw [Journal.seen_andThen_error he, Journal.outcome_andThen_error he, seen_file]
      exact .locale ho ht htr
    | ok tr =>
      have hok : ((Locale.load files home.catalogs o.config.locale).convert .file .locale :
        Step Translation).outcome = .ok tr := Journal.outcome_convert_ok.mpr htr
      rw [Journal.seen_andThen_ok hok, Journal.outcome_andThen hok, seen_file, seen_connection,
        outcome_connection]
      exact scoreAndRender_ends ho ht htr

end Stages

/-! ## Reports -/

/-- The last lines of the log of a run that fails, if this is what the failure
is called. -/
def failureLines (text : Text) : List (LogLevel × Text) :=
  [(.error, "Scorer Error!"), (.error, text)]

theorem outcome_reportOf (level : LogLevel) (j : Step Text) :
    (reportOf level j).outcome = j.outcome := by
  rcases j with ⟨notes, outcome⟩
  cases outcome <;> rfl

theorem databaseEvents_reportOf (level : LogLevel) (j : Step Text) :
    (reportOf level j).databaseEvents = j.seen Event.database? := by
  rcases j with ⟨notes, outcome⟩
  cases outcome with
  | ok text => rfl
  | error failure =>
    rw [reportOf, RunReport.databaseEvents, List.filterMap_append, ← Journal.seen]
    exact List.append_nil _

/-- After a failure the log ends with it, at any level. -/
theorem log_reportOf (level : LogLevel) {j : Step Text} {failure : Failure}
    (h : j.outcome = .error failure) :
    ∃ lines text, failure.Says text ∧ (reportOf level j).log = lines ++ failureLines text := by
  rcases j with ⟨notes, outcome⟩
  obtain rfl : outcome = .error failure := h
  refine ⟨(notes.filterMap Event.logLine?).filter fun line => line.1.rank ≤ level.rank,
    failure.message, failure.says_message, ?_⟩
  rw [reportOf, RunReport.log, List.filterMap_append, List.filter_append]
  cases level <;> rfl

end Run

open Run

section Runs

variable (home : Installation) (files : Files) (db : Database) (argv : List Text)

/-- A run goes through its stages. -/
theorem run_ends :
    Ends home files db argv (home.run files db argv).databaseEvents
      (home.run files db argv).outcome := by
  rw [Installation.run, databaseEvents_reportOf, outcome_reportOf]
  cases ho : (Options.load files (.file home.defaults) argv).outcome with
  | error e =>
    have he : ((Options.load files (.file home.defaults) argv).convert .file .settings :
      Step Options).outcome = .error (.settings e) := Journal.outcome_convert_error ho
    rw [Journal.seen_andThen_error he, Journal.outcome_andThen_error he, seen_file]
    exact .settings ho
  | ok o =>
    have hok : ((Options.load files (.file home.defaults) argv).convert .file .settings :
      Step Options).outcome = .ok o := Journal.outcome_convert_ok.mpr ho
    rw [Journal.seen_andThen_ok hok, Journal.outcome_andThen hok, seen_file, List.nil_append]
    exact session_ends ho

theorem log_run {failure : Failure} (h : (home.run files db argv).outcome = .error failure) :
    ∃ lines text, failure.Says text ∧
      (home.run files db argv).log = lines ++ failureLines text := by
  rw [Installation.run, outcome_reportOf] at h
  exact log_reportOf _ h

end Runs

/-- **The discipline of a run.** A run ends at the first stage that fails or
with the report. Either nothing reaches the database, just if the settings,
the target or the translation fail, or one connection is opened, the dataset
and the result are asked for as far as the scoring gets, and the connection is
closed, whether the scoring or the rendering fails or neither. A run that
exits with zero has asked for both and prints the whole report; any other
exits with one, prints nothing, and its log ends with the failure. -/
theorem run_disciplined (home : Installation) (files : Files) (db : Database) (argv : List Text) :
    let report := home.run files db argv
    Ends home files db argv report.databaseEvents report.outcome ∧
    (report.databaseEvents = [] ↔ StopsEarly home files argv) ∧
    (¬ StopsEarly home files argv → ∃ o submission dataset queries,
      loaded home files argv = .ok o ∧ o.target = .ok (submission, dataset) ∧
      Asked submission dataset queries ∧
      queries.map Query.collection <+: ["dataset", "submission_result"] ∧
      report.databaseEvents = .connected :: queries.map .queried ++ [.closed]) ∧
    (report.exitCode = 0 ↔ report.output ≠ []) ∧
    (report.exitCode = 0 → ∃ o submission dataset tr s d,
      loaded home files argv = .ok o ∧ o.target = .ok (submission, dataset) ∧
      translation home files o = .ok tr ∧ Writes submission s ∧ Writes dataset d ∧
      Reports db tr o.config.feedbackLevel submission dataset report.output ∧
      report.databaseEvents =
        [.connected, .queried (.dataset d), .queried (.result s d), .closed]) ∧
    (report.exitCode ≠ 0 → report.exitCode = 1 ∧ report.output = [] ∧
      ∃ failure lines text, report.outcome = .error failure ∧ failure.Says text ∧
        report.log = lines ++ failureLines text) := by
  intro report
  have hends := run_ends home files db argv
  refine ⟨hends, ?_, ?_, ?_, ?_, ?_⟩
  · exact hends.nil_iff
  · exact hends.bracketed
  · cases houtcome : report.outcome with
    | error failure =>
      obtain ⟨houtput, hexit⟩ := RunReport.output_of_error houtcome
      simp [houtput, hexit]
    | ok text =>
      obtain ⟨houtput, hexit⟩ := RunReport.output_of_ok houtcome
      rw [show (home.run files db argv).outcome = .ok text from houtcome] at hends
      simp [houtput, hexit, hends.text_ne_nil]
  · intro hexit
    obtain ⟨text, houtcome⟩ := report.exitCode_eq_zero_iff.mp hexit
    rw [(RunReport.output_of_ok houtcome).1]
    rw [show (home.run files db argv).outcome = .ok text from houtcome] at hends
    exact hends.reported
  · intro hne
    cases houtcome : report.outcome with
    | ok text => exact absurd (RunReport.output_of_ok houtcome).2 hne
    | error failure =>
      obtain ⟨houtput, hexit⟩ := RunReport.output_of_error houtcome
      obtain ⟨lines, text, hsays, hlog⟩ := log_run home files db argv houtcome
      exact ⟨hexit, houtput, failure, lines, text, rfl, hsays, hlog⟩

/-! ## A run that fails as it renders -/

open ScoreType (twoSubtasks fullBut half)
open Rendering (brokenTitle render_brokenTitle)

/-- The document of an object. -/
def documentOf (members : Members Json) : List UInt8 := Text.encode (Json.print 4 (.object members))

/-- The shipped defaults beside the catalog that is in the way. -/
def brokenTree : FileTree :=
  (FileTree.empty.put ["app", "config.json"] (documentOf Defaults.shippedMembers)).put
    ["app", "locales", "xx.json"]
    (documentOf (brokenTitle.messages.map fun m => (m.1, .string m.2)))

def appHome : Installation := ⟨"app/config.json", "app/locales"⟩

/-- The submission has the same identifier as the dataset. -/
def plainArguments : List Text :=
  ["--submission", plainId.hex, "--dataset", plainId.hex, "--locale", brokenTitle.identifier]

def plainOptions : Options :=
  ⟨false, some plainId.hex, some plainId.hex,
    ⟨⟨"localhost:27017", "contest", "scorer", "test-secret"⟩, brokenTitle.identifier, .restricted⟩⟩

/-- The result that is half right. -/
def halfResult : ResultDocument :=
  ⟨plainId, plainId, some "ok", some "ok", (fullBut half .zero).evaluations⟩

def halfDatabase : Database := ⟨twoSubtasksDatabase.datasets, [halfResult]⟩

theorem loaded_brokenTree : loaded appHome brokenTree.entry plainArguments = .ok plainOptions := by
  decide +kernel

theorem translation_brokenTree :
    translation appHome brokenTree.entry plainOptions = .ok brokenTitle := by
  have hparts : (translation appHome brokenTree.entry plainOptions).map
      (fun tr => (tr.identifier, tr.messages)) =
        .ok (brokenTitle.identifier, brokenTitle.messages) := by
    decide +kernel
  obtain ⟨tr, hload, hparts⟩ := map_eq_ok_iff.mp hparts
  obtain ⟨hidentifier, hmessages⟩ := Prod.mk.inj hparts
  rw [hload]
  exact congrArg Except.ok (congrArg₂ Translation.mk hidentifier hmessages)

theorem reads_halfDatabase :
    halfDatabase.Reads plainId.hex plainId.hex (twoSubtasks .mean) halfResult := by
  have hid : Writes plainId.hex plainId := ObjectId.parse?_eq_some_iff.mp (by decide)
  exact ⟨plainId, plainId, hid, hid,
    Database.scoreType?_eq_some_iff.mpr ⟨_, rfl, ScoreType.create_twoSubtasks .mean⟩, rfl⟩

theorem ends_brokenTree {events : List ScoringNote} {outcome : Except Failure Text}
    (h : Ends appHome brokenTree.entry halfDatabase plainArguments events outcome) :
    events = [.connected, .queried (.dataset plainId), .queried (.result plainId plainId),
        .closed] ∧
      outcome = .error (.template .unexpectedPlaceholder) := by
  have htarget : plainOptions.target = .ok (plainId.hex, plainId.hex) := rfl
  have hid : ∀ {id : ObjectId}, Writes plainId.hex id → id = plainId := fun hid =>
    Option.some.inj ((ObjectId.parse?_eq_some_iff.mpr hid).symm.trans (by decide))
  obtain ⟨r, hscore, hrender⟩ := render_brokenTitle
  have hfound := (Database.outcome_eq_ok_iff reads_halfDatabase).mpr hscore
  cases h with
  | settings hfails => cases loaded_brokenTree.symm.trans hfails
  | target ho hfails =>
    cases loaded_brokenTree.symm.trans ho
    cases htarget.symm.trans hfails
  | locale ho ht hfails =>
    cases loaded_brokenTree.symm.trans ho
    cases translation_brokenTree.symm.trans hfails
  | scoring ho ht htr hasked hfails =>
    cases loaded_brokenTree.symm.trans ho
    cases htarget.symm.trans ht
    cases hfound.symm.trans hfails
  | rendering ho ht htr hs hd hscored hfails =>
    cases loaded_brokenTree.symm.trans ho
    cases htarget.symm.trans ht
    cases translation_brokenTree.symm.trans htr
    cases hfound.symm.trans hscored
    cases hrender.symm.trans hfails
    rw [hid hs, hid hd]
    exact ⟨rfl, rfl⟩
  | report ho ht htr hs hd hreports =>
    cases loaded_brokenTree.symm.trans ho
    cases htarget.symm.trans ht
    cases translation_brokenTree.symm.trans htr
    obtain ⟨found, rows, hscored, hrows, -⟩ := hreports
    cases hfound.symm.trans hscored
    cases hrender.symm.trans hrows

/-- The catalog stops the run when all has been asked for, and the connection
is closed still. -/
theorem run_disciplined_brokenTree :
    let report := appHome.run brokenTree.entry halfDatabase plainArguments
    report.exitCode = 1 ∧ report.output = [] ∧
      report.databaseEvents = [.connected, .queried (.dataset plainId),
        .queried (.result plainId plainId), .closed] ∧
      ∃ lines, report.log = lines ++ failureLines "[sprintf] unexpected placeholder" := by
  intro report
  obtain ⟨hends, -, -, -, -, hfailed⟩ :=
    run_disciplined appHome brokenTree.entry halfDatabase plainArguments
  obtain ⟨hevents, houtcome⟩ := ends_brokenTree hends
  obtain ⟨houtput, hexit⟩ := RunReport.output_of_error houtcome
  have hne : report.exitCode ≠ 0 := by
    rw [show report.exitCode = 1 from hexit]
    exact Nat.one_ne_zero
  obtain ⟨-, -, failure, lines, text, hfailure, hsays, hlog⟩ := hfailed hne
  refine ⟨hexit, houtput, hevents, lines, ?_⟩
  cases hfailure.symm.trans houtcome
  cases hsays with
  | template hsays =>
    cases hsays
    exact hlog

end ContestGrading
