import ContestGrading.Report.Encoding
import ContestGrading.Report.Installation
/-!
# A run of the program

A run loads the settings, over the defaults that are installed, finds the
translation among the installed catalogs, connects to the database, scores
the submission and prints the result with its rendered public breakdown. The
connection is closed however the scoring ends, and nothing is printed unless
everything went well.

Results:
* `exitCode_eq_zero_iff`: a run succeeds exactly if nothing failed.
-/
namespace ContestGrading

/-- Why a run fails. -/
inductive Failure where
  | settings (error : SettingsError)
  | locale (error : LocaleError)
  | scoring (error : ScoringError)
  | template (error : TemplateError)

def Failure.message : Failure → Text
  | .settings error => error.message
  | .locale error => error.message
  | .scoring error => error.message
  | .template error => error.message

/-- What happens in a run. -/
inductive Event where
  | file (access : FileAccess)
  | scoring (note : ScoringNote)
  /-- A status could not be shown. -/
  | statusFailed (error : StatusError)
  /-- The run failed. -/
  | failed (failure : Failure)

namespace Event

/-- A line of the log. -/
def logged (level : LogLevel) (message : Text) : Event := .scoring (.logged level message)

def statusFailedText : Text := "Unexpected error when formatting status text"

/-- The line that an event leaves in the log. -/
def logLine? : Event → Option (LogLevel × Text)
  | .scoring (.logged level message) => some (level, message)
  | .statusFailed _ => some (.error, statusFailedText)
  | .failed failure => some (.error, failure.message)
  | _ => none

end Event

/-- What a run leaves behind. -/
structure RunReport where
  events : List Event
  level : LogLevel
  outcome : Except Failure Text

namespace RunReport

/-- What is printed. -/
def output (r : RunReport) : Text :=
  match r.outcome with
  | .ok text => text
  | .error _ => []

def exitCode (r : RunReport) : Nat :=
  match r.outcome with
  | .ok _ => 0
  | .error _ => 1

theorem exitCode_eq_zero_iff (r : RunReport) :
    r.exitCode = 0 ↔ ∃ text, r.outcome = .ok text := by
  unfold exitCode
  cases r.outcome <;> simp

end RunReport

namespace Run

/-- A step of a run. -/
abbrev Step := Journal Event Failure

/-- The result of a submission with the rows of its public breakdown. -/
def resultText (s : SubmissionScore) (rows : List RenderedSubtask) : Text :=
  let feedback : Members Json := [("feedback", .list (rows.map RenderedSubtask.toJson))]
  (Json.object (s.toMembers ++ feedback)).print 4 ++ [10]

/-- Scores the submission and renders its public breakdown. -/
def scoreAndRender (db : Database) (tr : Translation) (level : FeedbackLevel)
    (submission dataset : Text) : Step Text := do
  let found ← (scoreSubmission db.store submission dataset).convert .scoring .scoring
  let rows ← (renderFeedback tr level found.result.publicSubtasks).convert .statusFailed .template
  return resultText found rows

/-- Everything after the settings are loaded. -/
def session (home : Installation) (files : Files) (db : Database) (o : Options) : Step Text := do
  let (submission, dataset) ← .ofExcept (o.target.mapError .settings)
  let tr ← (Locale.load files home.catalogs o.config.locale).convert .file .locale
  .note (.logged .info "Connecting to MongoDB...")
  .note (.scoring .connected)
  (scoreAndRender db tr o.config.feedbackLevel submission dataset).thenAlways [.scoring .closed]

/-- What is reported of a journal; a failure comes last. -/
def reportOf (level : LogLevel) (j : Step Text) : RunReport :=
  match j.outcome with
  | .ok _ => ⟨j.notes, level, j.outcome⟩
  | .error failure =>
    ⟨j.notes ++ [.logged .error "Scorer Error!", .failed failure], level, j.outcome⟩

end Run

open Run in
/-- A run with these arguments, over these files and documents. -/
def Installation.run (home : Installation) (files : Files) (db : Database) (argv : List Text) :
    RunReport :=
  let loaded : Step Options :=
    (Options.load files (.file home.defaults) argv).convert .file .settings
  let level :=
    match loaded.outcome with
    | .ok o => if o.verbose then .verbose else .info
    | .error _ => LogLevel.info
  reportOf level (loaded.andThen (session home files db))

/-- A run of the program as it is shipped. -/
def run (files : Files) (db : Database) (argv : List Text) : RunReport :=
  Installation.shipped.run (Installation.shipped.installedOver files) db argv

end ContestGrading
