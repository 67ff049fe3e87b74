import ContestGrading.Proofs.Decimal.Digits
import ContestGrading.Report.Run
/-!
# What failures are called

Every error has a line of the log. Here the lines are listed, error by error,
with what each of them names.

Results:
* `Failure.says_message`: the line of a failure is the listed one.
-/
namespace ContestGrading

/-! ## Documents and settings -/

/-- The error of a document names its path. -/
inductive DocumentError.Says : DocumentError → Text → Prop where
  | badPath (path : Text) : Says (.badPath path) (path ++ (": not a path" : Text))
  | missing (path : Text) : Says (.missing path) (path ++ (": no such file" : Text))
  | unreadable (path : Text) : Says (.unreadable path) (path ++ (": not a readable file" : Text))
  | malformed (path : Text) : Says (.malformed path) (path ++ (": not a JSON text" : Text))
  | notAnObject (path : Text) :
    Says (.notAnObject path) (path ++ (": expected a JSON object at the top level" : Text))

/-- The name that an option has on the command line. -/
inductive OptionName.Called : OptionName → Text → Prop where
  | verbose : Called .verbose "verbose"
  | config : Called .config "config"
  | submission : Called .submission "submission"
  | dataset : Called .dataset "dataset"
  | locale : Called .locale "locale"

/-- The error of a setting names its path in the document, or its option. -/
inductive SettingsError.Says : SettingsError → Text → Prop where
  | alreadySet {option : OptionName} {name : Text} (h : option.Called name) (value : Text) :
    Says (.alreadySet ⟨option, value⟩)
      (("Singular option already set [" : Text) ++ name ++ ("=" : Text) ++ value ++ ("]" : Text))
  | document {error : DocumentError} {text : Text} (h : error.Says text) :
    Says (.document error) text
  | databaseNotAnObject : Says .databaseNotAnObject "config: mongoDB must be an object"
  | badFeedbackLevel :
    Says .badFeedbackLevel "config: feedbackLevel must be \"full\" or \"restricted\""
  | notText (setting : Text) :
    Says (.notText setting) (("config: " : Text) ++ setting ++ (" must be a string" : Text))
  | missingOption {option : OptionName} {name : Text} (h : option.Called name) :
    Says (.missingOption option) (("Missing option --" : Text) ++ name)

/-- The error of a locale names it, or the message of its catalog. -/
inductive LocaleError.Says : LocaleError → Text → Prop where
  | malformed (locale : Text) :
    Says (.malformed locale) (("Invalid locale identifier: " : Text) ++ locale)
  | unknown (locale : Text) : Says (.unknown locale) (("Unknown locale: " : Text) ++ locale)
  | document {error : DocumentError} {text : Text} (h : error.Says text) :
    Says (.document error) text
  | notText (file message : Text) :
    Says (.notText file message)
      (file ++ (": message \"" : Text) ++ message ++ ("\" is not a string" : Text))

/-! ## Scoring -/

/-- The error of a configuration names its subtask, counted from one. -/
inductive ConfigurationError.Says : ConfigurationError → Text → Prop where
  | unknownScoreType (name : Text) :
    Says (.unknownScoreType name) (("Unknown score type: " : Text) ++ name)
  | notAList : Says .notAList "Score type parameters must be a list"
  | notASubtask (subtask : Nat) (found : Json) :
    Says (.notASubtask subtask found)
      (("Subtask " : Text) ++ (subtask.repr : Text) ++
        (": expected [weight, target, title?], got " : Text) ++ found.print 0)
  | badWeight (subtask : Nat) :
    Says (.badWeight subtask)
      (("Subtask " : Text) ++ (subtask.repr : Text) ++
        (": weight must be a non-negative number" : Text))
  | badTarget (subtask : Nat) :
    Says (.badTarget subtask)
      (("Subtask " : Text) ++ (subtask.repr : Text) ++
        (": target must be a testcase count or a regex" : Text))
  | badTitle (subtask : Nat) :
    Says (.badTitle subtask)
      (("Subtask " : Text) ++ (subtask.repr : Text) ++ (": title must be a string" : Text))
  | duplicateCodenames : Says .duplicateCodenames "Duplicate testcase codenames"
  | badCounts : Says .badCounts "Testcase counts must be non-negative integers"
  | wrongTotal (total : Binary64) (testcases : Nat) :
    Says (.wrongTotal total testcases)
      (("Subtasks cover " : Text) ++ total.toText ++ (" testcases, the dataset has " : Text) ++
        (testcases.repr : Text))
  | badPattern (target : Text) :
    Says (.badPattern target) (("Invalid testcase regex " : Text) ++ target)
  | mixedTargets :
    Says .mixedTargets "Subtask targets must be all testcase counts or all regexes"
  | noTestcases (subtask : Nat) :
    Says (.noTestcases subtask)
      (("Subtask " : Text) ++ (subtask.repr : Text) ++ (" has no testcases" : Text))

/-- The error of stored data names the documents that do not fit. -/
inductive IntegrityError.Says : IntegrityError → Text → Prop where
  | noEvaluation (codename : Text) (subtask : Nat) :
    Says (.noEvaluation codename subtask)
      (("Testcase " : Text) ++ codename ++ (" of subtask " : Text) ++ (subtask.repr : Text) ++
        (" has no evaluation" : Text))
  | noDataset (dataset : Text) :
    Says (.noDataset dataset) (("Can not find dataset " : Text) ++ dataset)
  | noResult (submission dataset : Text) :
    Says (.noResult submission dataset)
      (("Can not find result of submission " : Text) ++ submission ++ (" on dataset " : Text) ++
        dataset)
  | reported (finding : Text) : Says (.reported finding) finding

inductive ScoringError.Says : ScoringError → Text → Prop where
  | configuration {error : ConfigurationError} {text : Text} (h : error.Says text) :
    Says (.configuration error) text
  | integrity {error : IntegrityError} {text : Text} (h : error.Says text) :
    Says (.integrity error) text
  | dataset (id : Text) : Says (.invalidId .dataset id) (("Invalid Dataset Id: " : Text) ++ id)
  | submission (id : Text) :
    Says (.invalidId .submission id) (("Invalid Submission Id: " : Text) ++ id)

/-! ## Rendering -/

/-- The error of a template names what it could not fill in. -/
inductive TemplateError.Says : TemplateError → Text → Prop where
  | unexpectedPlaceholder : Says .unexpectedPlaceholder "[sprintf] unexpected placeholder"
  | malformedKey : Says .malformedKey "[sprintf] failed to parse named argument key"
  | mixedSources :
    Says .mixedSources
      "[sprintf] mixing positional and named placeholders is not (yet) supported"
  | missingProperty (key before : Text) :
    Says (.missingProperty key (some before))
      (("[sprintf] Cannot access property \"" : Text) ++ key ++
        ("\" of undefined value \"" : Text) ++ before ++ ("\"" : Text))
  | missingFirst (key : Text) :
    Says (.missingProperty key none)
      (("[sprintf] Cannot access property \"" : Text) ++ key ++
        ("\" of undefined value \"" : Text) ++ ("undefined" : Text) ++ ("\"" : Text))
  | notANumber (kind : Text) :
    Says (.notANumber kind) (("[sprintf] expecting number but found " : Text) ++ kind)
  | misapplied : Says .misapplied "the conversion does not apply to the argument"
  | digitCount : Says .digitCount "digit count out of range"
  | tooLong : Says .tooLong "text too long"

/-! ## Failures -/

inductive Failure.Says : Failure → Text → Prop where
  | settings {error : SettingsError} {text : Text} (h : error.Says text) :
    Says (.settings error) text
  | locale {error : LocaleError} {text : Text} (h : error.Says text) : Says (.locale error) text
  | scoring {error : ScoringError} {text : Text} (h : error.Says text) :
    Says (.scoring error) text
  | template {error : TemplateError} {text : Text} (h : error.Says text) :
    Says (.template error) text

/-! ## The lines of the log -/

theorem DocumentError.says_message (e : DocumentError) : e.Says e.message := by
  cases e <;> constructor

theorem OptionName.called_name (o : OptionName) : o.Called o.name := by
  cases o <;> constructor

theorem SettingsError.says_message (e : SettingsError) : e.Says e.message := by
  cases e with
  | alreadySet error => exact .alreadySet error.option.called_name error.value
  | document error => exact .document error.says_message
  | missingOption option => exact .missingOption option.called_name
  | _ => constructor

theorem LocaleError.says_message (e : LocaleError) : e.Says e.message := by
  cases e with
  | document error => exact .document error.says_message
  | _ => constructor

theorem ConfigurationError.says_message (e : ConfigurationError) : e.Says e.message := by
  cases e <;> simp only [message, subtaskText, Decimal.natText_eq] <;> constructor

theorem IntegrityError.says_message (e : IntegrityError) : e.Says e.message := by
  cases e <;> simp only [message, Decimal.natText_eq] <;> constructor

theorem ScoringError.says_message (e : ScoringError) : e.Says e.message := by
  cases e with
  | configuration error => exact .configuration error.says_message
  | integrity error => exact .integrity error.says_message
  | invalidId what id => cases what <;> constructor

theorem TemplateError.says_message (e : TemplateError) : e.Says e.message := by
  cases e with
  | missingProperty key before => cases before <;> constructor
  | _ => constructor

/-- The line of a failure is the listed one. -/
theorem Failure.says_message (failure : Failure) : failure.Says failure.message := by
  cases failure with
  | settings error => exact .settings error.says_message
  | locale error => exact .locale error.says_message
  | scoring error => exact .scoring error.says_message
  | template error => exact .template error.says_message

end ContestGrading
