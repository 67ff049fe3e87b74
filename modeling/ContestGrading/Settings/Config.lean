import ContestGrading.Document
import ContestGrading.Grading.Rendering
import ContestGrading.Settings.Arguments
/-!
# Settings

The settings are merged from three layers: the defaults, a document that the
command line may name, and the command line itself. Where both documents
describe the database, they are merged member by member. What results is
then checked.

Results:
* `get?_overlay`: the upper layer wins member by member.
-/
namespace ContestGrading

/-- Where the database is and how to sign in. -/
structure DatabaseSettings where
  url : Text
  name : Text
  username : Text
  password : Text
  deriving DecidableEq

structure Config where
  database : DatabaseSettings
  locale : Text
  feedbackLevel : FeedbackLevel
  deriving DecidableEq

/-- What a run of the program is asked to do. -/
structure Options where
  verbose : Bool
  submission : Option Text
  dataset : Option Text
  config : Config
  deriving DecidableEq

inductive SettingsError where
  | alreadySet (error : AlreadySet)
  | document (error : DocumentError)
  | databaseNotAnObject
  | badFeedbackLevel
  /-- A setting, named by its path, is no text. -/
  | notText (setting : Text)
  | missingOption (option : OptionName)
  deriving DecidableEq

def SettingsError.message : SettingsError → Text
  | .alreadySet error =>
    ("Singular option already set [" : Text) ++ error.option.name ++ ("=" : Text) ++
      error.value ++ ("]" : Text)
  | .document error => error.message
  | .databaseNotAnObject => "config: mongoDB must be an object"
  | .badFeedbackLevel => "config: feedbackLevel must be \"full\" or \"restricted\""
  | .notText setting => ("config: " : Text) ++ setting ++ (" must be a string" : Text)
  | .missingOption option => ("Missing option --" : Text) ++ option.name

namespace FeedbackLevel

def name : FeedbackLevel → Text
  | .full => "full"
  | .restricted => "restricted"

def ofJson? : Json → Option FeedbackLevel
  | .string t => [full, restricted].find? fun level => level.name == t
  | _ => none

end FeedbackLevel

namespace Members

/-- The members of both, the upper ones in the place of lower ones of the
same key. -/
def overlay {α : Type} (lower upper : Members α) : Members α :=
  upper.foldl (fun members m => put m.1 m.2 members) lower

theorem get?_overlay {α : Type} (lower : Members α) {upper : Members α}
    (h : (upper.map (·.1)).Nodup) (key : Text) :
    (overlay lower upper).get? key = (upper.get? key).or (lower.get? key) := by
  induction upper generalizing lower with
  | nil => rfl
  | cons m rest ih =>
    have hr := List.nodup_cons.mp h
    rw [show overlay lower (m :: rest) = overlay (put m.1 m.2 lower) rest from rfl, ih _ hr.2]
    by_cases hm : m.1 = key
    · subst hm
      have hn : get? rest m.1 = none := by
        simp only [get?, Option.map_eq_none_iff, List.find?_eq_none, beq_iff_eq]
        exact fun x hx e => hr.1 (List.mem_map.mpr ⟨x, hx, e⟩)
      rw [hn, get?_put_self]
      simp [get?]
    · rw [get?_put_of_ne (fun e => hm e.symm)]
      simp [get?, hm]

end Members

namespace Config

def databaseKey : Text := "mongoDB"
def levelKey : Text := "feedbackLevel"
def localeKey : Text := "locale"

/-- The text under a key; `path` stands before the key in an error. -/
def requireText (members : Members Json) (path key : Text) : Except SettingsError Text :=
  match members.get? key with
  | some (.string t) => .ok t
  | _ => .error (.notText (path ++ key))

/-- The object under a key. -/
def object? (members : Members Json) (key : Text) : Option (Members Json) :=
  match members.get? key with
  | some (.object found) => some found
  | _ => none

/-- The settings of the database. -/
def databaseOf (members : Members Json) : Except SettingsError DatabaseSettings := do
  let path : Text := databaseKey ++ ("." : Text)
  let url ← requireText members path "url"
  let name ← requireText members path "name"
  let username ← requireText members path "username"
  let password ← requireText members path "password"
  return ⟨url, name, username, password⟩

/-- The settings that the members of an object give. -/
def validate (members : Members Json) : Except SettingsError Config :=
  match object? members databaseKey with
  | none => .error .databaseNotAnObject
  | some database =>
    match (members.get? levelKey).bind FeedbackLevel.ofJson? with
    | none => .error .badFeedbackLevel
    | some level => do
      let database ← databaseOf database
      let locale ← requireText members [] localeKey
      return ⟨database, locale, level⟩

/-- The defaults under the members of a second document, the descriptions of
the database merged on their own. -/
def merge (defaults user : Members Json) : Members Json :=
  let database :=
    Members.overlay ((object? defaults databaseKey).getD []) ((object? user databaseKey).getD [])
  Members.put databaseKey (.object database) (Members.overlay defaults user)

end Config

/-- Where the defaults come from. -/
inductive Defaults where
  | shipped
  | file (path : Text)
  deriving DecidableEq

namespace Defaults

/-- The defaults that come with the program. -/
def shippedMembers : Members Json := [
  (Config.databaseKey, .object [
    ("url", .string "localhost:27017"),
    ("name", .string "contest"),
    ("username", .string "scorer"),
    ("password", .string "test-secret")]),
  (Config.localeKey, .string "en"),
  (Config.levelKey, .string "restricted")]

def read (files : Files) : Defaults → Journal FileAccess SettingsError (Members Json)
  | .shipped => .done shippedMembers
  | .file path => (readObject files path).convert id .document

end Defaults

namespace Options

/-- The document that the command line names, nothing if it names none. -/
def readUser (files : Files) : Option Text → Journal FileAccess SettingsError (Members Json)
  | none => .done []
  | some path => (readObject files path).convert id .document

/-- What a command line asks for. -/
def load (files : Files) (defaults : Defaults) (argv : List Text) :
    Journal FileAccess SettingsError Options := do
  let args ← .ofExcept ((Arguments.parse argv).mapError .alreadySet)
  let lower ← defaults.read files
  let upper ← readUser files (args.value? .config)
  let config ← .ofExcept (Config.validate (Config.merge lower upper))
  return {
    verbose := (args.value? .verbose).isSome
    submission := args.value? .submission
    dataset := args.value? .dataset
    config := { config with locale := (args.value? .locale).getD config.locale } }

/-- An option that is given and not empty. -/
def require (option : OptionName) : Option Text → Except SettingsError Text
  | none => .error (.missingOption option)
  | some t => if t.isEmpty then .error (.missingOption option) else .ok t

/-- The submission to score and the dataset to score it against. -/
def target (o : Options) : Except SettingsError (Text × Text) := do
  let submission ← require .submission o.submission
  let dataset ← require .dataset o.dataset
  return (submission, dataset)

end Options

end ContestGrading
