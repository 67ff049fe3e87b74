import ContestGrading.Proofs.Journal
import ContestGrading.Proofs.Json.Keys
import ContestGrading.Proofs.Settings.Arguments
import ContestGrading.Settings.Config
/-!
# The layers of the settings

Every setting comes from the uppermost layer that gives it: the command
line, the document that it names, the defaults. A document gives the
settings of the database only in an object, so that any other value under
the database's key is passed over. What a document gives is refused if it
is of the wrong kind, also where a layer above gives the setting too.

Results:
* `validate_eq_ok_iff`, `validate_error`: what is valid, setting by setting.
* `find?_merge`: a setting in a document above another.
* `validate_merge`: a document above valid defaults.
* `load_merges`: the settings that are loaded, and why others are refused.
* `textAsDatabase_is_accepted`: no object under the database's key.
-/
namespace ContestGrading

/-- The settings that a document can give. -/
inductive Setting where
  | url
  | name
  | username
  | password
  | locale
  | level
  deriving DecidableEq

namespace Setting

/-- The setting is part of the description of the database. -/
def isOfDatabase : Setting → Bool
  | .url | .name | .username | .password => true
  | .locale | .level => false

def key : Setting → Text
  | .url => "url"
  | .name => "name"
  | .username => "username"
  | .password => "password"
  | .locale => Config.localeKey
  | .level => Config.levelKey

/-- The key behind the keys that lead to it. -/
def path (s : Setting) : Text :=
  (if s.isOfDatabase then Config.databaseKey ++ ("." : Text) else []) ++ s.key

/-- The members of a document among which the setting stands. -/
def among (s : Setting) (document : Members Json) : Members Json :=
  if s.isOfDatabase then (Config.object? document Config.databaseKey).getD [] else document

/-- The value that a document gives the setting. -/
def find? (s : Setting) (document : Members Json) : Option Json := (s.among document).get? s.key

/-- The value is of the right kind. -/
def Accepts : Setting → Json → Prop
  | .level, value => ∃ level, FeedbackLevel.ofJson? value = some level
  | _, value => ∃ t, value = .string t

/-- The document gives the setting a value of the wrong kind. -/
def Offends (s : Setting) (document : Members Json) : Prop :=
  ∃ value, s.find? document = some value ∧ ¬ s.Accepts value

/-- The error that tells of the setting. -/
def error : Setting → SettingsError
  | .level => .badFeedbackLevel
  | s => .notText s.path

theorem error_of_isOfDatabase {s : Setting} (h : s.isOfDatabase = true) :
    s.error = .notText s.path := by
  cases s with
  | level => cases h
  | _ => rfl

theorem accepts_of_isOfDatabase {s : Setting} (h : s.isOfDatabase = true) {value : Json} :
    s.Accepts value ↔ ∃ t, value = .string t := by
  cases s with
  | level => cases h
  | _ => exact Iff.rfl

/-- An error names the setting it tells of. -/
theorem path_infix_message (s : Setting) : s.path <:+: s.error.message := by
  cases s with
  | level => exact ⟨"config: ", " must be \"full\" or \"restricted\"", by decide +kernel⟩
  | _ => exact ⟨"config: ", " must be a string", rfl⟩

end Setting

/-- The value of a setting in a configuration. -/
def Config.value (cfg : Config) : Setting → Json
  | .url => .string cfg.database.url
  | .name => .string cfg.database.name
  | .username => .string cfg.database.username
  | .password => .string cfg.database.password
  | .locale => .string cfg.locale
  | .level => .string cfg.feedbackLevel.name

theorem FeedbackLevel.ofJson?_eq_some_iff {value : Json} {level : FeedbackLevel} :
    FeedbackLevel.ofJson? value = some level ↔ value = .string level.name := by
  constructor
  · intro h
    cases value with
    | string t =>
      have hname : (level.name == t) = true :=
        List.find?_some (p := fun level : FeedbackLevel => level.name == t) h
      rw [eq_of_beq hname]
    | _ => cases h
  · rintro rfl
    cases level <;> decide

namespace Config

variable {document : Members Json} {cfg : Config}

theorem accepts_value (cfg : Config) (s : Setting) : s.Accepts (cfg.value s) := by
  cases s with
  | level => exact ⟨cfg.feedbackLevel, FeedbackLevel.ofJson?_eq_some_iff.mpr rfl⟩
  | _ => exact ⟨_, rfl⟩

theorem requireText_eq_ok_iff {path key t : Text} :
    requireText document path key = .ok t ↔ document.get? key = some (.string t) := by
  unfold requireText
  split
  next t' ht => simp [ht]
  next hne =>
    constructor
    · intro h
      cases h
    · intro h
      exact absurd h (hne t)

theorem requireText_error {path key : Text} {e : SettingsError}
    (h : requireText document path key = .error e) :
    e = .notText (path ++ key) ∧ ∀ t, document.get? key ≠ some (.string t) := by
  unfold requireText at h
  split at h
  next => cases h
  next hne =>
    cases h
    exact ⟨rfl, hne⟩

theorem databaseOf_eq_ok_iff {members : Members Json} {d : DatabaseSettings} :
    databaseOf members = .ok d ↔
      members.get? "url" = some (.string d.url) ∧ members.get? "name" = some (.string d.name) ∧
      members.get? "username" = some (.string d.username) ∧
      members.get? "password" = some (.string d.password) := by
  simp only [databaseOf, bind_eq_ok_iff, requireText_eq_ok_iff]
  constructor
  · rintro ⟨url, hurl, name, hname, username, husername, password, hpassword, ⟨⟩⟩
    exact ⟨hurl, hname, husername, hpassword⟩
  · rintro ⟨hurl, hname, husername, hpassword⟩
    exact ⟨_, hurl, _, hname, _, husername, _, hpassword, rfl⟩

/-- A description of the database is refused for the first setting that is
no text. -/
theorem databaseOf_error {members : Members Json} {e : SettingsError}
    (h : databaseOf members = .error e) :
    ∃ s : Setting, s.isOfDatabase = true ∧ e = .notText s.path ∧
      ∀ t, members.get? s.key ≠ some (.string t) := by
  rcases bind_eq_error_iff.mp h with h | ⟨url, -, h⟩
  · exact ⟨.url, rfl, requireText_error h⟩
  rcases bind_eq_error_iff.mp h with h | ⟨name, -, h⟩
  · exact ⟨.name, rfl, requireText_error h⟩
  rcases bind_eq_error_iff.mp h with h | ⟨username, -, h⟩
  · exact ⟨.username, rfl, requireText_error h⟩
  rcases bind_eq_error_iff.mp h with h | ⟨password, -, h⟩
  · exact ⟨.password, rfl, requireText_error h⟩
  cases h

variable {database : Members Json}

theorem find?_of_database (hd : object? document databaseKey = some database) {s : Setting}
    (hs : s.isOfDatabase = true) : s.find? document = database.get? s.key := by
  rw [Setting.find?, Setting.among, if_pos hs, hd, Option.getD_some]

/-- A document is valid if it describes a database and gives every setting. -/
theorem validate_eq_ok_iff (hd : object? document databaseKey = some database) :
    validate document = .ok cfg ↔ ∀ s : Setting, s.find? document = some (cfg.value s) := by
  have hlevel : (document.get? levelKey).bind FeedbackLevel.ofJson? = some cfg.feedbackLevel ↔
      Setting.level.find? document = some (cfg.value .level) := by
    rw [Option.bind_eq_some_iff]
    simp only [FeedbackLevel.ofJson?_eq_some_iff]
    exact ⟨fun ⟨value, hvalue, h⟩ => hvalue.trans (congrArg some h), fun h => ⟨_, h, rfl⟩⟩
  rw [validate, hd]
  dsimp only
  constructor
  · intro h
    cases hl : (document.get? levelKey).bind FeedbackLevel.ofJson? with
    | none => rw [hl] at h; cases h
    | some level =>
      rw [hl] at h
      obtain ⟨d, hdatabase, h⟩ := bind_eq_ok_iff.mp h
      obtain ⟨locale, hlocale, h⟩ := bind_eq_ok_iff.mp h
      cases h
      obtain ⟨hurl, hname, husername, hpassword⟩ := databaseOf_eq_ok_iff.mp hdatabase
      intro s
      cases s with
      | url => rw [find?_of_database hd rfl]; exact hurl
      | name => rw [find?_of_database hd rfl]; exact hname
      | username => rw [find?_of_database hd rfl]; exact husername
      | password => rw [find?_of_database hd rfl]; exact hpassword
      | locale => exact requireText_eq_ok_iff.mp hlocale
      | level => exact hlevel.mp hl
  · intro h
    have hdatabase : databaseOf database = .ok cfg.database := by
      rw [databaseOf_eq_ok_iff]
      have hfind := fun s hs => (find?_of_database hd hs).symm.trans (h s)
      exact ⟨hfind .url rfl, hfind .name rfl, hfind .username rfl, hfind .password rfl⟩
    have hlocale : requireText document [] localeKey = .ok cfg.locale :=
      requireText_eq_ok_iff.mpr (h .locale)
    rw [hlevel.mpr (h .level)]
    dsimp only
    rw [hdatabase]
    show (requireText document [] localeKey >>= _) = _
    rw [hlocale]
    rfl

theorem object?_of_validate (h : validate document = .ok cfg) :
    ∃ database, object? document databaseKey = some database := by
  rw [validate] at h
  cases hd : object? document databaseKey with
  | none => rw [hd] at h; cases h
  | some database => exact ⟨database, rfl⟩

/-- Why a document that describes a database is refused. -/
theorem validate_error {e : SettingsError}
    (hd : object? document databaseKey = some database) (h : validate document = .error e) :
    ∃ s : Setting, e = s.error ∧ ∀ value, s.find? document = some value → ¬ s.Accepts value := by
  rw [validate, hd] at h
  dsimp only at h
  cases hl : (document.get? levelKey).bind FeedbackLevel.ofJson? with
  | none =>
    rw [hl] at h
    cases h
    refine ⟨.level, rfl, fun value hvalue haccepts => ?_⟩
    obtain ⟨level, hlevel⟩ := haccepts
    rw [show document.get? levelKey = some value from hvalue, Option.bind_some, hlevel] at hl
    cases hl
  | some level =>
    rw [hl] at h
    rcases bind_eq_error_iff.mp h with h | ⟨d, -, h⟩
    · obtain ⟨s, hs, rfl, hnone⟩ := databaseOf_error h
      refine ⟨s, (Setting.error_of_isOfDatabase hs).symm, fun value hvalue haccepts => ?_⟩
      obtain ⟨t, rfl⟩ := (Setting.accepts_of_isOfDatabase hs).mp haccepts
      exact hnone t ((find?_of_database hd hs).symm.trans hvalue)
    · rcases bind_eq_error_iff.mp h with h | ⟨locale, -, h⟩
      · obtain ⟨rfl, hnone⟩ := requireText_error h
        refine ⟨.locale, rfl, ?_⟩
        rintro _ hvalue ⟨t, rfl⟩
        exact hnone t hvalue
      · cases h

/-! ## Two documents -/

variable {lower upper : Members Json}

theorem object?_merge (lower upper : Members Json) :
    object? (merge lower upper) databaseKey =
      some (Members.overlay ((object? lower databaseKey).getD [])
        ((object? upper databaseKey).getD [])) := by
  rw [object?, merge, Members.get?_put_self]

/-- The keys are distinct in a document and in its description of the database. -/
def HasDistinctKeys (document : Members Json) : Prop :=
  (document.map (·.1)).Nodup ∧ (((object? document databaseKey).getD []).map (·.1)).Nodup

/-- A setting is taken from the upper document if that gives it. -/
theorem find?_merge (hupper : HasDistinctKeys upper) (s : Setting) :
    s.find? (merge lower upper) = (s.find? upper).or (s.find? lower) := by
  by_cases hs : s.isOfDatabase = true
  · rw [find?_of_database (object?_merge lower upper) hs, Members.get?_overlay _ hupper.2,
      Setting.find?, Setting.find?, Setting.among, Setting.among, if_pos hs, if_pos hs]
  · have hkey : s.key ≠ databaseKey := by
      cases s with
      | locale => decide
      | level => decide
      | _ => exact absurd rfl hs
    rw [Setting.find?, Setting.find?, Setting.find?, Setting.among, Setting.among, Setting.among,
      if_neg hs, if_neg hs, if_neg hs, merge, Members.get?_put_of_ne hkey,
      Members.get?_overlay _ hupper.1]

/-- Over valid defaults a document is refused only for a setting of the wrong
kind, and else what it gives is taken. -/
theorem validate_merge {D : Config} (hlower : validate lower = .ok D)
    (hupper : HasDistinctKeys upper) :
    (∀ cfg, validate (merge lower upper) = .ok cfg → (∀ s : Setting, ¬ s.Offends upper) ∧
      ∀ s, cfg.value s = (s.find? upper).getD (D.value s)) ∧
    (∀ e, validate (merge lower upper) = .error e →
      ∃ s : Setting, s.Offends upper ∧ e = s.error) := by
  obtain ⟨database, hd⟩ := object?_of_validate hlower
  have hD := (validate_eq_ok_iff hd).mp hlower
  have hmerged : ∀ s : Setting,
      s.find? (merge lower upper) = some ((s.find? upper).getD (D.value s)) := by
    intro s
    rw [find?_merge hupper, hD s, Option.or_some]
  refine ⟨fun cfg hcfg => ?_, fun e he => ?_⟩
  · have hvalues : ∀ s, cfg.value s = (s.find? upper).getD (D.value s) := fun s =>
      Option.some.inj (((validate_eq_ok_iff (object?_merge ..)).mp hcfg s).symm.trans (hmerged s))
    refine ⟨?_, hvalues⟩
    rintro s ⟨value, hvalue, hrefused⟩
    have hs := hvalues s
    rw [hvalue, Option.getD_some] at hs
    exact hrefused (hs ▸ cfg.accepts_value s)
  · obtain ⟨s, rfl, hrefused⟩ := validate_error (object?_merge ..) he
    have hs := hrefused _ (hmerged s)
    refine ⟨s, ?_, rfl⟩
    cases hfound : s.find? upper with
    | none =>
      rw [hfound, Option.getD_none] at hs
      exact absurd (D.accepts_value s) hs
    | some value =>
      rw [hfound, Option.getD_some] at hs
      exact ⟨value, hfound, hs⟩

end Config

/-! ## All layers -/

namespace Options

theorem hasDistinctKeys_of_distinctKeys {document : Members Json}
    (h : (Json.object document).DistinctKeys) : Config.HasDistinctKeys document := by
  cases h with
  | object hkeys hmembers =>
    refine ⟨hkeys, ?_⟩
    cases hd : Config.object? document Config.databaseKey with
    | none => exact List.nodup_nil
    | some database =>
      have hget : document.get? Config.databaseKey = some (.object database) := by
        unfold Config.object? at hd
        split at hd
        next found hfound => rw [hfound, Option.some.inj hd]
        next => cases hd
      obtain ⟨m, hm, hvalue⟩ := Option.map_eq_some_iff.mp hget
      cases hvalue ▸ hmembers m (List.mem_of_find?_eq_some hm) with
      | object hkeys _ => exact hkeys

theorem hasDistinctKeys_of_readObject {files : Files} {path : Text} {document : Members Json}
    (h : (readObject files path).outcome = .ok document) : Config.HasDistinctKeys document := by
  unfold readObject at h
  split at h
  next => cases h
  next =>
    change objectOfEntry path (files path) = .ok document at h
    cases hentry : files path <;> rw [hentry] at h
    case content bytes =>
      rw [objectOfEntry, objectOfBytes] at h
      split at h
      next => cases h
      next members hparse =>
        cases h
        exact hasDistinctKeys_of_distinctKeys (Json.distinctKeys_of_parse? hparse)
      next => cases h
    all_goals cases h

theorem hasDistinctKeys_of_readUser {files : Files} {path : Option Text} {document : Members Json}
    (h : (readUser files path).outcome = .ok document) : Config.HasDistinctKeys document := by
  cases path with
  | none =>
    cases h
    exact ⟨List.nodup_nil, List.nodup_nil⟩
  | some path => exact hasDistinctKeys_of_readObject (Journal.outcome_convert_ok.mp h)

/-- What is loaded from three layers that could be read. -/
theorem outcome_load {files : Files} {defaults : Defaults} {argv : List Text} {args : Arguments}
    {lower upper : Members Json} (hargs : Arguments.parse argv = .ok args)
    (hlower : (defaults.read files).outcome = .ok lower)
    (hupper : (readUser files (args.value? .config)).outcome = .ok upper) :
    (load files defaults argv).outcome =
      (Config.validate (Config.merge lower upper)).map fun config =>
        { verbose := (args.value? .verbose).isSome
          submission := args.value? .submission
          dataset := args.value? .dataset
          config := { config with locale := (args.value? .locale).getD config.locale } } := by
  rw [load, hargs]
  simp only [Journal.bind_eq]
  rw [Journal.outcome_andThen rfl, Journal.outcome_andThen hlower, Journal.outcome_andThen hupper]
  cases Config.validate (Config.merge lower upper) <;> rfl

/-- What the command line says of a setting. -/
def said (args : Arguments) : Setting → Option Json
  | .locale => (args.value? .locale).map .string
  | _ => none

/-- **The layers of the settings.** Over valid defaults, a command line that
names no option twice is refused only for a setting of the wrong kind in the
document that it names, with an error that names the setting. Else every
setting is what the command line says, or what the document gives, or the
default. -/
theorem load_merges {files : Files} {defaults : Defaults} {argv : List Text}
    {lower : Members Json} {D : Config} (hdefaults : (defaults.read files).outcome = .ok lower)
    (hvalid : Config.validate lower = .ok D) (honce : (Arguments.named argv).Nodup) :
    ∃ args, Arguments.parse argv = .ok args ∧
      ∀ upper, (readUser files (args.value? .config)).outcome = .ok upper →
        ((∃ o, (load files defaults argv).outcome = .ok o) ↔ ∀ s : Setting, ¬ s.Offends upper) ∧
        (∀ o, (load files defaults argv).outcome = .ok o → ∀ s,
          o.config.value s = (said args s).getD ((s.find? upper).getD (D.value s))) ∧
        (∀ e, (load files defaults argv).outcome = .error e →
          ∃ s : Setting, s.Offends upper ∧ e = s.error ∧ s.path <:+: e.message) := by
  obtain ⟨args, hargs⟩ := Arguments.parse_of_nodup honce
  refine ⟨args, hargs, fun upper hupper => ?_⟩
  obtain ⟨hvalues, hrefused⟩ :=
    Config.validate_merge hvalid (hasDistinctKeys_of_readUser hupper)
  rw [outcome_load hargs hdefaults hupper]
  cases hmerged : Config.validate (Config.merge lower upper) with
  | error e =>
    obtain ⟨s, hs, rfl⟩ := hrefused e hmerged
    refine ⟨⟨?_, fun hnone => absurd hs (hnone s)⟩, nofun, ?_⟩
    · rintro ⟨o, ho⟩
      cases ho
    · rintro _ ⟨⟩
      exact ⟨s, hs, rfl, s.path_infix_message⟩
  | ok cfg =>
    obtain ⟨hnone, hcfg⟩ := hvalues cfg hmerged
    refine ⟨⟨fun _ => hnone, fun _ => ⟨_, rfl⟩⟩, ?_, nofun⟩
    rintro _ ⟨⟩ s
    rw [← hcfg s]
    cases s with
    | locale =>
      cases hsaid : args.value? .locale <;> simp [said, Config.value, hsaid]
    | _ => rfl

/-! ## A document above the shipped defaults -/

def shippedConfig : Config :=
  ⟨⟨"localhost:27017", "contest", "scorer", "test-secret"⟩, "en", .restricted⟩

theorem validate_shippedMembers : Config.validate Defaults.shippedMembers = .ok shippedConfig := by
  decide +kernel

def userPath : Text := "u.json"

/-- One file with this document. -/
def userFile (document : String) : Files := fun path =>
  if path = userPath then .content (Text.encode (Text.ofString document)) else .missing

def urlAndLevel : String := "\x7b\"mongoDB\": \x7b\"url\": \"db:1\"\x7d, \"feedbackLevel\": \"full\"\x7d"

/-- The command line that names the file, and a locale. -/
def configAndLocale : List Text := ["--config", userPath, "--locale", "it"]

theorem parse_configAndLocale :
    Arguments.parse configAndLocale = .ok ⟨[(.locale, "it"), (.config, userPath)]⟩ := rfl

theorem isOk_readUser_urlAndLevel :
    (readUser (userFile urlAndLevel) (some userPath)).outcome.isOk = true := by decide +kernel

theorem load_merges_urlAndLevel :
    (Arguments.named configAndLocale).Nodup ∧
      ∃ args upper o, Arguments.parse configAndLocale = .ok args ∧
        (readUser (userFile urlAndLevel) (args.value? .config)).outcome = .ok upper ∧
        (load (userFile urlAndLevel) .shipped configAndLocale).outcome = .ok o ∧
        (∀ s : Setting, ¬ s.Offends upper) ∧
        (∀ s, o.config.value s = (said args s).getD ((s.find? upper).getD (shippedConfig.value s))) ∧
        o.config = ⟨⟨"db:1", "contest", "scorer", "test-secret"⟩, "it", .full⟩ := by
  have honce : (Arguments.named configAndLocale).Nodup := by decide
  have hload : (load (userFile urlAndLevel) .shipped configAndLocale).outcome = .ok
      ⟨false, none, none, ⟨⟨"db:1", "contest", "scorer", "test-secret"⟩, "it", .full⟩⟩ := by
    decide +kernel
  obtain ⟨args, hargs, hlayers⟩ := @load_merges (userFile urlAndLevel) .shipped configAndLocale _ _
    rfl validate_shippedMembers honce
  obtain rfl := Except.ok.inj (hargs.symm.trans parse_configAndLocale)
  obtain ⟨upper, hupper⟩ := eq_ok_of_isOk isOk_readUser_urlAndLevel
  obtain ⟨hsucceeds, hvalues, -⟩ := hlayers upper hupper
  exact ⟨honce, _, upper, _, hargs, hupper, hload, hsucceeds.mp ⟨_, hload⟩, hvalues _ hload, rfl⟩

/-- A document with a text where the description of the database belongs. -/
def textAsDatabase : String := "\x7b\"mongoDB\": \"db:1\"\x7d"

/-- The text is passed over and the defaults are loaded, although the same
document is refused by itself for that text. -/
theorem textAsDatabase_is_accepted :
    (¬ ∀ files argv args upper, Arguments.parse argv = .ok args →
      (readUser files (args.value? .config)).outcome = .ok upper →
      (∃ o, (load files .shipped argv).outcome = .ok o) →
      ∀ value, upper.get? Config.databaseKey = some value → ∃ members, value = .object members) ∧
    (load (userFile textAsDatabase) .shipped ["--config", userPath]).outcome =
      .ok ⟨false, none, none, shippedConfig⟩ ∧
    ((readUser (userFile textAsDatabase) (some userPath)).outcome.bind Config.validate) =
      .error .databaseNotAnObject := by
  have hload : (load (userFile textAsDatabase) .shipped ["--config", userPath]).outcome =
      .ok ⟨false, none, none, shippedConfig⟩ := by
    decide +kernel
  have hrefused : ((readUser (userFile textAsDatabase) (some userPath)).outcome.bind
      Config.validate) = .error .databaseNotAnObject := by
    decide +kernel
  have hkind : (readUser (userFile textAsDatabase) (some userPath)).outcome.map (fun document =>
      (document.get? Config.databaseKey).map Json.kind) = .ok (some "string") := by
    decide +kernel
  refine ⟨fun hall => ?_, hload, hrefused⟩
  cases hupper : (readUser (userFile textAsDatabase) (some userPath)).outcome with
  | error e => rw [hupper] at hkind; cases hkind
  | ok upper =>
    rw [hupper] at hkind
    obtain ⟨value, hvalue, hstring⟩ := Option.map_eq_some_iff.mp (Except.ok.inj hkind)
    obtain ⟨members, rfl⟩ := hall _ _ ⟨[(.config, userPath)]⟩ upper rfl hupper ⟨_, hload⟩ value hvalue
    have hkinds : ("object" : Text) ≠ "string" := by decide
    exact hkinds hstring

end Options

end ContestGrading
