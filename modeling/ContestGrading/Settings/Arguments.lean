import ContestGrading.Text.Blank
/-!
# Command line arguments

Options are named in full behind two hyphens, up to a blank, or by a letter
behind one. Letters may be run together. The verbose option is a flag; every other takes
one value, joined by an equals sign or as the next argument. What is not
understood is passed over, and an option that has its value is not set again.

Results:
* `set_of_value?`: a second setting is refused.
* `parse_nil`: without arguments nothing is set.
-/
namespace ContestGrading

/-- The options of the command line. -/
inductive OptionName where
  | verbose
  | config
  | submission
  | dataset
  | locale
  deriving DecidableEq

namespace OptionName

def all : List OptionName := [verbose, config, submission, dataset, locale]

def name : OptionName → Text
  | .verbose => "verbose"
  | .config => "config"
  | .submission => "submission"
  | .dataset => "dataset"
  | .locale => "locale"

/-- The letter that stands for the option. -/
def letter : OptionName → UInt16
  | .verbose => 118
  | .config => 99
  | .submission => 115
  | .dataset => 100
  | .locale => 108

def isFlag (o : OptionName) : Bool := o = .verbose

def ofName? (name : Text) : Option OptionName := all.find? fun o => o.name == name

def ofLetter? (u : UInt16) : Option OptionName := all.find? fun o => o.letter == u

end OptionName

/-- The options that have a value. -/
structure Arguments where
  values : List (OptionName × Text)

/-- An option is set that has a value already. -/
structure AlreadySet where
  option : OptionName
  value : Text
  deriving DecidableEq

namespace Arguments

def empty : Arguments := ⟨[]⟩

def value? (args : Arguments) (o : OptionName) : Option Text :=
  (args.values.find? fun v => v.1 == o).map (·.2)

/-- Sets an option; to nothing, where its value is yet to come. -/
def set (args : Arguments) (o : OptionName) (value : Option Text) :
    Except AlreadySet Arguments :=
  match args.value? o, value with
  | some old, _ => .error ⟨o, old⟩
  | none, none => .ok args
  | none, some value => .ok ⟨(o, value) :: args.values⟩

/-- The value of a flag that is set. -/
def flagText : Text := "true"

/-! ## Single arguments -/

/-- A letter that may stand behind one hyphen. -/
def isOptionLetter (u : UInt16) : Bool := !(Text.isDigit u || u = 45)

/-- Letters run together behind one hyphen, each on its own. -/
def separate : Text → List Text
  | 45 :: u :: v :: rest =>
    let letters := u :: v :: rest
    if letters.all isOptionLetter then letters.map fun u => [45, u] else [45 :: letters]
  | arg => [arg]

/-- What an argument is on its own. -/
inductive Word where
  /-- An option by its name or letter, if there is such an option. -/
  | option (found : Option OptionName)
  /-- An option with its value, if there is such an option. -/
  | setting (found : Option OptionName) (value : Text)
  | value
  deriving DecidableEq

/-- The name before the first equals sign, and the value up to a line end.
The name has at least one unit and no blank. -/
def splitSetting? (body : Text) : Option (Text × Text) :=
  match body with
  | [] => none
  | first :: rest =>
    let (others, after) := rest.span (· != 61)
    match after with
    | 61 :: value =>
      if (first :: others).any Text.isBlank then none
      else some (first :: others, value.takeWhile fun u => !Text.isLineEnd u)
    | _ => none

def classify : Text → Word
  | [45, u] => if isOptionLetter u then .option (OptionName.ofLetter? u) else .value
  | 45 :: 45 :: body =>
    match splitSetting? body with
    | some (name, value) => .setting (OptionName.ofName? name) value
    | none =>
      match body with
      | [] => .value
      | u :: _ =>
        if Text.isBlank u then .value
        else .option (OptionName.ofName? (body.takeWhile fun u => !Text.isBlank u))
  | _ => .value

/-! ## All arguments -/

/-- Takes one argument: what is set then, and the option that waits for a
value. -/
def take (args : Arguments) (waiting : Option OptionName) (arg : Text) :
    Except AlreadySet (Arguments × Option OptionName) :=
  match classify arg with
  | .option none => .ok (args, none)
  | .option (some o) =>
    if o.isFlag then (args.set o (some flagText)).map (·, none)
    else (args.set o none).map (·, some o)
  | .setting none _ => .ok (args, none)
  | .setting (some o) value =>
    (args.set o (some (if o.isFlag then flagText else value))).map (·, none)
  | .value =>
    match waiting with
    | none => .ok (args, none)
    | some o => (args.set o (some arg)).map (·, none)

/-- Takes the arguments to come. -/
def takeAll (args : Arguments) (waiting : Option OptionName) :
    List Text → Except AlreadySet Arguments
  | [] => .ok args
  | arg :: rest =>
    match take args waiting arg with
    | .error error => .error error
    | .ok (args, waiting) => takeAll args waiting rest

/-- The options that a command line sets. -/
def parse (argv : List Text) : Except AlreadySet Arguments :=
  takeAll .empty none (argv.flatMap separate)

theorem set_of_value? {args : Arguments} {o : OptionName} {old : Text}
    (h : args.value? o = some old) (value : Option Text) :
    args.set o value = .error ⟨o, old⟩ := by
  simp [set, h]

theorem parse_nil : parse [] = .ok .empty := rfl

end Arguments

end ContestGrading
