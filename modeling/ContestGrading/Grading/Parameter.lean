import ContestGrading.Json.Printer
import ContestGrading.Grading.Submission
/-!
# Parameters of a score type

A score type takes a list of subtasks, each a list of a weight, a target
and, last of what may follow, a title. The weight is a finite number that is
not negative; the target is a count of testcases or a pattern.

Results:
* `toJson_of_ofJson`: an accepted parameter is kept as it was written.
-/
namespace ContestGrading

/-- Which testcases a subtask takes. -/
inductive Target where
  /-- The next ones in order, as many as the number says. -/
  | count (number : Binary64)
  /-- Those whose codename starts with a match. -/
  | pattern (text : Text)
  deriving DecidableEq

/-- A weight that a subtask may have. -/
def ValidWeight (weight : Binary64) : Prop := weight.isFinite = true ∧ .zero ≤ weight

instance (weight : Binary64) : Decidable (ValidWeight weight) :=
  inferInstanceAs (Decidable (_ ∧ _))

structure Parameter where
  weight : Binary64
  weight_valid : ValidWeight weight
  target : Target
  /-- What stands between the target and the title. -/
  extras : List Json
  title : Option Text
  /-- Nothing follows the target but a title comes last. -/
  extras_titled : title = none → extras = []

/-- Why a score type cannot be built. -/
inductive ConfigurationError where
  | unknownScoreType (name : Text)
  | notAList
  /-- Subtasks are counted from one. -/
  | notASubtask (subtask : Nat) (found : Json)
  | badWeight (subtask : Nat)
  | badTarget (subtask : Nat)
  | badTitle (subtask : Nat)
  | duplicateCodenames
  | badCounts
  | wrongTotal (total : Binary64) (testcases : Nat)
  | badPattern (target : Text)
  | mixedTargets
  | noTestcases (subtask : Nat)

namespace ConfigurationError

def subtaskText (subtask : Nat) : Text := ("Subtask " : Text) ++ Decimal.natText subtask

def message : ConfigurationError → Text
  | .unknownScoreType name => ("Unknown score type: " : Text) ++ name
  | .notAList => "Score type parameters must be a list"
  | .notASubtask subtask found =>
    subtaskText subtask ++ (": expected [weight, target, title?], got " : Text) ++ found.print 0
  | .badWeight subtask =>
    subtaskText subtask ++ (": weight must be a non-negative number" : Text)
  | .badTarget subtask =>
    subtaskText subtask ++ (": target must be a testcase count or a regex" : Text)
  | .badTitle subtask => subtaskText subtask ++ (": title must be a string" : Text)
  | .duplicateCodenames => "Duplicate testcase codenames"
  | .badCounts => "Testcase counts must be non-negative integers"
  | .wrongTotal total testcases =>
    ("Subtasks cover " : Text) ++ total.toText ++ (" testcases, the dataset has " : Text) ++
      Decimal.natText testcases
  | .badPattern target => ("Invalid testcase regex " : Text) ++ target
  | .mixedTargets => "Subtask targets must be all testcase counts or all regexes"
  | .noTestcases subtask => subtaskText subtask ++ (" has no testcases" : Text)

end ConfigurationError

namespace Target

def ofJson? : Json → Option Target
  | .number x => some (.count x)
  | .string t => some (.pattern t)
  | _ => none

def toJson : Target → Json
  | .count x => .number x
  | .pattern t => .string t

theorem toJson_of_ofJson? {value : Json} {target : Target} (h : ofJson? value = some target) :
    target.toJson = value := by
  cases value <;> simp [ofJson?] at h <;> subst h <;> rfl

end Target

namespace Parameter

/-- The parameter as a list. -/
def toJson (p : Parameter) : Json :=
  .list (.number p.weight :: p.target.toJson :: (p.extras ++ p.title.toList.map .string))

/-- The weight, if it is a valid one. -/
def weight? : Json → Option { weight : Binary64 // ValidWeight weight }
  | .number x => if h : ValidWeight x then some ⟨x, h⟩ else none
  | _ => none

/-- What follows the target: nothing, or a list with a text at its end. -/
def titled? (rest : List Json) :
    Option { found : List Json × Option Text // found.2 = none → found.1 = [] } :=
  match rest.getLast? with
  | none => some ⟨([], none), fun _ => rfl⟩
  | some (.string title) => some ⟨(rest.dropLast, some title), nofun⟩
  | some _ => none

/-- The parameter of a subtask, counted from one. -/
def ofJson (subtask : Nat) : Json → Except ConfigurationError Parameter
  | .list (weight :: target :: rest) =>
    match weight? weight with
    | none => .error (.badWeight subtask)
    | some weight =>
      match Target.ofJson? target with
      | none => .error (.badTarget subtask)
      | some target =>
        match titled? rest with
        | none => .error (.badTitle subtask)
        | some found =>
          .ok ⟨weight.1, weight.2, target, found.1.1, found.1.2, found.2⟩
  | found => .error (.notASubtask subtask found)

/-- The parameters of the subtasks to come, the first of them counted. -/
def listFrom (subtask : Nat) : List Json → Except ConfigurationError (List Parameter)
  | [] => .ok []
  | found :: rest => do
    let p ← ofJson subtask found
    return p :: (← listFrom (subtask + 1) rest)

/-- The parameters of a score type. -/
def parse : Json → Except ConfigurationError (List Parameter)
  | .list found => listFrom 1 found
  | _ => .error .notAList

theorem toJson_of_titled? {rest : List Json}
    {found : { found : List Json × Option Text // found.2 = none → found.1 = [] }}
    (h : titled? rest = some found) : found.1.1 ++ found.1.2.toList.map .string = rest := by
  unfold titled? at h
  split at h
  next hl => cases h; simpa using (List.getLast?_eq_none_iff.mp hl).symm
  next title hl =>
    cases h
    obtain ⟨front, rfl⟩ := List.getLast?_eq_some_iff.mp hl
    simp
  next => cases h

theorem toJson_of_ofJson {subtask : Nat} {value : Json} {p : Parameter}
    (h : ofJson subtask value = .ok p) : p.toJson = value := by
  unfold ofJson at h
  split at h
  next weight target rest =>
    split at h
    next => cases h
    next w hw =>
      split at h
      next => cases h
      next t ht =>
        split at h
        next => cases h
        next found hf =>
          cases h
          unfold weight? at hw
          split at hw
          next x =>
            split at hw
            next hx =>
              cases hw
              simp only [toJson, Target.toJson_of_ofJson? ht, toJson_of_titled? hf]
            next => cases hw
          next => cases hw
  next => cases h

end Parameter

end ContestGrading
