import ContestGrading.Locale.Basic
import ContestGrading.Template.Count
import ContestGrading.Template.Fill
/-!
# Status texts

A status is a template and its arguments. A template that starts like a
known failure of the execution is replaced, along with its arguments, by
guidance for the contestant. A malformed status never stops anything: it is
shown as the locale's `N/A`, and the failure is kept beside the text.

Results:
* `statusLine_ok`, `statusLine_error`: what is shown, and when there is a
  failure.
-/
namespace ContestGrading

/-- Why a status cannot be shown. -/
inductive StatusError where
  | notAList (kind : Text)
  /-- The first element, if there is one, is no text. -/
  | badTemplate (found : Option Json)
  | argumentCount (expected got : Nat)
  | badArgument (kind : Text)
  | template (error : TemplateError)

namespace StatusError

/-- A value in a message, its parts left out. -/
def describe : Option Json → Text
  | none => "undefined"
  | some .null => "null"
  | some (.bool b) => if b then "true" else "false"
  | some (.number x) => if x.isZero && x.negative then "-0" else x.toText
  | some (.string t) => t
  | some (.list _) => "[...]"
  | some (.object _) => "[object]"

def message : StatusError → Text
  | .notAList kind => ("Invalid type: " : Text) ++ kind
  | .badTemplate found => ("Invalid template: " : Text) ++ describe found
  | .argumentCount expected got =>
    ("Template expects " : Text) ++ Decimal.natText expected ++ (" argument(s), got " : Text) ++
      Decimal.natText got
  | .badArgument kind => ("Unsupported argument type: " : Text) ++ kind
  | .template error => error.message

end StatusError

namespace Status

/-- How templates of known failures start, and the guidance for each; the
first that fits is taken. -/
def guidance : List (Text × Text) := [
  ("Evaluation didn't produce file",
    "Output file was not produced. Check you are creating the output file with name given in " ++
      "the problem statement. You may wish to use or consult the templates for this problem."),
  ("Execution timed out",
    "Time limit exceeded before your program finished. This may be due to an infinite " ++
      "loop/recursion, or your algorithm may be too slow for this subtask"),
  ("Execution killed",
    "Program crashed. Possibly due to accessing or requesting invalid memory (e.g. " ++
      "out-of-bounds array access)"),
  ("Execution failed because the return code was nonzero",
    "Your program did not finish successfully (return code nonzero). Possibly due to an " ++
      "Exception or Error being thrown.")]

/-- The guidance for a template, if it starts like a known failure. -/
def guidance? (template : Text) : Option Text :=
  (guidance.find? fun g => g.1.isPrefixOf template).map (·.2)

/-- An argument of a status. -/
def argument : Json → Except StatusError Argument
  | .number x => .ok (.number x)
  | .string t => .ok (.text t)
  | found => .error (.badArgument found.kind)

/-- The arguments of a status; the first that is none is reported. -/
def arguments : List Json → Except StatusError (List Argument)
  | [] => .ok []
  | found :: rest => do
    let arg ← argument found
    return arg :: (← arguments rest)

/-- A template filled with as many arguments as it asks for. -/
def fillTemplate (template : Text) (args : List Json) : Except StatusError Text :=
  let expected := Template.countPlaceholders template
  if expected ≠ args.length then .error (.argumentCount expected args.length)
  else do
    let args ← arguments args
    (Template.format template args).mapError .template

/-- The text of a well-formed status. -/
def text (tr : Translation) : Json → Except StatusError Text
  | .list (.string template :: args) =>
    match guidance? template with
    | some advice => fillTemplate (tr.gettext advice) []
    | none => fillTemplate (tr.gettext template) args
  | .list found => .error (.badTemplate found.head?)
  | found => .error (.notAList found.kind)

end Status

/-- A status as it is shown, and the failure it hides. -/
structure StatusLine where
  text : Text
  failure : Option StatusError

/-- The text of a status, or the locale's `N/A` for a malformed one. -/
def statusLine (tr : Translation) (status : Json) : StatusLine :=
  match Status.text tr status with
  | .ok text => ⟨text, none⟩
  | .error error => ⟨tr.gettext "N/A", some error⟩

theorem statusLine_ok {tr : Translation} {status : Json} {text : Text}
    (h : Status.text tr status = .ok text) : statusLine tr status = ⟨text, none⟩ := by
  simp [statusLine, h]

theorem statusLine_error {tr : Translation} {status : Json} {error : StatusError}
    (h : Status.text tr status = .error error) :
    statusLine tr status = ⟨tr.gettext "N/A", some error⟩ := by
  simp [statusLine, h]

end ContestGrading
