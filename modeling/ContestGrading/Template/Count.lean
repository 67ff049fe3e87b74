import ContestGrading.Template.Parser
import ContestGrading.Text.Blank
/-!
# Counting placeholders

How many arguments a template asks for is counted before it is filled, with
a grammar of its own: an optional sign of either kind, a filling that is no
line end, a hyphen, a width, a precision and a conversion. A doubled percent
sign counts for nothing, and where no placeholder starts the count goes on
behind the percent sign.

Results:
* `countPlaceholders_nil`: an empty template asks for none.
* `countPlaceholders_percents`: nor does a doubled percent sign.
-/
namespace ContestGrading.Template

/-- The filling of a counted placeholder. -/
def skipFill (t : Text) : Text :=
  match t with
  | 48 :: rest => rest
  | 39 :: u :: rest => if Text.isLineEnd u then t else rest
  | _ => t

/-- A plus or a hyphen, if one comes next. -/
def skipSign (t : Text) : Text :=
  match t with
  | 43 :: rest => rest
  | 45 :: rest => rest
  | _ => t

/-- What follows a counted placeholder, read behind the percent sign. -/
def skipPlaceholder? (t : Text) : Option Text :=
  let t := (readFlag 45 (skipFill (skipSign t))).2
  let t := (readPrecision (readWidth t).2).2
  match t with
  | [] => none
  | u :: rest => if (Conversion.ofUnit? u).isSome then some rest else none

/-- The placeholders in the text to come, as many as fit into its length. -/
def countFrom : Nat → Text → Nat
  | 0, _ => 0
  | _, [] => 0
  | fuel + 1, 37 :: 37 :: rest => countFrom fuel rest
  | fuel + 1, 37 :: rest =>
    match skipPlaceholder? rest with
    | some rest => countFrom fuel rest + 1
    | none => countFrom fuel rest
  | fuel + 1, _ :: rest => countFrom fuel rest

/-- The number of arguments that a template asks for. -/
def countPlaceholders (t : Text) : Nat := countFrom t.length t

theorem countPlaceholders_nil : countPlaceholders [] = 0 := rfl

theorem countPlaceholders_percents : countPlaceholders [37, 37] = 0 := rfl

end ContestGrading.Template
