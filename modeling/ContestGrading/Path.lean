import ContestGrading.Text.Basic
/-!
# Paths

A path is names with slashes between them and leads somewhere from the top
of the files, if a slash begins it, or else from where one is. An empty or
dotted name stays where it is and two dots go up; above the top there is
nothing, so a path from there loses the dots that would leave it, and any
other path keeps them in front. Paths are joined by their texts, and what is
joined is written in its shortest form.

Results:
* `resolve_append`: names are resolved one after the other.
-/
namespace ContestGrading

namespace Path

/-! ## Names -/

/-- The names between the slashes of a path. -/
def namesOf (path : Text) : List Text := path.splitOnP (· = 47)

def staysAt (name : Text) : Bool := name.isEmpty || name == Text.ofString "."

def goesUp (name : Text) : Bool := name == Text.ofString ".."

/-- The names so far, the last first, after one that goes up. -/
def up (absolute : Bool) : List Text → List Text
  | [] => if absolute then [] else [Text.ofString ".."]
  | name :: before => if goesUp name then Text.ofString ".." :: name :: before else before

/-- The names that are left when those that stay or go up are resolved,
behind `done` (the names so far, the last first). -/
def resolve (absolute : Bool) (done : List Text) : List Text → List Text
  | [] => done.reverse
  | name :: rest =>
    if staysAt name then resolve absolute done rest
    else if goesUp name then resolve absolute (up absolute done) rest
    else resolve absolute (name :: done) rest

/-- A name that neither stays nor goes up, and no slash in it. -/
def isOrdinary (name : Text) : Bool := !staysAt name && !goesUp name && !name.contains 47

theorem resolve_append (absolute : Bool) (done names others : List Text) :
    resolve absolute done (names ++ others) =
      resolve absolute (resolve absolute done names).reverse others := by
  induction names generalizing done with
  | nil => simp [resolve]
  | cons name rest ih =>
    simp only [List.cons_append, resolve]
    split
    · exact ih done
    · split
      · exact ih _
      · exact ih _

end Path

/-! ## Locations -/

/-- Where a path leads: from the top or from where one is, and by which names. -/
structure Location where
  absolute : Bool
  names : List Text
  deriving DecidableEq

namespace Location

/-- What is found there under a name. -/
def child (place : Location) (name : Text) : Location := ⟨place.absolute, place.names ++ [name]⟩

/-- The shortest path to a location. -/
def path (place : Location) : Text :=
  if place.absolute then 47 :: [47].intercalate place.names
  else if place.names.isEmpty then ("." : Text)
  else [47].intercalate place.names

/-- What paths to the names in a location begin with. -/
def folder (place : Location) : Text :=
  (if place.absolute then [47] else []) ++ place.names.flatMap (· ++ [47])

end Location

namespace Path

def isAbsolute (path : Text) : Bool := path.head? == some 47

/-- Where a path leads. -/
def locate (path : Text) : Location :=
  ⟨isAbsolute path, resolve (isAbsolute path) [] (namesOf path)⟩

/-- The shortest path to the same location; a slash at the end stays. -/
def normalize (path : Text) : Text :=
  let shortest := (locate path).path
  if path.getLast? = some 47 ∧ shortest ≠ [47] then shortest ++ [47] else shortest

/-- One path behind the other, without those that are empty. -/
def join (paths : List Text) : Text :=
  normalize ([47].intercalate (paths.filter fun path => !path.isEmpty))

end Path

end ContestGrading
