import ContestGrading.Document
import ContestGrading.Path
/-!
# Files in memory

A directory tree is given by its files, each under the names that lead to
it; the directories are those on the way. A path is walked name by name:
an empty or dotted name stays, two dots go up, and any other name needs the
directory it is in. Nothing is known above the top but that there are
directories. The entries of a tree are files that a run can be given.

Results:
* `file?_put_self`: a file that is put is found under its names.
* `entry_nil`: an empty path leads nowhere.
-/
namespace ContestGrading

structure StoredFile where
  names : List Text
  bytes : List UInt8

/-- A directory tree; of two files under the same names the first counts. -/
structure FileTree where
  files : List StoredFile

namespace FileTree

def empty : FileTree := ⟨[]⟩

/-! ## Names -/

/-- The names between the slashes of a path. -/
abbrev namesOf (path : Text) : List Text := Path.namesOf path

/-- The names that are left when those that stay or go up are resolved from
the top, behind `done` (the names so far, the last first). -/
abbrev resolve (done names : List Text) : List Text := Path.resolve true done names

/-- The tree with one more file, in the place of an older one. -/
def put (tree : FileTree) (names : List Text) (bytes : List UInt8) : FileTree :=
  ⟨⟨names, bytes⟩ :: tree.files⟩

/-! ## Lookups -/

def file? (tree : FileTree) (names : List Text) : Option (List UInt8) :=
  (tree.files.find? fun f => f.names == names).map (·.bytes)

/-- The names lead to the top or are on the way to a file. -/
def isDirectory (tree : FileTree) (names : List Text) : Bool :=
  names.isEmpty || tree.files.any fun f => names.isPrefixOf f.names && f.names != names

/-- Where a walk has come to. -/
inductive Place where
  | inside (names : List Text)
  | above

def Place.up : Place → Place
  | .inside [] => .above
  | .inside names => .inside names.dropLast
  | .above => .above

/-- The longest name, in bytes. -/
def nameLimit : Nat := 255

/-- The longest path, in bytes. -/
def pathLimit : Nat := 4095

def byteLength (t : Text) : Nat := (Text.encode t).length

/-- What is found when the names to come are followed. -/
def walk (tree : FileTree) (place : Place) : List Text → FileEntry
  | [] => .directory
  | name :: rest =>
    if Path.staysAt name then walk tree place rest
    else if Path.goesUp name then walk tree place.up rest
    else if nameLimit < byteLength name then .unreachable
    else
      match place with
      | .above => .missing
      | .inside names =>
        match tree.file? (names ++ [name]) with
        | some bytes => if rest.isEmpty then .content bytes else .unreachable
        | none =>
          if tree.isDirectory (names ++ [name]) then walk tree (.inside (names ++ [name])) rest
          else .missing

/-- The files of the tree, by their paths from the top. -/
def entry (tree : FileTree) : Files := fun path =>
  if path.isEmpty then .missing
  else if pathLimit < byteLength path then .unreachable
  else tree.walk (if path.head? = some 47 then .above else .inside []) (namesOf path)

theorem file?_put_self (tree : FileTree) (names : List Text) (bytes : List UInt8) :
    (tree.put names bytes).file? names = some bytes := by
  simp [file?, put]

theorem entry_nil (tree : FileTree) : tree.entry [] = .missing := rfl

end FileTree

end ContestGrading
