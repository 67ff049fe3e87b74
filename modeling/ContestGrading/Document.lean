import ContestGrading.Journal
import ContestGrading.Json.Parser
import ContestGrading.Text.Utf8
/-!
# Documents

A document is a file that holds one JSON object. Files are known by their
path alone; which of them are looked for and read is noted. A path with a
NUL names no file and is never looked for.

Results:
* `notes_readObject`: reading a document reads one file, the one named.
* `readObject_nul`: a path with a NUL is refused before any file is read.
-/
namespace ContestGrading

/-- What is found under a path. -/
inductive FileEntry where
  | missing
  | directory
  /-- The path leads through a file, or is longer than paths may be. -/
  | unreachable
  | content (bytes : List UInt8)
  deriving DecidableEq

/-- Something is there, be it readable or not. -/
def FileEntry.isPresent : FileEntry → Bool
  | .directory | .content _ => true
  | .missing | .unreachable => false

/-- The files there are, by their paths. -/
abbrev Files := Text → FileEntry

/-- What is asked of the files. -/
inductive FileAccess where
  | looked (path : Text)
  | read (path : Text)
  deriving DecidableEq

inductive DocumentError where
  /-- The path holds a NUL. -/
  | badPath (path : Text)
  /-- There is no such file. -/
  | missing (path : Text)
  /-- There is something else, or the path does not lead there. -/
  | unreadable (path : Text)
  /-- The file holds no JSON value. -/
  | malformed (path : Text)
  /-- The file holds a JSON value that is no object. -/
  | notAnObject (path : Text)
  deriving DecidableEq

def DocumentError.message : DocumentError → Text
  | .badPath path => path ++ ": not a path"
  | .missing path => path ++ ": no such file"
  | .unreadable path => path ++ ": not a readable file"
  | .malformed path => path ++ ": not a JSON text"
  | .notAnObject path => path ++ ": expected a JSON object at the top level"

/-- The object that the bytes hold; `path` names them in an error. -/
def objectOfBytes (path : Text) (bytes : List UInt8) : Except DocumentError (Members Json) :=
  match Json.parse? (Text.decode bytes) with
  | none => .error (.malformed path)
  | some (.object members) => .ok members
  | some _ => .error (.notAnObject path)

/-- The object in what is found under a path. -/
def objectOfEntry (path : Text) : FileEntry → Except DocumentError (Members Json)
  | .missing => .error (.missing path)
  | .directory | .unreachable => .error (.unreadable path)
  | .content bytes => objectOfBytes path bytes

/-- The object in a file. -/
def readObject (files : Files) (path : Text) :
    Journal FileAccess DocumentError (Members Json) :=
  if path.contains 0 then .fail (.badPath path)
  else ⟨[.read path], objectOfEntry path (files path)⟩

theorem notes_readObject (files : Files) {path : Text} (h : path.contains 0 = false) :
    (readObject files path).notes = [.read path] := by
  rw [readObject, if_neg (by rw [h]; decide)]

theorem readObject_nul (files : Files) {path : Text} (h : path.contains 0 = true) :
    readObject files path = .fail (.badPath path) := if_pos h

end ContestGrading
