import ContestGrading.Report.Run
/-!
# The command line

The program takes its options as arguments and the database, an object of
two collections, as JSON on standard input. The result goes to standard
output and the log to standard error, so that the two are kept apart; a
console that writes its log to standard output shows it before the result.
The level of the log is that of the run, verbose if the arguments ask for it
and informative if not. A level that is set in the environment is not looked
at.
-/
namespace ContestGrading.CommandLine

/-- The rest of a stream. -/
partial def readRest (stream : IO.FS.Stream) (done : ByteArray) : IO ByteArray := do
  let chunk ← stream.read 65536
  if chunk.isEmpty then return done else readRest stream (done ++ chunk)

/-- The document that the arguments name, if it can be read. -/
def namedFile (argv : List Text) : IO Files := do
  match Arguments.parse argv with
  | .error _ => return fun _ => .missing
  | .ok args =>
    match args.value? .config with
    | none => return fun _ => .missing
    | some path =>
      let found ←
        try
          let bytes ← IO.FS.readBinFile path.toString
          pure (FileEntry.content bytes.toList)
        catch
          | .noFileOrDirectory .. => pure FileEntry.missing
          | _ => pure FileEntry.unreachable
      return fun p => if p = path then found else .missing

/-- Writes the lines of the log that matter at the level of the run. -/
def writeLog (report : RunReport) : IO Unit := do
  for event in report.events do
    if let some (level, message) := event.logLine? then
      if level.rank ≤ report.level.rank then
        IO.eprintln (level.name ++ (": " : Text) ++ message).toString

end ContestGrading.CommandLine

open ContestGrading CommandLine in
def main (args : List String) : IO UInt32 := do
  let argv := args.map Text.ofString
  let files ← namedFile argv
  let input ← readRest (← IO.getStdin) ByteArray.empty
  match (Json.parse? (Text.decode input.toList)).bind Database.ofJson? with
  | none =>
    IO.eprintln "error: standard input holds no database"
    return 1
  | some db =>
    let report := run files db argv
    writeLog report
    IO.print report.output.toString
    return UInt32.ofNat report.exitCode
