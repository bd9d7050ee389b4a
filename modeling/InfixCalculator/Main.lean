import InfixCalculator.CommandLine.Run
import Std.Time

/-!
# The command line program

`main` runs the command line on the files of the disk: it asks the disk what a run may want to know, prints what the
run prints and reports, and saves the file that the run makes.
-/

namespace InfixCalculator.CommandLine

/-- The bytes that the disk has at a path. -/
def diskRead (path : String) : IO (Except PathFault (List UInt8)) := do
  try
    let bytes ← IO.FS.readBinFile path
    return .ok bytes.toList
  catch
    | .noFileOrDirectory .. => return .error (.missing path)
    | e => return .error (.refused (toString e))

/-- Why the disk does not let a path be written: its folder is not there, or it is a folder. -/
def diskRefusal (path : String) : IO (Option PathFault) := do
  let here ← IO.currentDir
  if !(← (here / parentPath path).isDir) then return some (.missingFolder (parentPath path))
  if ← (here / path).isDir then return some (.isFolder path)
  return none

/-- The answers of the disk about the paths that the arguments name. -/
def diskFiles (args : Arguments) : IO Files := do
  let content ← args.file?.mapM diskRead
  let refusal ← args.outputPath?.mapM diskRefusal
  return { read := fun path => content.getD (.error (.missing path)), refusal := fun _ => refusal.join }

/-- The time of the records. -/
def recordTime : IO String := do
  return (← Std.Time.PlainDateTime.now).format "uuuu-MM-dd HH:mm:ss,SSS"

/-- What is said about words that make no sense. -/
def usage : String :=
  "usage: [--file FILE] [--column COLUMN] [--json] [--verbose] [--strict] [--no_partial] [--output_path PATH] " ++
    "[--log_level LEVEL] [expression]"

/-- The run of the words of a command line on the disk. -/
def runOnDisk (words : List String) : IO UInt32 := do
  let files ← diskFiles ((Arguments.parse words).toOption.getD {})
  match run Settings.standard files (← recordTime) words with
  | .error refusal =>
    IO.eprintln usage
    return (refusalCode refusal).toUInt32
  | .ok report =>
    match report.saved with
    | some (path, bytes) => IO.FS.writeBinFile path ⟨bytes.toArray⟩
    | none => pure ()
    IO.eprint report.stderr
    IO.print report.stdout
    match report.ending with
    | .ok exitCode => return exitCode.toUInt32
    | .error e =>
      IO.eprintln e.message
      return 1

end InfixCalculator.CommandLine

/-- The command line program. -/
def main (words : List String) : IO UInt32 :=
  InfixCalculator.CommandLine.runOnDisk words
