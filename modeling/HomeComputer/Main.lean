/-
The program.

Reads the command line and the image, lets the library do the work and writes what it
answers.  A running program is driven turn by turn, so that its output appears as it
is made.
-/
import HomeComputer.Console.Listing

namespace HomeComputer

namespace Program

/-- The bytes of a file.  A directory opens like a file and only then cannot be read, so
that failure alone names no path. -/
def readImage (path : String) : IO (Except FileFault (List Byte)) := do
  try
    let bytes ← IO.FS.readBinFile path
    return .ok (bytes.toList.map fun b => b.toBitVec)
  catch
    | .noFileOrDirectory .. => return .error .missing
    | .permissionDenied .. => return .error .forbidden
    | .inappropriateType (some _) .. => return .error .notDirectory
    | .inappropriateType none .. => return .error .directory
    | .invalidArgument .. => return .error .nameTooLong
    | e => throw e

def writeOutput (output : List Byte) : IO Unit := do
  if !output.isEmpty then
    let out ← IO.getStdout
    out.write (ByteArray.mk (output.map UInt8.ofBitVec).toArray)
    out.flush

/-- How long to rest after a turn in which nothing happened, in milliseconds. -/
def idleTime : UInt32 := 10

/-- Drives a session to its end. -/
partial def drive (o : Console.RunOptions) (s : Console.Session) : IO Unit := do
  match s.turn o with
  | .more output after =>
      writeOutput output
      if after.total == s.total then IO.sleep idleTime
      drive o after
  | .done output notes s =>
      writeOutput output
      IO.eprint (notes ++ s.summary)

/-- Writes what a command left behind. -/
def write (r : Console.Report) : IO UInt32 := do
  writeOutput r.output
  IO.eprint r.notes
  return UInt32.ofNat r.code

/-- Runs a program.  There is no network here, so a session that waits for a debugger
says that none will come and goes on. -/
def run (o : Console.RunOptions) : IO UInt32 := do
  match ← readImage o.path with
  | .error why => write (Console.Report.failure (.unreadableFile why o.path))
  | .ok image =>
      match o.prepare image with
      | .error fault => write (Console.Report.failure fault)
      | .ok machine =>
          if o.isDebugging then
            IO.eprintln "[rvbox] no debugger can connect"
          drive o { machine }
          return 0

end Program

end HomeComputer

open HomeComputer in
def main (args : List String) : IO UInt32 := do
  match Console.parse args with
  | none => Program.write Console.usageError
  | some (.run o) => Program.run o
  | some i =>
      let image ← match i.path? with
        | some path => Program.readImage path
        | none => pure (.ok [])
      match i.report image 0 with
      | some report => Program.write report
      | none => return 1
