/-
The command line.

It reads files and writes what a run leaves; everything else is decided by `CommandLine.runArgs`.
-/
import Transclude.CommandLine.Run

open Transclude

/-- What a failure to read a file is called. -/
def fileErrorOf : IO.Error → FileError
  | .noFileOrDirectory .. => .missing
  | .inappropriateType _ code text | .resourceExhausted _ code text
  | .permissionDenied _ code text | .invalidArgument _ code text | .noSuchThing _ code text
  | .alreadyExists _ code text | .otherError code text | .resourceBusy code text
  | .resourceVanished code text | .unsupportedOperation code text | .hardwareFault code text
  | .unsatisfiedConstraints code text | .illegalOperation code text | .protocolError code text
  | .timeExpired code text | .interrupted _ code text =>
    if code = 20 then .notDirectory
    else if code = 21 then .isDirectory
    else if code = 36 then .tooLong
    else .system code.toNat text
  | .unexpectedEof => .notText
  | .userError text => .system 0 text

/-- Reads the text of a file. -/
def readText (path : String) : IO (Except FileError String) := do
  try
    return FileTree.textOf (← IO.FS.readBinFile path)
  catch e =>
    return .error (fileErrorOf e)

/-- Runs the program; warnings go to the standard error before what the run says there. -/
def main (args : List String) : IO UInt32 := do
  let outcome ← CommandLine.runArgs readText args
  let out ← IO.getStdout
  let err ← IO.getStderr
  for w in outcome.warnings do
    err.putStrLn ("WARN " ++ w.message)
  out.putStr outcome.output
  out.flush
  err.putStr outcome.errors
  return outcome.code.toUInt32
