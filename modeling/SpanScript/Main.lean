import SpanScript.Command

/-!
# The program

Reads the arguments, the log level and the template file, and writes what
`Command.runAtLevel` makes of them.
-/

open SpanScript

/-- The system's error code for reading a directory as a file. -/
def directoryCode : UInt32 := 21

/-- The bytes of a file, or what is wrong with it. -/
def readTemplate (path : String) : IO (Except FileProblem Bytes) := do
  try
    let bytes ← IO.FS.readBinFile path
    pure (.ok bytes.toList)
  catch e =>
    match e with
    | .noFileOrDirectory .. => pure (.error .notFound)
    | .inappropriateType _ code _ =>
      pure (.error (if code = directoryCode then .isDirectory else .notDirectory))
    | .permissionDenied .. => pure (.error .denied)
    | _ => pure (.error .nameTooLong)

def main (args : List String) : IO UInt32 := do
  let level ← IO.getEnv "ZIGGLE_LOG_LEVEL"
  let contents ← match Command.Request.ofArguments args with
    | .render path => readTemplate path
    | _ => pure (.error .notFound)
  let stdout ← IO.getStdout
  let stderr ← IO.getStderr
  match Command.runAtLevel level (fun _ => contents) args with
  | .reported r =>
    stdout.write (ByteArray.mk r.output.toArray)
    stdout.flush
    for line in r.errors do
      stderr.putStrLn line
    pure (UInt32.ofNat r.code)
  | .wrongLevel f =>
    stderr.putStrLn f.message
    pure 1
  | .escaped message =>
    stderr.putStrLn message
    pure 1
  | .unfinished => pure 1
