import Tomtel.CommandLine.Command

/-!
# The `tomtel` command

The host of a real command: the file system, the standard streams and the clock.
-/

namespace Tomtel.Host

/-- The number of a system error, which some calls give negated. -/
def errorNumber (code : UInt32) : UInt32 := min code (0 - code)

/-- The reason of a failed access to a file. -/
def fileError (e : IO.Error) : FileError :=
  match e with
  | .noFileOrDirectory .. => .notFound
  | .inappropriateType _ code _ =>
    if errorNumber code = 21 then .isDirectory else .notDirectory
  | .invalidArgument _ code reason =>
    if errorNumber code = 36 then .nameTooLong else .other reason
  | .resourceExhausted _ code reason =>
    if errorNumber code = 28 then .noSpace else .other reason
  | e => .other (toString e)

/-- What an access to the system answers. -/
def attempt {α : Type} (access : IO α) : IO (Except FileError α) := do
  try
    return .ok (← access)
  catch e =>
    return .error (fileError e)

/-- The layout of a record of the log. -/
def logLine (record : Record) : String :=
  let level := match record.level with
    | .debug => "DEBUG"
    | .trace => "TRACE"
  "[" ++ level ++ " " ++ record.target ++ "] " ++ record.message ++ "\n"

/-- The time since `started`, both in nanoseconds of the same clock. -/
def elapsedSince (started : Nat) : IO Duration := do
  let nanos := (← IO.monoNanosNow) - started
  let seconds := nanos / 1000000000
  return (Duration.ofParts? seconds.toUInt64 (nanos % 1000000000).toUInt32).getD .zero

/-- The system that the command is started on, where `started` is when its run began. -/
def system (started : IO.Ref Nat) : Host IO where
  read path := attempt do
    return (← IO.FS.readBinFile path.text).data
  write path bytes := attempt do
    IO.FS.withFile path.text .write fun file => do
      file.write ⟨bytes⟩
      file.flush
  print bytes := attempt do
    let stdout ← IO.getStdout
    stdout.write ⟨bytes⟩
    stdout.flush
  tell notice := IO.eprint (notice.text logLine)
  startClock := do
    started.set (← IO.monoNanosNow)
  elapsed _ := do
    elapsedSince (← started.get)

/-- The verbosity of a name, in either case. Nothing but errors is logged under any other name. -/
def verbosityOf (name : String) : Verbosity :=
  ([("off", .off), ("error", .error), ("warn", .warn), ("info", .info), ("debug", .debug),
    ("trace", .trace)].lookup name.toLower).getD .error

def verbosity : IO Verbosity := do
  return verbosityOf ((← IO.getEnv "RUST_LOG").getD "error")

end Tomtel.Host

def main (args : List String) : IO UInt32 := do
  let host := Tomtel.Host.system (← IO.mkRef 0)
  let status ← host.command (← Tomtel.Host.verbosity) (args.map Tomtel.Argument.ofString)
  return status.code
