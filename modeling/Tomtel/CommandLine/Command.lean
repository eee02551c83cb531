import Tomtel.CommandLine.Grammar
import Tomtel.CommandLine.Notice
import Tomtel.Listing
import Tomtel.Machine.Run

/-!
# Commands

A command reads and writes whole files, tells notices and looks at a clock. How each of these is
done is up to its `Host`; what is done, and in what order, is said here once for all hosts.
`Host.command` is a whole command, from its arguments to its exit status. `run` writes what the
program put out however the run ended, and only then reports the ending.
-/

namespace Tomtel

/-- What a command asks of its surroundings. -/
structure Host (m : Type → Type) where
  /-- The whole content of a file. -/
  read : Argument → m (Except FileError (Array UInt8))
  /-- Makes the bytes the whole content of a file. -/
  write : Argument → Array UInt8 → m (Except FileError Unit)
  /-- Writes the bytes to standard output. -/
  print : Array UInt8 → m (Except FileError Unit)
  /-- Writes a notice to standard error. -/
  tell : Notice → m Unit
  /-- Starts the clock of a run. -/
  startClock : m Unit
  /-- What the clock shows once `steps` instructions have retired. -/
  elapsed : (steps : UInt64) → m Duration

namespace RunRequest

/-- The machine that a request runs over an image. -/
def machine (request : RunRequest) (image : Array UInt8) : Machine :=
  .boot request.config ⟨image⟩

/-- Adds what an entry shows to the notices before it. -/
def watch (verbosity : Verbosity) (notices : Array Notice) (entry : Entry) : Array Notice :=
  notices ++ verbosity.notices entry

end RunRequest

namespace Run

variable {σ : Type} (run : Run σ)

/-- How a run that ended so is reported, once its output has been written. -/
def verdict : ExitStatus × List Notice :=
  match run.result with
  | .ok ⟨.halted, _⟩ => (.success, [])
  | .ok ⟨.timedOut, steps⟩ => (.timedOut, [.expired steps run.machine.pc])
  | .error fault => (.failure, [.failure (.fault fault)])

/-- What is reported in the end, by the answer to the writing of the output. -/
def ending (answer : Except FileError Unit) : ExitStatus × List Notice :=
  match answer with
  | .error e => (.failure, [.failure (.writeOutput e)])
  | .ok () => run.verdict

end Run

/-- The listing of an image as text, a line for each row. -/
def DisasmRequest.listingText (request : DisasmRequest) (image : Array UInt8) : String :=
  let count := match request.count with
    | some count => count.toNat
    | none => image.size
  (Memory.listing ⟨image⟩ request.layout request.start count).foldl
    (fun text row => text ++ row.render ++ "\n") ""

namespace Host

variable {m : Type → Type} [Monad m] (host : Host m)

def tellAll (notices : List Notice) : m Unit :=
  notices.forM host.tell

/-- Ends a command that came to nothing. -/
def fail (failure : Failure) : m ExitStatus := do
  host.tell (.failure failure)
  return .failure

/-- Writes bytes to a file, or to standard output if none is named. -/
def deliver (target : Option Argument) (bytes : Array UInt8) : m (Except FileError Unit) :=
  match target with
  | none => host.print bytes
  | some path => host.write path bytes

/-- Tells what an entry shows. -/
def tellEntry (verbosity : Verbosity) (entry : Entry) : m Unit :=
  host.tellAll (verbosity.notices entry)

/-- Goes on with a run of which `steps` instructions have retired, by up to `count` more. The
watchdog is looked at before every step. -/
def advance (verbosity : Verbosity) (watchdog : Watchdog) :
    (count : Nat) → (steps : UInt64) → Machine → m (Run Unit)
  | count, steps, machine =>
    match machine.state with
    | .faulted fault => return ⟨machine, .error fault, ()⟩
    | .halted => return ⟨machine, .ok ⟨.halted, steps⟩, ()⟩
    | .running =>
      match count with
      | 0 => return ⟨machine, .ok ⟨.timedOut, steps⟩, ()⟩
      | count + 1 => do
        if watchdog.expired (← host.elapsed steps) steps then
          return ⟨machine, .ok ⟨.timedOut, steps⟩, ()⟩
        let attempt := machine.step
        attempt.entries.forM (host.tellEntry verbosity)
        match attempt.outcome with
        | .error fault => return ⟨attempt.machine, .error fault, ()⟩
        | .ok _ => advance verbosity watchdog count (steps + 1) attempt.machine

/-- Runs a machine, between the messages of a run. -/
def runMachine (verbosity : Verbosity) (watchdog : Watchdog) (machine : Machine) :
    m (Run Unit) := do
  let starting := Message.starting machine.pc machine.memory.length watchdog
  host.tellEntry verbosity (.message starting)
  host.startClock
  let run ← host.advance verbosity watchdog watchdog.allowance.toNat 0 machine
  run.closing?.forM fun message => host.tellEntry verbosity (.message message)
  return run

/-- Writes the output of a run and reports its ending. -/
def finish (target : Option Argument) (run : Run Unit) : m ExitStatus := do
  let answer ← host.deliver target run.machine.output.bytes
  let (status, notices) := run.ending answer
  host.tellAll notices
  return status

def run (verbosity : Verbosity) (request : RunRequest) : m ExitStatus := do
  match ← host.read request.input with
  | .error e => host.fail (.readImage request.input e)
  | .ok image =>
    host.tellAll (verbosity.logged (.loaded image.size.toUInt64 request.input))
    let run ← host.runMachine verbosity request.watchdog (request.machine image)
    host.finish request.output run

def disasm (verbosity : Verbosity) (request : DisasmRequest) : m ExitStatus := do
  match ← host.read request.input with
  | .error e => host.fail (.readImage request.input e)
  | .ok image =>
    host.tellAll (verbosity.logged (.loaded image.size.toUInt64 request.input))
    match ← host.deliver none (request.listingText image).toUTF8.data with
    | .error e => host.fail (.writeOutput e)
    | .ok () => return .success

def help : m ExitStatus := do
  match ← host.print (usageText ++ "\n").toUTF8.data with
  | .error _ => return .aborted
  | .ok () => return .success

def command (verbosity : Verbosity) (args : List Argument) : m ExitStatus := do
  match Request.parse args with
  | .error e =>
    host.tellAll [.failure (.usage e), .usage]
    return .failure
  | .ok .help => host.help
  | .ok (.run request) => host.run verbosity request
  | .ok (.disasm request) => host.disasm verbosity request

end Host

end Tomtel
