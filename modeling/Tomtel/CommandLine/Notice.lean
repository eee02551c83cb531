import Tomtel.CommandLine.Request
import Tomtel.Machine.Journal

/-!
# What a command tells

Besides its output a command writes notices to standard error, each ending with a line feed. Log
records among them are told only as far as the verbosity asks for them. How a record is laid out as
text is up to the log, and so `Notice.text` is given it.
-/

namespace Tomtel

/-- The help text, line by line. -/
def usageLines : List String := [
    "Usage: tomtel <command> [options]",
    "",
    "Commands:",
    "  run <image> [options]     Execute a raw memory image from address 0",
    "  disasm <image> [options]  List the instructions in a raw memory image",
    "",
    "Run options:",
    "  -o, --output <file>       Write the output stream to a file (default: stdout)",
    "  --timeout-ms <n>          Wall-clock watchdog in milliseconds, 0 disables it (default: 10000)",
    "  --max-steps <n>           Instruction budget instead of a wall-clock watchdog",
    "  --legacy-imm32            Build bits 16..23 of 32-bit immediates from byte 4",
    "  --trace                   Print trace events to stderr",
    "",
    "Disasm options:",
    "  --start <addr>            First address to decode (default: 0)",
    "  --count <n>               Maximum rows to print (default: whole image)",
    "  --legacy-imm32            Build bits 16..23 of 32-bit immediates from byte 4",
    "",
    "Options:",
    "  -h, --help                Show this help message",
    "",
    "Exit status: 0 halted, 1 error or fault, 2 watchdog expired.",
    "Set RUST_LOG=debug for run diagnostics."]

def usageText : String := String.join (usageLines.map (· ++ "\n"))

/-- Why a file could not be read or bytes could not be written. -/
inductive FileError where
  | notFound
  /-- A part of the path is a file where a directory is needed. -/
  | notDirectory
  | isDirectory
  | nameTooLong
  | noSpace
  /-- Any other reason, in the words of the system. -/
  | other (reason : String)
  deriving DecidableEq, Repr

def FileError.message : FileError → String
  | .notFound => "No such file or directory (os error 2)"
  | .notDirectory => "Not a directory (os error 20)"
  | .isDirectory => "Is a directory (os error 21)"
  | .nameTooLong => "File name too long (os error 36)"
  | .noSpace => "No space left on device (os error 28)"
  | .other reason => reason

/-- Why a command came to nothing. -/
inductive Failure where
  | usage (e : UsageError)
  | readImage (path : Argument) (e : FileError)
  | writeOutput (e : FileError)
  | fault (fault : Fault)
  deriving DecidableEq, Repr

def Failure.message : Failure → String
  | .usage e => e.message
  | .readImage path e => "failed to read " ++ path.text ++ ": " ++ e.message
  | .writeOutput e => "failed to write output: " ++ e.message
  | .fault f => "execution aborted: " ++ f.message

/-- How much is logged. -/
inductive Verbosity where
  | off | error | warn | info | debug | trace
  deriving DecidableEq, Repr

/-- Whether messages of this level are logged. -/
def Verbosity.shows : Verbosity → Level → Bool
  | .trace, _ => true
  | .debug, .debug => true
  | _, _ => false

/-- A record of the log. -/
inductive Record where
  /-- The command has read an image of `size` bytes. -/
  | loaded (size : UInt64) (path : Argument)
  | machine (message : Message)
  deriving DecidableEq, Repr

namespace Record

def level : Record → Level
  | .loaded .. => .debug
  | .machine message => message.level

/-- The part of the program that a record comes from. -/
def target : Record → String
  | .loaded .. => "tomtel"
  | .machine _ => "tomtel_core::execute"

def message : Record → String
  | .loaded size path => "loaded " ++ size.toNat.repr ++ " byte image from " ++ path.text
  | .machine message => message.text

end Record

/-- What shows a trace event. -/
def Event.text : Event → String
  | .start pc raw => "trace: " ++ Hex.word pc ++ " fetch " ++ Hex.byte raw
  | .write addr value =>
    "trace: mem[0x" ++ Hex.minimal addr.toNat ++ "] <- " ++ Hex.byte value
  | .output b => "trace: out " ++ Hex.byte b
  | .halted pc => "trace: " ++ Hex.word pc ++ " halt"
  | .faulted fault pc => "trace: " ++ Hex.word pc ++ " fault: " ++ fault.message

/-- What a command writes to standard error. -/
inductive Notice where
  | log (record : Record)
  | event (e : Event)
  /-- The watchdog ended the run after `steps` instructions. -/
  | expired (steps : UInt64) (pc : UInt32)
  | failure (failure : Failure)
  | usage
  deriving DecidableEq, Repr

/-- What is written for a notice, where `logLine` lays out the records of the log. -/
def Notice.text (logLine : Record → String) : Notice → String
  | .log record => logLine record
  | .event e => e.text ++ "\n"
  | .expired steps pc =>
    "warning: watchdog expired after " ++ steps.toNat.repr ++ " instructions at pc 0x" ++
      Hex.word pc ++ "\n"
  | .failure f => "error: " ++ f.message ++ "\n"
  | .usage => usageText ++ "\n"

/-- The notice of a record, if it is to be logged. -/
def Verbosity.logged (verbosity : Verbosity) (record : Record) : List Notice :=
  if verbosity.shows record.level then [.log record] else []

/-- The notice of an entry, if it is to be shown. -/
def Verbosity.notices (verbosity : Verbosity) : Entry → List Notice
  | .event e => [.event e]
  | .message message => verbosity.logged (.machine message)

inductive ExitStatus where
  | success | failure | timedOut
  /-- Standard output did not take the help text, which ends a command on the spot. -/
  | aborted
  deriving DecidableEq, Repr

def ExitStatus.code : ExitStatus → UInt32
  | .success => 0
  | .failure => 1
  | .timedOut => 2
  | .aborted => 101

end Tomtel
