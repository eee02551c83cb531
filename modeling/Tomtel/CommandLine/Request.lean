import Tomtel.CommandLine.Argument
import Tomtel.Machine

/-!
# Requests

What a command line asks for, and what can be wrong with one.
-/

namespace Tomtel

/-- The flags that bound a run. At most one of them may be given. -/
inductive BoundFlag where
  | timeoutMs | maxSteps
  deriving DecidableEq, Repr

namespace BoundFlag

def word : BoundFlag → String
  | .timeoutMs => "--timeout-ms"
  | .maxSteps => "--max-steps"

/-- The watchdog of a flag with its value. A timeout of zero is none. -/
def watchdog (flag : BoundFlag) (value : UInt64) : Watchdog :=
  match flag with
  | .maxSteps => .instructionBudget value
  | .timeoutMs => if value = 0 then .unbounded else .wallClock (.ofMillis value)

end BoundFlag

structure RunRequest where
  input : Argument
  /-- Where the output goes, if not to standard output. -/
  output : Option Argument := none
  watchdog : Watchdog := .default
  legacy : Bool := false
  trace : Bool := false
  deriving DecidableEq, Repr

structure DisasmRequest where
  input : Argument
  start : UInt32 := 0
  /-- The greatest number of rows, if not all. -/
  count : Option UInt64 := none
  legacy : Bool := false
  deriving DecidableEq, Repr

inductive Request where
  | help
  | run (request : RunRequest)
  | disasm (request : DisasmRequest)
  deriving DecidableEq, Repr

/-- What is wrong with a command line. -/
inductive UsageError where
  | missingCommand
  | unknownCommand (command : Argument)
  | missingValue (flag : String)
  | invalidValue (flag : String) (value : Argument)
  | repeatedBound (flag : BoundFlag)
  | bothBounds
  | addressOutOfRange (value : UInt64)
  | unknownOption (option : Argument)
  | multipleInputs
  | missingInput
  deriving DecidableEq, Repr

def UsageError.message : UsageError → String
  | .missingCommand => "missing command"
  | .unknownCommand command => "unknown command: " ++ command.text
  | .missingValue flag => "missing value for " ++ flag
  | .invalidValue flag value => "invalid value for " ++ flag ++ ": " ++ value.text
  | .repeatedBound flag => flag.word ++ " given more than once"
  | .bothBounds => "--timeout-ms and --max-steps are mutually exclusive"
  | .addressOutOfRange value => "address out of range: 0x" ++ Hex.minimal value.toNat
  | .unknownOption option => "unknown option: " ++ option.text
  | .multipleInputs => "multiple input paths provided"
  | .missingInput => "missing input path"

def layoutOf (legacy : Bool) : ImmediateLayout :=
  if legacy then .legacyDuplicatedHighByte else .littleEndian

def RunRequest.config (request : RunRequest) : Config where
  watchdog := request.watchdog
  layout := layoutOf request.legacy
  tracing := request.trace

def DisasmRequest.layout (request : DisasmRequest) : ImmediateLayout :=
  layoutOf request.legacy

end Tomtel
