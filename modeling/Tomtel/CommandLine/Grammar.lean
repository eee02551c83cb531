import Tomtel.CommandLine.Number
import Tomtel.CommandLine.Request

/-!
# The grammar of command lines

The arguments of a command are cut into groups from left to right: a flag with the argument after
it as its value, whatever that is, or an argument of its own. The groups are then taken one by one;
the first that asks for help or is wrong decides the answer.
-/

namespace Tomtel

/-- Why reading stops before the last group. -/
inductive Interruption where
  | help
  | error (e : UsageError)
  deriving DecidableEq, Repr

def helpWords : List String := ["--help", "-h"]

/-- The value of a flag that takes a number. -/
def numberFor (flag : String) (value : Option Argument) : Except UsageError UInt64 :=
  match value with
  | none => .error (.missingValue flag)
  | some arg =>
    match Number.parse? arg.bytes with
    | some n => .ok n
    | none => .error (.invalidValue flag arg)

/-- Takes an argument that is no flag as the input path, if there is none yet. -/
def inputFor (input : Option Argument) (arg : Argument) : Except UsageError Argument :=
  if arg.startsWithDash then .error (.unknownOption arg)
  else if input.isSome then .error .multipleInputs
  else .ok arg

/-! ### Running -/

inductive RunGroup where
  | help
  /-- The output flag, as it was spelled, and the path behind it. -/
  | output (flag : String) (path : Option Argument)
  | bound (flag : BoundFlag) (value : Option Argument)
  | legacy
  | trace
  | positional (arg : Argument)
  deriving DecidableEq, Repr

namespace RunGroup

/-- A flag that takes a value, as the group that it makes with one. -/
def valued? (arg : Argument) : Option (Option Argument → RunGroup) :=
  if arg.isAny ["-o"] then some (.output "-o")
  else if arg.isAny ["--output"] then some (.output "--output")
  else if arg.isAny ["--timeout-ms"] then some (.bound .timeoutMs)
  else if arg.isAny ["--max-steps"] then some (.bound .maxSteps)
  else none

/-- The group of an argument that takes no value. -/
def single (arg : Argument) : RunGroup :=
  if arg.isAny helpWords then .help
  else if arg.isAny ["--legacy-imm32"] then .legacy
  else if arg.isAny ["--trace"] then .trace
  else .positional arg

def ofArguments : List Argument → List RunGroup
  | [] => []
  | arg :: rest =>
    match valued? arg with
    | none => single arg :: ofArguments rest
    | some group =>
      match rest with
      | [] => [group none]
      | value :: rest => group (some value) :: ofArguments rest

end RunGroup

/-- A run request while its groups are taken. -/
structure RunDraft where
  input : Option Argument := none
  output : Option Argument := none
  bound : Option (BoundFlag × Watchdog) := none
  legacy : Bool := false
  trace : Bool := false
  deriving DecidableEq, Repr

namespace RunDraft

def take (draft : RunDraft) : RunGroup → Except Interruption RunDraft
  | .help => .error .help
  | .output flag none => .error (.error (.missingValue flag))
  | .output _ (some path) => .ok { draft with output := some path }
  | .bound flag value =>
    match draft.bound with
    | some (given, _) =>
      .error (.error (if given = flag then .repeatedBound flag else .bothBounds))
    | none =>
      match numberFor flag.word value with
      | .ok n => .ok { draft with bound := some (flag, flag.watchdog n) }
      | .error e => .error (.error e)
  | .legacy => .ok { draft with legacy := true }
  | .trace => .ok { draft with trace := true }
  | .positional arg =>
    match inputFor draft.input arg with
    | .ok input => .ok { draft with input := some input }
    | .error e => .error (.error e)

def finish (draft : RunDraft) : Except Interruption RunRequest :=
  match draft.input with
  | none => .error (.error .missingInput)
  | some input => .ok {
      input := input
      output := draft.output
      watchdog := match draft.bound with
        | some (_, watchdog) => watchdog
        | none => .default
      legacy := draft.legacy
      trace := draft.trace }

end RunDraft

/-- Reads the arguments behind `run`. -/
def RunRequest.parse (args : List Argument) : Except Interruption RunRequest := do
  let draft ← (RunGroup.ofArguments args).foldlM RunDraft.take {}
  draft.finish

/-! ### Listing -/

inductive DisasmGroup where
  | help
  | start (value : Option Argument)
  | count (value : Option Argument)
  | legacy
  | positional (arg : Argument)
  deriving DecidableEq, Repr

namespace DisasmGroup

/-- A flag that takes a value, as the group that it makes with one. -/
def valued? (arg : Argument) : Option (Option Argument → DisasmGroup) :=
  if arg.isAny ["--start"] then some .start
  else if arg.isAny ["--count"] then some .count
  else none

/-- The group of an argument that takes no value. -/
def single (arg : Argument) : DisasmGroup :=
  if arg.isAny helpWords then .help
  else if arg.isAny ["--legacy-imm32"] then .legacy
  else .positional arg

def ofArguments : List Argument → List DisasmGroup
  | [] => []
  | arg :: rest =>
    match valued? arg with
    | none => single arg :: ofArguments rest
    | some group =>
      match rest with
      | [] => [group none]
      | value :: rest => group (some value) :: ofArguments rest

end DisasmGroup

/-- The value of a flag that takes an address. -/
def addressFor (flag : String) (value : Option Argument) : Except UsageError UInt32 :=
  match numberFor flag value with
  | .ok n => if n < 0x100000000 then .ok n.toUInt32 else .error (.addressOutOfRange n)
  | .error e => .error e

/-- A listing request while its groups are taken. -/
structure DisasmDraft where
  input : Option Argument := none
  start : UInt32 := 0
  count : Option UInt64 := none
  legacy : Bool := false
  deriving DecidableEq, Repr

namespace DisasmDraft

def take (draft : DisasmDraft) : DisasmGroup → Except Interruption DisasmDraft
  | .help => .error .help
  | .start value =>
    match addressFor "--start" value with
    | .ok start => .ok { draft with start := start }
    | .error e => .error (.error e)
  | .count value =>
    match numberFor "--count" value with
    | .ok count => .ok { draft with count := some count }
    | .error e => .error (.error e)
  | .legacy => .ok { draft with legacy := true }
  | .positional arg =>
    match inputFor draft.input arg with
    | .ok input => .ok { draft with input := some input }
    | .error e => .error (.error e)

def finish (draft : DisasmDraft) : Except Interruption DisasmRequest :=
  match draft.input with
  | none => .error (.error .missingInput)
  | some input => .ok {
      input := input
      start := draft.start
      count := draft.count
      legacy := draft.legacy }

end DisasmDraft

/-- Reads the arguments behind `disasm`. -/
def DisasmRequest.parse (args : List Argument) : Except Interruption DisasmRequest := do
  let draft ← (DisasmGroup.ofArguments args).foldlM DisasmDraft.take {}
  draft.finish

/-- The request that a reading ends in, help included. -/
def Request.ofReading {α : Type} (make : α → Request) :
    Except Interruption α → Except UsageError Request
  | .ok request => .ok (make request)
  | .error .help => .ok .help
  | .error (.error e) => .error e

/-- Reads a whole command line, without the name of the program. -/
def Request.parse : List Argument → Except UsageError Request
  | [] => .error .missingCommand
  | command :: args =>
    if command.isAny helpWords then .ok .help
    else if command.isAny ["run"] then Request.ofReading .run (RunRequest.parse args)
    else if command.isAny ["disasm"] then Request.ofReading .disasm (DisasmRequest.parse args)
    else .error (.unknownCommand command)

end Tomtel
