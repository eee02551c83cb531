import Tomtel.Instruction
import Tomtel.Machine

/-!
# What a machine reports

While it executes, a machine reports two kinds of entry in one order of time. Trace events say what
an instruction does to the machine, and are reported only if its configuration asks for them. Log
messages say how a run goes, at the level of detail of `Message.level`.
-/

namespace Tomtel

/-- A trace event. -/
inductive Event where
  /-- The instruction at `pc` with first byte `raw` is about to execute. -/
  | start (pc : UInt32) (raw : UInt8)
  | write (addr : UInt64) (value : UInt8)
  | output (byte : UInt8)
  /-- The `HALT` at `pc` has retired. -/
  | halted (pc : UInt32)
  /-- The instruction at `pc` could not be carried out. -/
  | faulted (fault : Fault) (pc : UInt32)
  deriving DecidableEq, Repr

/-- How detailed a log message is. -/
inductive Level where
  | debug | trace
  deriving DecidableEq, Repr

/-- A log message. -/
inductive Message where
  /-- A run begins at `pc` over an image of `size` bytes. -/
  | starting (pc : UInt32) (size : UInt64) (watchdog : Watchdog)
  /-- The instruction at `pc` is about to execute. -/
  | executing (pc : UInt32) (instruction : Instruction)
  | faulted (pc : UInt32) (fault : Fault)
  /-- The watchdog has ended a run after `steps` instructions. -/
  | expired (steps : UInt64) (pc : UInt32)
  /-- A `HALT` has ended a run as the last of `steps` instructions. -/
  | halted (steps outputSize : UInt64)
  deriving DecidableEq, Repr

namespace Message

def level : Message → Level
  | .executing .. => .trace
  | _ => .debug

def text : Message → String
  | .starting pc size watchdog =>
    "run starting at pc=0x" ++ Hex.word pc ++ " over " ++ size.toNat.repr ++
      " bytes, watchdog " ++ watchdog.text
  | .executing pc i => "0x" ++ Hex.word pc ++ ": " ++ i.text
  | .faulted pc fault => "fault at 0x" ++ Hex.word pc ++ ": " ++ fault.message
  | .expired steps pc =>
    "watchdog expired after " ++ steps.toNat.repr ++ " instructions at pc=0x" ++ Hex.word pc
  | .halted steps outputSize =>
    "halted after " ++ steps.toNat.repr ++ " instructions, " ++ outputSize.toNat.repr ++
      " output bytes"

end Message

inductive Entry where
  | event (e : Event)
  | message (m : Message)
  deriving DecidableEq, Repr

namespace Entry

def event? : Entry → Option Event
  | .event e => some e
  | .message _ => none

def message? : Entry → Option Message
  | .event _ => none
  | .message m => some m

end Entry

/-- The entry of an event, if the machine is configured to report it. -/
def Machine.traced (m : Machine) (e : Event) : List Entry :=
  if m.config.tracing then [.event e] else []

end Tomtel
