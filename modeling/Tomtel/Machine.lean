import Tomtel.Memory
import Tomtel.Output
import Tomtel.Watchdog

/-!
# The machine

A machine is its configuration, registers, memory and output, and whether it can go on. A halted or
faulted machine stays as it is until `Machine.reset`.
-/

namespace Tomtel

structure Config where
  /-- The bound of a run that names none of its own. -/
  watchdog : Watchdog := .default
  layout : ImmediateLayout := .littleEndian
  /-- Whether steps report trace events. -/
  tracing : Bool := false
  deriving DecidableEq, Repr

inductive RunState where
  | running
  /-- A `HALT` has retired. -/
  | halted
  /-- An instruction could not be carried out, for this reason. -/
  | faulted (fault : Fault)
  deriving DecidableEq, Repr

namespace RunState

def fault? : RunState → Option Fault
  | .faulted fault => some fault
  | _ => none

/-- Whether nothing further executes. -/
def isTerminal : RunState → Bool
  | .running => false
  | _ => true

end RunState

structure Machine where
  config : Config := {}
  regs : RegisterFile := {}
  memory : Memory
  output : Output := {}
  state : RunState := .running
  deriving DecidableEq, Repr

namespace Machine

/-- A machine at power-on. -/
def boot (config : Config) (memory : Memory) : Machine where
  config := config
  memory := memory

def pc (m : Machine) : UInt32 := m.regs.pc

def setPc (m : Machine) (v : UInt32) : Machine :=
  { m with regs := m.regs.setWide .pc v }

def setPtr (m : Machine) (v : UInt32) : Machine :=
  { m with regs := m.regs.setWide .ptr v }

/-- Clears registers, output and run state. Memory and configuration stay. -/
def reset (m : Machine) : Machine := boot m.config m.memory

@[simp] theorem pc_setPc (m : Machine) (v : UInt32) : (m.setPc v).pc = v := rfl

@[simp] theorem setPc_pc (m : Machine) : m.setPc m.pc = m := rfl

@[simp] theorem setPc_setPc (m : Machine) (v w : UInt32) :
    (m.setPc v).setPc w = m.setPc w := rfl

end Machine

end Tomtel
