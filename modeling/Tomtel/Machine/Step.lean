import Tomtel.Instruction.Decode
import Tomtel.Machine.Journal

/-!
# Executing one instruction

An instruction is first turned into its `Effect`, the one change that it makes, or a fault. Only an
effect touches the machine, so an instruction that faults changes nothing.

`Machine.step` fetches the instruction at `pc`, moves `pc` behind it and executes it; a jump then
overrides that move. If anything on the way faults, `pc` is put back and the fault is latched.
-/

namespace Tomtel

/-- The change that an instruction makes, apart from moving `pc` behind itself. -/
inductive Effect where
  | nothing
  | setByte (r : ByteRegister) (v : UInt8)
  | setWide (r : WideRegister) (v : UInt32)
  /-- Writes `v` to the memory cell at `addr`. -/
  | store (addr : UInt64) (v : UInt8)
  /-- Appends `v` to the output. -/
  | emit (v : UInt8)
  | halt
  deriving DecidableEq, Repr

/-- How an instruction that did not fault ended. -/
inductive StepOutcome where
  /-- It took `length` bytes, and execution goes on. -/
  | retired (length : UInt8)
  | halted
  deriving DecidableEq, Repr

/-- What an attempt to execute leaves behind: the machine, how it ended, and what was reported on
the way. -/
structure Attempt where
  machine : Machine
  outcome : Except Fault StepOutcome
  entries : List Entry

namespace ByteOperand

def read (operand : ByteOperand) (regs : RegisterFile) (memory : Memory) :
    Except Fault UInt8 :=
  match operand with
  | .register r => .ok (regs.byte r)
  | .cell => memory.read regs.cellAddress

/-- The effect of writing `v` to the operand. -/
def write (operand : ByteOperand) (v : UInt8) (regs : RegisterFile) (memory : Memory) :
    Except Fault Effect :=
  match operand with
  | .register r => .ok (.setByte r v)
  | .cell =>
    match Memory.index regs.cellAddress memory.size with
    | .ok _ => .ok (.store regs.cellAddress v)
    | .error fault => .error fault

end ByteOperand

/-- The effect of an instruction, where `regs.pc` already points behind it. -/
def Instruction.effect (i : Instruction) (regs : RegisterFile) (memory : Memory) :
    Except Fault Effect :=
  match i with
  | .add => .ok (.setByte .a (regs.a + regs.b))
  | .sub => .ok (.setByte .a (regs.a - regs.b))
  | .xor => .ok (.setByte .a (regs.a ^^^ regs.b))
  | .cmp => .ok (.setByte .f (if regs.a = regs.b then 0 else 1))
  | .aptr imm => .ok (.setWide .ptr (regs.ptr + imm.toUInt32))
  | .jez target => .ok (if regs.f = 0 then .setWide .pc target else .nothing)
  | .jnz target => .ok (if regs.f = 0 then .nothing else .setWide .pc target)
  | .mv dest src =>
    match src.read regs memory with
    | .ok v => dest.write v regs memory
    | .error fault => .error fault
  | .mvi dest imm => dest.write imm regs memory
  | .mv32 dest src => .ok (.setWide dest (regs.wide src))
  | .mvi32 dest imm => .ok (.setWide dest imm)
  | .out => .ok (.emit regs.a)
  | .halt => .ok .halt

namespace Machine

def apply (m : Machine) : Effect → Machine
  | .nothing => m
  | .setByte r v => { m with regs := m.regs.setByte r v }
  | .setWide r v => { m with regs := m.regs.setWide r v }
  | .store addr v => { m with memory := ⟨m.memory.bytes.setIfInBounds addr.toNat v⟩ }
  | .emit v => { m with output := m.output.push v }
  | .halt => { m with state := .halted }

end Machine

/-- The event of an effect that reaches beyond the registers, for the instruction at `addr`. -/
def Effect.event? (addr : UInt32) : Effect → Option Event
  | .store cell v => some (.write cell v)
  | .emit v => some (.output v)
  | .halt => some (.halted addr)
  | _ => none

def Effect.outcome (i : Instruction) : Effect → StepOutcome
  | .halt => .halted
  | _ => .retired i.length

namespace Machine

/-- Executes an instruction that was fetched from `addr`. `pc` is left to the instruction, the run
state is not looked at, and a fault is not latched. -/
def execute (m : Machine) (i : Instruction) (addr : UInt32) : Attempt :=
  match i.effect m.regs m.memory with
  | .error fault => ⟨m, .error fault, []⟩
  | .ok effect =>
    let entries := match effect.event? addr with
      | some e => m.traced e
      | none => []
    ⟨m.apply effect, .ok (effect.outcome i), entries⟩

/-- Stops the machine at its `pc` with a fault. -/
def latch (m : Machine) (fault : Fault) (entries : List Entry) : Attempt where
  machine := { m with state := .faulted fault }
  outcome := .error fault
  entries := entries ++ .message (.faulted m.pc fault) :: m.traced (.faulted fault m.pc)

/-- Executes the instruction at `pc`. A halted machine stays halted, and a faulted one gives its
fault again. -/
def step (m : Machine) : Attempt :=
  match m.state with
  | .faulted fault => ⟨m, .error fault, []⟩
  | .halted => ⟨m, .ok .halted, []⟩
  | .running =>
    let pc := m.pc
    match m.memory.decode pc with
    | .error fault => m.latch fault []
    | .ok decoded =>
      let started := m.traced (.start pc decoded.raw)
      match decoded.resolve m.memory m.config.layout with
      | .error fault => m.latch fault started
      | .ok i =>
        let started := started ++ [.message (.executing pc i)]
        let attempt := (m.setPc decoded.next).execute i pc
        match attempt.outcome with
        | .error fault => (attempt.machine.setPc pc).latch fault (started ++ attempt.entries)
        | .ok outcome => ⟨attempt.machine, .ok outcome, started ++ attempt.entries⟩

theorem step_of_faulted {m : Machine} {fault : Fault} (h : m.state = .faulted fault) :
    m.step = ⟨m, .error fault, []⟩ := by
  rw [step, h]

theorem step_of_halted {m : Machine} (h : m.state = .halted) :
    m.step = ⟨m, .ok .halted, []⟩ := by
  rw [step, h]

end Machine

end Tomtel
