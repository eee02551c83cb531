import Tomtel.Checkpoint.Basic
import Tomtel.Listing
import Tomtel.Machine.Run

/-!
# Checkpoints of the machine

The data tree of every type that a machine is made of or answers with, up to the whole machine.
-/

namespace Tomtel.Checkpoint

/-! ### Registers -/

instance : Checkpoint ByteRegister where
  save
    | .a => .text "A"
    | .b => .text "B"
    | .c => .text "C"
    | .d => .text "D"
    | .e => .text "E"
    | .f => .text "F"
  restore? := restoreName? [("A", .a), ("B", .b), ("C", .c), ("D", .d), ("E", .e), ("F", .f)]

instance : Checkpoint WideRegister where
  save
    | .la => .text "La"
    | .lb => .text "Lb"
    | .lc => .text "Lc"
    | .ld => .text "Ld"
    | .ptr => .text "Ptr"
    | .pc => .text "Pc"
  restore? := restoreName?
    [("La", .la), ("Lb", .lb), ("Lc", .lc), ("Ld", .ld), ("Ptr", .ptr), ("Pc", .pc)]

instance : Checkpoint ByteOperand where
  save
    | .register r => .variant "Reg" (save r)
    | .cell => .text "PtrC"
  restore? d := do
    let v ← d.variant?
    match v.name with
    | "Reg" => return .register (← restore? (← v.payload))
    | "PtrC" => if v.isBare then some .cell else none
    | _ => none

instance : Checkpoint RegisterFamily where
  save
    | .byte => .text "Byte"
    | .wide => .text "Wide"
  restore? := restoreName? [("Byte", .byte), ("Wide", .wide)]

instance : Checkpoint RegisterFile where
  save regs := .record [
    ("reg8", save [regs.a, regs.b, regs.c, regs.d, regs.e, regs.f]),
    ("reg32", save [regs.la, regs.lb, regs.lc, regs.ld, regs.ptr, regs.pc])]
  restore? d := do
    match ← d.struct? ["reg8", "reg32"] with
    | [bytes, words] =>
      match (← restore? bytes : List UInt8), (← restore? words : List UInt32) with
      | [a, b, c, d, e, f], [la, lb, lc, ld, ptr, pc] =>
        return ⟨a, b, c, d, e, f, la, lb, lc, ld, ptr, pc⟩
      | _, _ => none
    | _ => none

/-! ### Faults -/

instance : Checkpoint FaultClass where
  save
    | .unsupportedOpcode => .text "UnsupportedOpcode"
    | .outOfBounds => .text "OutOfBounds"
  restore? := restoreName?
    [("UnsupportedOpcode", .unsupportedOpcode), ("OutOfBounds", .outOfBounds)]

instance : Checkpoint Fault where
  save
    | .unsupportedOpcode addr byte =>
      .variant "UnsupportedOpcode" (.record [("addr", save addr), ("byte", save byte)])
    | .memoryOutOfBounds addr size =>
      .variant "MemoryOutOfBounds" (.record [("addr", save addr), ("len", save size)])
    | .registerOutOfBounds family selector =>
      .variant "RegisterOutOfBounds"
        (.record [("family", save family), ("selector", save selector)])
  restore? d := do
    let v ← d.variant?
    match v.name with
    | "UnsupportedOpcode" =>
      match ← (← v.payload).record? ["addr", "byte"] with
      | [addr, byte] => return .unsupportedOpcode (← restore? addr) (← restore? byte)
      | _ => none
    | "MemoryOutOfBounds" =>
      match ← (← v.payload).record? ["addr", "len"] with
      | [addr, size] => return .memoryOutOfBounds (← restore? addr) (← restore? size)
      | _ => none
    | "RegisterOutOfBounds" =>
      match ← (← v.payload).record? ["family", "selector"] with
      | [family, selector] =>
        return .registerOutOfBounds (← restore? family) (← restore? selector)
      | _ => none
    | _ => none

/-! ### Instructions -/

instance : Checkpoint Opcode where
  save
    | .add => .text "Add"
    | .aptr => .text "Aptr"
    | .cmp => .text "Cmp"
    | .halt => .text "Halt"
    | .jez => .text "Jez"
    | .jnz => .text "Jnz"
    | .mv => .text "Mv"
    | .mv32 => .text "Mv32"
    | .mvi => .text "Mvi"
    | .mvi32 => .text "Mvi32"
    | .out => .text "Out"
    | .sub => .text "Sub"
    | .xor => .text "Xor"
  restore? := restoreName? [
    ("Add", .add), ("Aptr", .aptr), ("Cmp", .cmp), ("Halt", .halt), ("Jez", .jez),
    ("Jnz", .jnz), ("Mv", .mv), ("Mv32", .mv32), ("Mvi", .mvi), ("Mvi32", .mvi32),
    ("Out", .out), ("Sub", .sub), ("Xor", .xor)]

instance : Checkpoint Instruction where
  save
    | .add => .text "Add"
    | .aptr imm => .variant "Aptr" (.record [("imm", save imm)])
    | .cmp => .text "Cmp"
    | .halt => .text "Halt"
    | .jez target => .variant "Jez" (.record [("target", save target)])
    | .jnz target => .variant "Jnz" (.record [("target", save target)])
    | .mv dest src => .variant "Mv" (.record [("dest", save dest), ("src", save src)])
    | .mv32 dest src => .variant "Mv32" (.record [("dest", save dest), ("src", save src)])
    | .mvi dest imm => .variant "Mvi" (.record [("dest", save dest), ("imm", save imm)])
    | .mvi32 dest imm => .variant "Mvi32" (.record [("dest", save dest), ("imm", save imm)])
    | .out => .text "Out"
    | .sub => .text "Sub"
    | .xor => .text "Xor"
  restore? d := do
    let v ← d.variant?
    match v.name with
    | "Aptr" =>
      match ← (← v.payload).record? ["imm"] with
      | [imm] => return .aptr (← restore? imm)
      | _ => none
    | "Jez" =>
      match ← (← v.payload).record? ["target"] with
      | [target] => return .jez (← restore? target)
      | _ => none
    | "Jnz" =>
      match ← (← v.payload).record? ["target"] with
      | [target] => return .jnz (← restore? target)
      | _ => none
    | "Mv" =>
      match ← (← v.payload).record? ["dest", "src"] with
      | [dest, src] => return .mv (← restore? dest) (← restore? src)
      | _ => none
    | "Mv32" =>
      match ← (← v.payload).record? ["dest", "src"] with
      | [dest, src] => return .mv32 (← restore? dest) (← restore? src)
      | _ => none
    | "Mvi" =>
      match ← (← v.payload).record? ["dest", "imm"] with
      | [dest, imm] => return .mvi (← restore? dest) (← restore? imm)
      | _ => none
    | "Mvi32" =>
      match ← (← v.payload).record? ["dest", "imm"] with
      | [dest, imm] => return .mvi32 (← restore? dest) (← restore? imm)
      | _ => none
    | _ =>
      restoreName? [("Add", .add), ("Cmp", .cmp), ("Halt", .halt), ("Out", .out), ("Sub", .sub),
        ("Xor", .xor)] d

instance : Checkpoint Decoded where
  save x := .record [
    ("addr", save x.addr), ("raw", save x.raw), ("opcode", save x.opcode),
    ("dest", save x.dest), ("src", save x.src)]
  restore? d := do
    match ← d.struct? ["addr", "raw", "opcode", "dest", "src"] with
    | [addr, raw, opcode, dest, src] =>
      return ⟨← restore? addr, ← restore? raw, ← restore? opcode, ← restore? dest, ← restore? src⟩
    | _ => none

instance : Checkpoint Row where
  save row := .record [
    ("addr", save row.addr), ("bytes", save row.bytes), ("mnemonic", save row.mnemonic),
    ("operands", save row.operands), ("is_illegal", save row.illegal)]
  restore? d := do
    match ← d.struct? ["addr", "bytes", "mnemonic", "operands", "is_illegal"] with
    | [addr, bytes, mnemonic, operands, illegal] =>
      return ⟨← restore? addr, ← restore? bytes, ← restore? mnemonic, ← restore? operands,
        ← restore? illegal⟩
    | _ => none

/-! ### Configuration and outcome -/

instance : Checkpoint ImmediateLayout where
  save
    | .littleEndian => .text "LittleEndian"
    | .legacyDuplicatedHighByte => .text "LegacyDuplicatedHighByte"
  restore? := restoreName?
    [("LittleEndian", .littleEndian), ("LegacyDuplicatedHighByte", .legacyDuplicatedHighByte)]

/-- A duration may be given with a billion nanoseconds or more, but with no field of another
name. -/
instance : Checkpoint Duration where
  save duration := .record [("secs", save duration.secs), ("nanos", save duration.nanos)]
  restore? d := do
    match d with
    | .record fields => guard (fields.all fun entry => entry.1 = "secs" ∨ entry.1 = "nanos")
    | _ => pure ()
    match ← d.struct? ["secs", "nanos"] with
    | [secs, nanos] => Duration.ofParts? (← restore? secs) (← restore? nanos)
    | _ => none

instance : Checkpoint Watchdog where
  save
    | .wallClock limit => .variant "WallClock" (save limit)
    | .instructionBudget count => .variant "InstructionBudget" (save count)
    | .unbounded => .text "Unbounded"
  restore? d := do
    let v ← d.variant?
    match v.name with
    | "WallClock" => return .wallClock (← restore? (← v.payload))
    | "InstructionBudget" => return .instructionBudget (← restore? (← v.payload))
    | "Unbounded" => if v.isBare then some .unbounded else none
    | _ => none

instance : Checkpoint Config where
  save config := .record [
    ("watchdog", save config.watchdog), ("immediate_layout", save config.layout),
    ("tracing_enabled", save config.tracing)]
  restore? d := do
    match ← d.struct? ["watchdog", "immediate_layout", "tracing_enabled"] with
    | [watchdog, layout, tracing] =>
      return ⟨← restore? watchdog, ← restore? layout, ← restore? tracing⟩
    | _ => none

instance : Checkpoint Completion where
  save
    | .halted => .text "Halted"
    | .timedOut => .text "TimedOut"
  restore? := restoreName? [("Halted", .halted), ("TimedOut", .timedOut)]

instance : Checkpoint RunOutcome where
  save outcome := .record [
    ("completion", save outcome.completion), ("steps", save outcome.steps)]
  restore? d := do
    match ← d.struct? ["completion", "steps"] with
    | [completion, steps] => return ⟨← restore? completion, ← restore? steps⟩
    | _ => none

/-! ### The machine -/

instance : Checkpoint RunState where
  save
    | .running => .text "Running"
    | .halted => .text "Halted"
    | .faulted fault => .variant "Faulted" (save fault)
  restore? d := do
    let v ← d.variant?
    match v.name with
    | "Running" => if v.isBare then some .running else none
    | "Halted" => if v.isBare then some .halted else none
    | "Faulted" => return .faulted (← restore? (← v.payload))
    | _ => none

instance : Checkpoint Memory where
  save memory := .record [("bytes", save memory.bytes)]
  restore? d := do
    match ← d.struct? ["bytes"] with
    | [bytes] => return ⟨← restore? bytes⟩
    | _ => none

instance : Checkpoint Output where
  save output := .record [("bytes", save output.bytes)]
  restore? d := do
    match ← d.struct? ["bytes"] with
    | [bytes] => return ⟨← restore? bytes⟩
    | _ => none

instance : Checkpoint Machine where
  save m := .record [
    ("config", save m.config), ("regs", save m.regs), ("memory", save m.memory),
    ("output", save m.output), ("run_state", save m.state)]
  restore? d := do
    match ← d.struct? ["config", "regs", "memory", "output", "run_state"] with
    | [config, regs, memory, output, state] =>
      return ⟨← restore? config, ← restore? regs, ← restore? memory, ← restore? output,
        ← restore? state⟩
    | _ => none

end Tomtel.Checkpoint
