import Tomtel.Proofs.Effects
import Tomtel.Proofs.Stepping

/-!
# Conformance to the instruction set

`Machine.Performs` is the table of the instruction set: for each instruction the one component that
it changes, and to what. Values are given in the arithmetic of numbers, and every other component is
as before. `step_performs` says that a step that goes through moves `pc` behind the instruction and
then performs it, which determines the machine that it leaves.
-/

namespace Tomtel

/-- A part of a machine that can be looked at on its own. -/
inductive Component where
  | byte (r : ByteRegister)
  | wide (r : WideRegister)
  /-- The memory byte at `addr`. -/
  | cell (addr : Nat)
  /-- How many memory bytes there are. -/
  | size
  | output
  | state
  | config
  deriving DecidableEq

/-- What a component holds. There is no memory byte at an address outside memory. -/
abbrev Component.Content : Component → Type
  | .byte _ => UInt8
  | .wide _ => UInt32
  | .cell _ => Option UInt8
  | .size => Nat
  | .output => List UInt8
  | .state => RunState
  | .config => Config

namespace Machine

def look (m : Machine) : (p : Component) → p.Content
  | .byte r => m.regs.byte r
  | .wide r => m.regs.wide r
  | .cell addr => m.memory.bytes[addr]?
  | .size => m.memory.size
  | .output => m.output.bytes.toList
  | .state => m.state
  | .config => m.config

/-- `m'` holds `v` at `p`, and is like `m` in every other component. -/
def Updates (m : Machine) (p : Component) (v : p.Content) (m' : Machine) : Prop :=
  m'.look p = v ∧ ∀ q, q ≠ p → m'.look q = m.look q

variable {m m' m₁ m₂ : Machine}

theorem ext_look (h : ∀ p, m₁.look p = m₂.look p) : m₁ = m₂ := by
  have hregs : m₁.regs = m₂.regs :=
    RegisterFile.ext_get (fun r => h (.byte r)) fun r => h (.wide r)
  have hbytes : m₁.memory.bytes = m₂.memory.bytes := Array.ext_getElem? fun k => h (.cell k)
  have hout : m₁.output.bytes = m₂.output.bytes := Array.toList_inj.1 (h .output)
  have hstate : m₁.state = m₂.state := h .state
  have hconfig : m₁.config = m₂.config := h .config
  rcases m₁ with ⟨config, regs, ⟨bytes⟩, ⟨out⟩, state⟩
  cases hregs; cases hbytes; cases hout; cases hstate; cases hconfig
  rfl

theorem Updates.unique {p : Component} {v : p.Content} (h₁ : m.Updates p v m₁)
    (h₂ : m.Updates p v m₂) : m₁ = m₂ := by
  refine ext_look fun q => ?_
  by_cases hq : q = p
  · subst hq
    rw [h₁.1, h₂.1]
  · rw [h₁.2 q hq, h₂.2 q hq]

/-! ### Where effects act -/

theorem updates_setByte (m : Machine) (r : ByteRegister) (v : UInt8) :
    m.Updates (.byte r) v (m.apply (.setByte r v)) := by
  constructor
  · exact (RegisterFile.byte_setByte ..).trans (if_pos rfl)
  · intro q hq
    cases q with
    | byte s =>
      have hs : s ≠ r := fun h => hq (congrArg _ h)
      exact (RegisterFile.byte_setByte ..).trans (if_neg hs)
    | wide s => exact RegisterFile.wide_setByte ..
    | _ => rfl

theorem updates_setWide (m : Machine) (r : WideRegister) (v : UInt32) :
    m.Updates (.wide r) v (m.apply (.setWide r v)) := by
  constructor
  · exact (RegisterFile.wide_setWide ..).trans (if_pos rfl)
  · intro q hq
    cases q with
    | byte s => exact RegisterFile.byte_setWide ..
    | wide s =>
      have hs : s ≠ r := fun h => hq (congrArg _ h)
      exact (RegisterFile.wide_setWide ..).trans (if_neg hs)
    | _ => rfl

theorem updates_store {addr : UInt64} (h : addr.toNat < m.memory.size) (v : UInt8) :
    m.Updates (.cell addr.toNat) (some v) (m.apply (.store addr v)) := by
  constructor
  · exact Array.getElem?_setIfInBounds_self_of_lt h
  · intro q hq
    cases q with
    | cell k =>
      have hk : addr.toNat ≠ k := fun h => hq (congrArg _ h.symm)
      exact Array.getElem?_setIfInBounds_ne hk
    | size => exact Array.size_setIfInBounds
    | _ => rfl

theorem updates_emit (m : Machine) (v : UInt8) :
    m.Updates .output (m.output.bytes.toList ++ [v]) (m.apply (.emit v)) := by
  constructor
  · exact Array.toList_push
  · intro q hq
    cases q with
    | output => exact absurd rfl hq
    | _ => rfl

theorem updates_halt (m : Machine) : m.Updates .state .halted (m.apply .halt) := by
  constructor
  · rfl
  · intro q hq
    cases q with
    | state => exact absurd rfl hq
    | _ => rfl

end Machine

/-! ### Operands of byte moves -/

namespace ByteOperand

/-- The operand has the value `v`; the memory cell has one only inside memory. -/
def Holds (operand : ByteOperand) (m : Machine) (v : UInt8) : Prop :=
  match operand with
  | .register r => m.look (.byte r) = v
  | .cell => m.look (.cell (m.regs.ptr.toNat + m.regs.c.toNat)) = some v

/-- `m'` is `m` with `v` in the operand. The memory cell is where `ptr` and `c` of `m` say, and
inside memory, for the size stays. -/
def Receives (operand : ByteOperand) (v : UInt8) (m m' : Machine) : Prop :=
  match operand with
  | .register r => m.Updates (.byte r) v m'
  | .cell => m.Updates (.cell (m.regs.ptr.toNat + m.regs.c.toNat)) (some v) m'

variable {operand : ByteOperand} {m m₁ m₂ : Machine} {v w : UInt8} {effect : Effect}

theorem Holds.unique (h₁ : operand.Holds m v) (h₂ : operand.Holds m w) : v = w := by
  cases operand with
  | register r => exact h₁.symm.trans h₂
  | cell => exact Option.some.inj (h₁.symm.trans h₂)

theorem Receives.unique (h₁ : operand.Receives v m m₁) (h₂ : operand.Receives v m m₂) :
    m₁ = m₂ := by
  cases operand with
  | register r => exact Machine.Updates.unique h₁ h₂
  | cell => exact Machine.Updates.unique h₁ h₂

theorem holds_of_read (h : operand.read m.regs m.memory = .ok v) : operand.Holds m v := by
  cases operand with
  | register r => exact Except.ok.inj h
  | cell =>
    rw [Holds, ← RegisterFile.toNat_cellAddress]
    exact Memory.getElem?_of_read h

theorem receives_of_write (h : operand.write v m.regs m.memory = .ok effect) :
    operand.Receives v m (m.apply effect) := by
  cases operand with
  | register r => cases h; exact m.updates_setByte r v
  | cell =>
    obtain ⟨hlt, rfl⟩ := write_cell_eq_ok h
    rw [Receives, ← RegisterFile.toNat_cellAddress]
    exact Machine.updates_store hlt v

end ByteOperand

/-! ### The table -/

namespace Machine

/-- The instruction set: `m'` is what `i` makes of `m`, whose `pc` is behind `i` already. -/
def Performs (m : Machine) (i : Instruction) (m' : Machine) : Prop :=
  match i with
  | .add => m.Updates (.byte .a) (.ofNat ((m.regs.a.toNat + m.regs.b.toNat) % 256)) m'
  | .sub => m.Updates (.byte .a) (.ofInt ((m.regs.a.toNat - m.regs.b.toNat : Int) % 256)) m'
  | .xor => m.Updates (.byte .a) (.ofNat (m.regs.a.toNat ^^^ m.regs.b.toNat)) m'
  | .cmp => m.Updates (.byte .f) (if m.regs.a = m.regs.b then 0 else 1) m'
  | .aptr imm => m.Updates (.wide .ptr) (.ofNat ((m.regs.ptr.toNat + imm.toNat) % 2 ^ 32)) m'
  | .jez target => (m.regs.f = 0 → m.Updates (.wide .pc) target m') ∧ (m.regs.f ≠ 0 → m' = m)
  | .jnz target => (m.regs.f ≠ 0 → m.Updates (.wide .pc) target m') ∧ (m.regs.f = 0 → m' = m)
  | .mv dest src => ∃ v, src.Holds m v ∧ dest.Receives v m m'
  | .mvi dest imm => dest.Receives imm m m'
  | .mv32 dest src => m.Updates (.wide dest) (m.look (.wide src)) m'
  | .mvi32 dest imm => m.Updates (.wide dest) imm m'
  | .out => m.Updates .output (m.look .output ++ [m.regs.a]) m'
  | .halt => m.Updates .state .halted m'

variable {m m' m₁ m₂ : Machine} {i : Instruction} {effect : Effect}

/-- The table leaves no choice. -/
theorem Performs.unique (h₁ : m.Performs i m₁) (h₂ : m.Performs i m₂) : m₁ = m₂ := by
  cases i with
  | mv dest src =>
    obtain ⟨v, hv, h₁⟩ := h₁
    obtain ⟨w, hw, h₂⟩ := h₂
    cases hv.unique hw
    exact h₁.unique h₂
  | mvi dest imm => exact ByteOperand.Receives.unique h₁ h₂
  | jez target =>
    by_cases hf : m.regs.f = 0
    · exact (h₁.1 hf).unique (h₂.1 hf)
    · rw [h₁.2 hf, h₂.2 hf]
  | jnz target =>
    by_cases hf : m.regs.f = 0
    · rw [h₁.2 hf, h₂.2 hf]
    · exact (h₁.1 hf).unique (h₂.1 hf)
  | _ => exact Updates.unique h₁ h₂

theorem add_eq_ofNat (a b : UInt8) : a + b = .ofNat ((a.toNat + b.toNat) % 256) := by
  rw [← UInt8.toNat_add, UInt8.ofNat_toNat]

theorem sub_eq_ofInt (a b : UInt8) : a - b = .ofInt ((a.toNat - b.toNat : Int) % 256) := by
  have ha := a.toNat_lt
  have hb := b.toNat_lt
  apply UInt8.toNat_inj.1
  rw [UInt8.toNat_sub, UInt8.ofInt, UInt8.toNat_ofNat']
  omega

theorem xor_eq_ofNat (a b : UInt8) : a ^^^ b = .ofNat (a.toNat ^^^ b.toNat) := by
  rw [← UInt8.toNat_xor, UInt8.ofNat_toNat]

theorem add_toUInt32_eq_ofNat (ptr : UInt32) (imm : UInt8) :
    ptr + imm.toUInt32 = .ofNat ((ptr.toNat + imm.toNat) % 2 ^ 32) := by
  rw [← UInt8.toNat_toUInt32, ← UInt32.toNat_add, UInt32.ofNat_toNat]

theorem performs_apply (h : i.effect m.regs m.memory = .ok effect) :
    m.Performs i (m.apply effect) := by
  cases i with
  | add => cases h; rw [add_eq_ofNat]; exact m.updates_setByte .a _
  | sub => cases h; rw [sub_eq_ofInt]; exact m.updates_setByte .a _
  | xor => cases h; rw [xor_eq_ofNat]; exact m.updates_setByte .a _
  | cmp => cases h; exact m.updates_setByte .f _
  | aptr imm => cases h; rw [add_toUInt32_eq_ofNat]; exact m.updates_setWide .ptr _
  | jez target =>
    cases h
    constructor
    · intro hf; rw [if_pos hf]; exact m.updates_setWide .pc target
    · intro hf; rw [if_neg hf]; rfl
  | jnz target =>
    cases h
    constructor
    · intro hf; rw [if_neg hf]; exact m.updates_setWide .pc target
    · intro hf; rw [if_pos hf]; rfl
  | mv dest src =>
    rw [Instruction.effect] at h
    cases hr : src.read m.regs m.memory with
    | error fault => rw [hr] at h; cases h
    | ok v =>
      rw [hr] at h
      exact ⟨v, ByteOperand.holds_of_read hr, ByteOperand.receives_of_write h⟩
  | mvi dest imm => exact ByteOperand.receives_of_write h
  | mv32 dest src => cases h; exact m.updates_setWide dest _
  | mvi32 dest imm => cases h; exact m.updates_setWide dest imm
  | out => cases h; exact m.updates_emit _
  | halt => cases h; exact m.updates_halt

theorem past_eq (m : Machine) (i : Instruction) :
    m.past i = m.setPc (.ofNat ((m.pc.toNat + i.length.toNat) % 2 ^ 32)) := by
  rw [past, add_toUInt32_eq_ofNat]

theorem eq_halt_iff_of_effect (h : i.effect m.regs m.memory = .ok effect) :
    effect = .halt ↔ i = .halt := by
  have hne : i ≠ .halt → effect ≠ .halt := by
    intro hi
    cases i with
    | halt => exact absurd rfl hi
    | jez target => cases h; split_ifs <;> intro he <;> cases he
    | jnz target => cases h; split_ifs <;> intro he <;> cases he
    | mv dest src =>
      rw [Instruction.effect] at h
      cases hr : src.read m.regs m.memory with
      | error fault => rw [hr] at h; cases h
      | ok v => rw [hr] at h; exact ByteOperand.ne_halt_of_write h
    | mvi dest imm => exact ByteOperand.ne_halt_of_write h
    | _ => cases h; intro he; cases he
  constructor
  · exact fun he => Decidable.byContradiction fun hi => hne hi he
  · rintro rfl
    cases h
    rfl

theorem outcome_of_effect (h : i.effect m.regs m.memory = .ok effect) :
    effect.outcome i = if i = .halt then .halted else .retired i.length := by
  have hh := eq_halt_iff_of_effect h
  by_cases hi : i = .halt
  · rw [if_pos hi]
    exact effect_outcome_eq_halted_iff.2 (hh.2 hi)
  · rw [if_neg hi]
    exact effect_outcome_of_ne_halt fun he => hi (hh.1 he)

/-- A step that goes through moves `pc` behind the instruction there, performs the instruction and
does nothing else. It reports the length of the instruction, or the halt. -/
theorem step_performs {outcome : StepOutcome} (hm : m.state = .running)
    (h : m.step.outcome = .ok outcome) :
    ∃ i, m.memory.instruction m.config.layout m.pc = .ok i ∧
      (∀ m', (m.setPc (.ofNat ((m.pc.toNat + i.length.toNat) % 2 ^ 32))).Performs i m' ↔
        m' = m.step.machine) ∧
      outcome = if i = .halt then .halted else .retired i.length := by
  obtain ⟨i, effect, hu, rfl⟩ := (step_ok_iff hm).1 h
  obtain ⟨hi, he⟩ := upcoming_eq_ok_iff.1 hu
  have hp : (m.past i).Performs i m.step.machine := by
    rw [step_of_upcoming_ok hm hu]
    exact performs_apply he
  refine ⟨i, hi, fun m' => ?_, outcome_of_effect he⟩
  rw [← past_eq]
  constructor
  · exact fun hp' => hp'.unique hp
  · rintro rfl
    exact hp

/-- `MV c <- (ptr+c)`, where the cell is the one that the old `c` names. -/
theorem step_performs_aliased :
    let m : Machine := { regs := { c := 1, ptr := 1 }, memory := ⟨#[0x5f, 9, 5]⟩ }
    m.state = .running ∧ m.step.outcome = .ok (.retired 1) ∧ m.step.machine.regs.c = 5 ∧
    ∃ i, m.memory.instruction m.config.layout m.pc = .ok i ∧
      (∀ m', (m.setPc (.ofNat ((m.pc.toNat + i.length.toNat) % 2 ^ 32))).Performs i m' ↔
        m' = m.step.machine) ∧
      StepOutcome.retired 1 = if i = .halt then .halted else .retired i.length :=
  ⟨rfl, rfl, rfl, step_performs rfl rfl⟩

end Machine

end Tomtel
