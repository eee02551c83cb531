import Tomtel.Proofs.Reading
import Tomtel.Proofs.Runs

/-!
# The two layouts of immediates

The layouts part at an instruction that takes a 32-bit immediate with two different bytes as its
third and fourth (`Memory.LayoutsPart`), and nowhere else. Until a run comes to such an instruction,
the same machine under the other layout goes the same way in lock-step (`after_setLayout`), whatever
the program has written over itself by then: `layouts_interchangeable`.
-/

namespace Tomtel

theorem ImmediateLayout.assemble_eq_view (layout : ImmediateLayout) (b₀ b₁ b₂ b₃ : UInt8) :
    layout.assemble b₀ b₁ b₂ b₃ = layout.view (littleEndian.assemble b₀ b₁ b₂ b₃) := by
  have h := Word.bytes_ofBytes b₀ b₁ b₂ b₃
  simp only [Word.bytes, List.cons.injEq, and_true] at h
  obtain ⟨h₀, h₁, h₂, h₃⟩ := h
  have hview := layout.assemble_byte (Word.ofBytes b₀ b₁ b₂ b₃)
  rwa [h₀, h₁, h₂, h₃] at hview

/-! ### One instruction in both layouts -/

section

variable (memory : Memory) (layout : ImmediateLayout)

theorem Memory.readWord_eq_map (addr : UInt64) :
    memory.readWord layout addr = (memory.readWord .littleEndian addr).map layout.view := by
  unfold readWord
  rcases memory.read (addr + 3) with fault | b₃
  · rfl
  rcases memory.read addr with fault | b₀
  · rfl
  rcases memory.read (addr + 1) with fault | b₁
  · rfl
  rcases memory.read (addr + 2) with fault | b₂
  · rfl
  exact congrArg Except.ok (layout.assemble_eq_view b₀ b₁ b₂ b₃)

namespace Decoded

variable (d : Decoded)

theorem wordImmediate_eq_map :
    d.wordImmediate memory layout = (d.wordImmediate memory .littleEndian).map layout.view := by
  unfold wordImmediate
  split_ifs
  · exact memory.readWord_eq_map layout _
  · rfl

/-- The layout has its say in the word of an immediate only. -/
theorem resolve_eq_map : d.resolve memory layout =
    (d.resolve memory .littleEndian).map (Instruction.mapWord layout.view) := by
  have hw := d.wordImmediate_eq_map memory layout
  have hmap : ∀ make : UInt32 → Instruction,
      (∀ w, (make w).mapWord layout.view = make (layout.view w)) →
      (do return make (← d.wordImmediate memory layout)) =
        Except.map (Instruction.mapWord layout.view)
          (do return make (← d.wordImmediate memory .littleEndian)) := by
    intro make hmake
    rw [hw]
    rcases d.wordImmediate memory .littleEndian with fault | w
    · rfl
    · exact congrArg Except.ok (hmake w).symm
  unfold resolve
  cases d.opcode with
  | jez => exact hmap .jez fun _ => rfl
  | jnz => exact hmap .jnz fun _ => rfl
  | mvi32 =>
    rcases WideRegister.select d.dest with fault | dest
    · rfl
    · exact hmap (.mvi32 dest) fun _ => rfl
  | aptr => rcases d.byteImmediate memory <;> rfl
  | mvi =>
    rcases ByteOperand.select d.dest with fault | dest
    · rfl
    · rcases d.byteImmediate memory <;> rfl
  | mv =>
    rcases ByteOperand.select d.dest with fault | dest
    · rfl
    · rcases ByteOperand.select d.src <;> rfl
  | mv32 =>
    rcases WideRegister.select d.dest with fault | dest
    · rfl
    · rcases WideRegister.select d.src <;> rfl
  | _ => rfl

end Decoded

theorem Memory.instruction_eq_map (addr : UInt32) : memory.instruction layout addr =
    (memory.instruction .littleEndian addr).map (Instruction.mapWord layout.view) := by
  unfold instruction
  rcases memory.decode addr with fault | d
  · rfl
  · exact d.resolve_eq_map memory layout

end

/-! ### Where the layouts part -/

/-- The instruction at `addr` is a `JEZ`, a `JNZ` or an `MVI32` with its immediate in memory, and
the third and the fourth byte of the immediate are different. -/
def Memory.LayoutsPart (memory : Memory) (addr : UInt32) : Prop :=
  ∃ i, memory.instruction .littleEndian addr = .ok i ∧
    (i.opcode = .jez ∨ i.opcode = .jnz ∨ i.opcode = .mvi32) ∧
    memory.bytes[addr.toNat + 3]? ≠ memory.bytes[addr.toNat + 4]?

theorem Instruction.exists_word?_iff (i : Instruction) :
    (∃ w, i.word? = some w) ↔ i.opcode = .jez ∨ i.opcode = .jnz ∨ i.opcode = .mvi32 := by
  cases i <;> simp [word?, opcode]

namespace Memory

variable {memory : Memory} {addr : UInt32} {i : Instruction} {w : UInt32}

theorem contains_word (h : memory.instruction .littleEndian addr = .ok i) (hw : i.word? = some w) :
    memory.Contains (addr.toNat + 1) (Word.bytes w) := by
  obtain ⟨j, hj, rfl⟩ := exists_encode_of_instruction h
  rw [Instruction.mapWord_view_littleEndian] at hw
  have himm : memory.Contains (addr.toNat + 1) j.immediate := (contains_cons.1 hj).2
  cases j <;> cases hw <;> exact himm

theorem layoutsPart_iff : memory.LayoutsPart addr ↔
    memory.instruction .littleEndian addr ≠ memory.instruction .legacyDuplicatedHighByte addr := by
  have hmap := memory.instruction_eq_map .legacyDuplicatedHighByte addr
  rcases hi : memory.instruction .littleEndian addr with fault | i
  · rw [hi] at hmap
    simp [LayoutsPart, hi, hmap, Except.map]
  · rw [hi, Except.map] at hmap
    have hbytes : ∀ w, i.word? = some w →
        memory.bytes[addr.toNat + 3]? = some (Word.byte w 2) ∧
          memory.bytes[addr.toNat + 4]? = some (Word.byte w 3) := by
      intro w hw
      obtain ⟨-, -, h₂, h₃⟩ := contains_bytes_iff.1 (contains_word hi hw)
      exact ⟨h₂, h₃⟩
    have hself : i.mapWord Word.repeatHighByte = i ↔
        ∀ w, i.word? = some w → memory.bytes[addr.toNat + 3]? = memory.bytes[addr.toNat + 4]? := by
      rw [Instruction.mapWord_eq_self_iff]
      refine forall₂_congr fun w hw => ?_
      obtain ⟨h₂, h₃⟩ := hbytes w hw
      rw [Word.repeatHighByte_eq_self_iff, h₂, h₃, Option.some.injEq]
    rw [hmap, Ne, Except.ok.injEq, eq_comm]
    show _ ↔ ¬ i.mapWord Word.repeatHighByte = i
    rw [hself, LayoutsPart, hi]
    simp [← Instruction.exists_word?_iff]

theorem instruction_eq_of_not_layoutsPart (h : ¬ memory.LayoutsPart addr)
    (layout : ImmediateLayout) :
    memory.instruction layout addr = memory.instruction .littleEndian addr := by
  cases layout with
  | littleEndian => rfl
  | legacyDuplicatedHighByte =>
    rw [layoutsPart_iff, not_ne_iff] at h
    exact h.symm

end Memory

/-! ### Runs in both layouts -/

namespace Machine

def setLayout (m : Machine) (layout : ImmediateLayout) : Machine :=
  { m with config := { m.config with layout := layout } }

variable {m : Machine} {layout : ImmediateLayout}

section

variable (h : m.memory.instruction layout m.pc = m.memory.instruction m.config.layout m.pc)
include h

theorem instruction_setLayout :
    (m.setLayout layout).memory.instruction (m.setLayout layout).config.layout
      (m.setLayout layout).pc = m.memory.instruction m.config.layout m.pc := h

theorem upcoming_setLayout : (m.setLayout layout).upcoming = m.upcoming := by
  rw [upcoming, instruction_setLayout h]
  rfl

theorem announcement_setLayout : (m.setLayout layout).announcement = m.announcement := by
  rw [announcement, instruction_setLayout h]
  rfl

end

/-- Where the layouts do not part, neither do the steps. -/
theorem step_setLayout (h : m.state = .running →
      m.memory.instruction layout m.pc = m.memory.instruction m.config.layout m.pc) :
    (m.setLayout layout).step = { m.step with machine := m.step.machine.setLayout layout } := by
  cases hm : m.state with
  | faulted fault =>
    have hm' : (m.setLayout layout).state = .faulted fault := hm
    rw [step_of_faulted hm, step_of_faulted hm']
  | halted =>
    have hm' : (m.setLayout layout).state = .halted := hm
    rw [step_of_halted hm, step_of_halted hm']
  | running =>
    have hm' : (m.setLayout layout).state = .running := hm
    have hu := upcoming_setLayout (h hm)
    have ha := announcement_setLayout (h hm)
    rcases hup : m.upcoming with fault | ⟨i, effect⟩
    · rw [step_of_upcoming_error hm hup, step_of_upcoming_error hm' (hu.trans hup), ha]
      rfl
    · have happly : ((m.setLayout layout).past i).apply effect =
          ((m.past i).apply effect).setLayout layout := by cases effect <;> rfl
      rw [step_of_upcoming_ok hm hup, step_of_upcoming_ok hm' (hu.trans hup), ha, happly]
      rfl

/-- The message that closes a run shows nothing of the configuration. -/
theorem close_setLayout {σ : Type} (observe : σ → Entry → σ) (run : Run σ) :
    Run.close observe { run with machine := run.machine.setLayout layout } =
      { run.close observe with machine := (run.close observe).machine.setLayout layout } := by
  have hclosing : Run.closing? { run with machine := run.machine.setLayout layout } =
      run.closing? := rfl
  rw [Run.close, Run.close, hclosing]
  rcases run.closing? with _ | message <;> rfl

/-- `m` comes to no instruction where the layouts part in its first `k` steps. -/
def KeepsLayouts (m : Machine) (k : Nat) : Prop :=
  ∀ j < k, (m.after j).state = .running → ¬ (m.after j).memory.LayoutsPart (m.after j).pc

section

variable (layout) (hm : m.config.layout = .littleEndian)
include hm

/-- Two runs in lock-step, up to the first instruction where the layouts part. -/
theorem after_setLayout {k : Nat} (h : m.KeepsLayouts k) :
    (m.setLayout layout).after k = (m.after k).setLayout layout ∧
      (m.setLayout layout).journal k = m.journal k := by
  induction k with
  | zero => exact ⟨rfl, rfl⟩
  | succ k ih =>
    obtain ⟨hafter, hjournal⟩ := ih fun j hj => h j (Nat.lt_succ_of_lt hj)
    have hstep : ((m.after k).setLayout layout).step =
        { (m.after k).step with machine := (m.after k).step.machine.setLayout layout } := by
      refine step_setLayout fun hrun => ?_
      rw [config_after, hm]
      exact Memory.instruction_eq_of_not_layoutsPart (h k (Nat.lt_succ_self k) hrun) layout
    rw [after_succ, after_succ, journal_succ, journal_succ, hafter, hjournal, hstep]
    exact ⟨rfl, rfl⟩

theorem span_setLayout {budget : Nat} (h : m.KeepsLayouts budget) :
    (m.setLayout layout).span budget = m.span budget := by
  refine (span_congr fun j hj => ?_).symm
  have hle := Nat.le_trans hj (m.span_le budget)
  rw [(after_setLayout layout hm fun i hi => h i (Nat.lt_of_lt_of_le hi hle)).1]
  exact Iff.rfl

theorem run_setLayout {n : UInt64} (h : m.KeepsLayouts n.toNat) {σ : Type}
    (observe : σ → Entry → σ) (s : σ) :
    let run := m.run observe (.instructionBudget n) s
    (m.setLayout layout).run observe (.instructionBudget n) s =
      { run with machine := run.machine.setLayout layout } := by
  have hspan : (m.setLayout layout).span (Watchdog.instructionBudget n).allowance.toNat =
      m.span (Watchdog.instructionBudget n).allowance.toNat := span_setLayout layout hm h
  obtain ⟨hafter, hjournal⟩ := after_setLayout layout hm fun j hj =>
    h j (Nat.lt_of_lt_of_le hj (m.span_le (Watchdog.instructionBudget n).allowance.toNat))
  rw [run_eq, run_eq, hspan, hafter, hjournal]
  exact close_setLayout observe ⟨m.after _, _, _⟩

end

/-- Take two machines that are the same but for the layout, and a budget. As long as the layouts do
not part at an instruction that the little-endian run executes, the two runs have the same result,
report the same events and messages, and leave the same machine but for the layout. Conversely, a
single instruction is read differently only where the layouts part, and a fault is the same fault
in both. -/
theorem layouts_interchangeable :
    (∀ (m : Machine) (n : UInt64),
      let little := m.setLayout .littleEndian
      (∀ k < n.toNat, (little.after k).state = .running →
        ¬ (little.after k).memory.LayoutsPart (little.after k).pc) →
      ∀ {σ : Type} (observe : σ → Entry → σ) (s : σ),
        let run := little.run observe (.instructionBudget n) s
        (m.setLayout .legacyDuplicatedHighByte).run observe (.instructionBudget n) s =
          { run with machine := run.machine.setLayout .legacyDuplicatedHighByte }) ∧
    ∀ (memory : Memory) (addr : UInt32),
      (memory.instruction .littleEndian addr ≠ memory.instruction .legacyDuplicatedHighByte addr ↔
        memory.LayoutsPart addr) ∧
      ∀ fault, memory.instruction .littleEndian addr = .error fault ↔
        memory.instruction .legacyDuplicatedHighByte addr = .error fault := by
  refine ⟨fun m n => ?_, fun memory addr => ⟨Memory.layoutsPart_iff.symm, ?_⟩⟩
  · intro little h σ observe s
    exact run_setLayout (m := little) .legacyDuplicatedHighByte rfl h observe s
  · intro fault
    rw [memory.instruction_eq_map .legacyDuplicatedHighByte addr]
    rcases memory.instruction .littleEndian addr <;> simp [Except.map]

/-- Mends the third byte of the immediate of the `JEZ` behind, where the layouts would part, and
jumps to a `HALT`. -/
def mendedJump : Machine where
  regs := { ptr := 5 }
  memory := ⟨#[0x78, 0x00, 0x21, 0x07, 0x00, 0x01, 0x00, 0x01]⟩

theorem keepsLayouts_mendedJump : (mendedJump.setLayout .littleEndian).KeepsLayouts 3 := by
  intro k hk _
  rw [Memory.layoutsPart_iff, not_ne_iff]
  obtain rfl | rfl | rfl : k = 0 ∨ k = 1 ∨ k = 2 := by omega
  · rfl
  · rfl
  · rfl

theorem layouts_interchangeable_mendedJump :
    let little := mendedJump.setLayout .littleEndian
    let run := little.run (Entry.toSink fun es e => es ++ [e]) (.instructionBudget 3) []
    (∀ k < 3, (little.after k).state = .running →
      ¬ (little.after k).memory.LayoutsPart (little.after k).pc) ∧
    (mendedJump.setLayout .legacyDuplicatedHighByte).run (Entry.toSink fun es e => es ++ [e])
      (.instructionBudget 3) [] =
      { run with machine := run.machine.setLayout .legacyDuplicatedHighByte } ∧
    run.result = .ok ⟨.halted, 3⟩ ∧ run.machine.pc = 8 ∧
    mendedJump.memory.LayoutsPart 2 :=
  ⟨keepsLayouts_mendedJump,
    layouts_interchangeable.1 mendedJump 3 keepsLayouts_mendedJump _ [], rfl, rfl,
    (layouts_interchangeable.2 mendedJump.memory 2).1.1 (by decide)⟩

end Machine

end Tomtel
