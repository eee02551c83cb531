import Tomtel.Proofs.Effects
import Tomtel.Proofs.Runs

/-!
# Bytes behind the image

Further bytes behind memory change no run that stays inside it: `run_pad`. Every check of an address
is monotone in the size of memory, so what a read gives is kept (`Kept`) unless it found memory too
short. That goes through from the reads to the decoder, to the effects and to the step.
-/

namespace Tomtel

section

variable {α β : Type}

/-- The result is the fault of a memory that is too short. -/
def Overruns (r : Except Fault α) : Prop := ∃ addr size, r = .error (.memoryOutOfBounds addr size)

/-- `r'` is the same as `r`, unless memory was too short for `r`. -/
def Kept (r r' : Except Fault α) : Prop := Overruns r ∨ r' = r

namespace Kept

variable {r r' : Except Fault α}

theorem refl (r : Except Fault α) : Kept r r := .inr rfl

theorem eq (h : Kept r r') (hr : ¬ Overruns r) : r' = r := h.resolve_left hr

theorem bind {f f' : α → Except Fault β} (h : Kept r r') (hf : ∀ v, Kept (f v) (f' v)) :
    Kept (r >>= f) (r' >>= f') := by
  rcases h with ⟨addr, size, rfl⟩ | rfl
  · exact .inl ⟨addr, size, rfl⟩
  · cases r' with
    | error fault => exact .inr rfl
    | ok v => exact hf v

theorem map (h : Kept r r') (f : α → β) :
    Kept (r >>= fun v => pure (f v)) (r' >>= fun v => pure (f v)) :=
  h.bind fun _ => .refl _

end Kept

end

/-! ### Reading -/

def Memory.pad (memory : Memory) (x : Array UInt8) : Memory := ⟨memory.bytes ++ x⟩

variable (x : Array UInt8) (memory : Memory) (layout : ImmediateLayout)

theorem Memory.kept_read (addr : UInt64) : Kept (memory.read addr) ((memory.pad x).read addr) := by
  rcases Nat.lt_or_ge addr.toNat memory.bytes.size with hlt | hge
  · have hlt' : addr.toNat < (memory.pad x).bytes.size := by
      rw [pad, Array.size_append]
      omega
    rw [read_of_lt hlt, read_of_lt hlt']
    exact .inr (congrArg _ (Array.getElem_append_left hlt))
  · exact .inl ⟨addr, memory.length, read_of_ge hge⟩

theorem Memory.kept_readWord (addr : UInt64) :
    Kept (memory.readWord layout addr) ((memory.pad x).readWord layout addr) :=
  (memory.kept_read x _).bind fun _ => (memory.kept_read x _).bind fun _ =>
    (memory.kept_read x _).bind fun _ => (memory.kept_read x _).map _

namespace Decoded

variable (d : Decoded)

theorem kept_wordImmediate :
    Kept (d.wordImmediate memory layout) (d.wordImmediate (memory.pad x) layout) := by
  unfold wordImmediate
  split_ifs with h
  · exact memory.kept_readWord x layout _
  · exact .inl ⟨_, _, rfl⟩

theorem kept_resolve : Kept (d.resolve memory layout) (d.resolve (memory.pad x) layout) := by
  have hb : Kept (d.byteImmediate memory) (d.byteImmediate (memory.pad x)) := memory.kept_read x _
  have hw := d.kept_wordImmediate x memory layout
  unfold resolve
  cases d.opcode with
  | aptr => exact hb.map _
  | jez => exact hw.map _
  | jnz => exact hw.map _
  | mvi => exact (Kept.refl _).bind fun _ => hb.map _
  | mvi32 => exact (Kept.refl _).bind fun _ => hw.map _
  | _ => exact .refl _

end Decoded

namespace Memory

theorem kept_decode (addr : UInt32) : Kept (memory.decode addr) ((memory.pad x).decode addr) := by
  rcases memory.kept_read x addr.toUInt64 with ⟨a, size, h⟩ | h
  · exact .inl ⟨a, size, by rw [decode, h]⟩
  · exact .inr (by rw [decode, decode, h])

theorem kept_instruction (addr : UInt32) :
    Kept (memory.instruction layout addr) ((memory.pad x).instruction layout addr) := by
  rcases memory.kept_decode x addr with ⟨a, size, h⟩ | h
  · exact .inl ⟨a, size, instruction_of_decode_eq_error h⟩
  · unfold instruction
    rw [h]
    cases memory.decode addr with
    | error fault => exact .refl _
    | ok d => exact d.kept_resolve x memory layout

end Memory

/-! ### Effects -/

namespace ByteOperand

variable (operand : ByteOperand) (regs : RegisterFile)

theorem kept_read : Kept (operand.read regs memory) (operand.read regs (memory.pad x)) := by
  cases operand with
  | register r => exact .refl _
  | cell => exact memory.kept_read x _

theorem kept_write (v : UInt8) :
    Kept (operand.write v regs memory) (operand.write v regs (memory.pad x)) := by
  cases operand with
  | register r => exact .refl _
  | cell =>
    rcases Nat.lt_or_ge regs.cellAddress.toNat memory.size with hlt | hge
    · have hlt' : regs.cellAddress.toNat < (memory.pad x).size := by
        rw [Memory.size, Memory.pad, Array.size_append]
        exact Nat.lt_add_right _ hlt
      rw [write_cell_of_lt hlt, write_cell_of_lt hlt']
      exact .refl _
    · exact .inl ⟨_, _, write_cell_of_ge hge⟩

end ByteOperand

theorem Instruction.kept_effect (i : Instruction) (regs : RegisterFile) :
    Kept (i.effect regs memory) (i.effect regs (memory.pad x)) := by
  cases i with
  | mv dest src =>
    have hmv : ∀ memory, (mv dest src).effect regs memory =
        src.read regs memory >>= fun v => dest.write v regs memory := by
      intro memory
      rw [effect]
      cases src.read regs memory <;> rfl
    rw [hmv, hmv]
    exact (src.kept_read x memory regs).bind fun v => dest.kept_write x memory regs v
  | mvi dest imm => exact dest.kept_write x memory regs imm
  | _ => exact .refl _

/-! ### Steps and runs -/

namespace Machine

def pad (m : Machine) (x : Array UInt8) : Machine := { m with memory := m.memory.pad x }

variable {x} {m : Machine} {i : Instruction} {effect : Effect}

theorem apply_pad (he : i.effect (m.past i).regs m.memory = .ok effect) :
    ((m.pad x).past i).apply effect = ((m.past i).apply effect).pad x := by
  cases effect with
  | store addr v =>
    have hlt : addr.toNat < m.memory.bytes.size := Instruction.lt_size_of_effect he
    have hset : (m.memory.bytes ++ x).setIfInBounds addr.toNat v =
        m.memory.bytes.setIfInBounds addr.toNat v ++ x := Array.setIfInBounds_append_left hlt
    simp only [apply, pad, Memory.pad, past, setPc, hset]
    rfl
  | _ => rfl

theorem upcoming_eq_bind (m : Machine) :
    m.upcoming = m.memory.instruction m.config.layout m.pc >>= fun i =>
      i.effect (m.past i).regs m.memory >>= fun effect => pure (i, effect) := by
  unfold upcoming
  cases m.memory.instruction m.config.layout m.pc with
  | error fault => rfl
  | ok i =>
    simp only [bind, Except.bind]
    cases i.effect (m.past i).regs m.memory <;> rfl

theorem kept_upcoming (m : Machine) (x : Array UInt8) : Kept m.upcoming (m.pad x).upcoming := by
  rw [upcoming_eq_bind, upcoming_eq_bind]
  exact (m.memory.kept_instruction x _ _).bind fun i => (i.kept_effect x _ _).map _

theorem announcement_pad (h : ¬ Overruns m.upcoming) :
    (m.pad x).announcement = m.announcement := by
  have hi : ¬ Overruns (m.memory.instruction m.config.layout m.pc) := fun ⟨addr, size, hi⟩ =>
    h ⟨addr, size, upcoming_of_instruction_error hi⟩
  have hd : ¬ Overruns (m.memory.decode m.pc) := fun ⟨addr, size, hd⟩ =>
    hi ⟨addr, size, Memory.instruction_of_decode_eq_error hd⟩
  have hi' : (m.pad x).memory.instruction (m.pad x).config.layout (m.pad x).pc = _ :=
    (m.memory.kept_instruction x _ _).eq hi
  have hd' : (m.pad x).memory.decode (m.pad x).pc = _ := (m.memory.kept_decode x _).eq hd
  rw [announcement, announcement, startEntries, startEntries, hi', hd']
  rfl

/-- A step that does not find memory too short is the same with more of it. -/
theorem step_pad (h : ¬ Overruns m.step.outcome) :
    (m.pad x).step = { m.step with machine := m.step.machine.pad x } := by
  cases hm : m.state with
  | faulted fault =>
    have hm' : (m.pad x).state = .faulted fault := hm
    rw [step_of_faulted hm, step_of_faulted hm']
  | halted =>
    have hm' : (m.pad x).state = .halted := hm
    rw [step_of_halted hm, step_of_halted hm']
  | running =>
    have hm' : (m.pad x).state = .running := hm
    have hu : ¬ Overruns m.upcoming := fun ⟨addr, size, hu⟩ =>
      h ⟨addr, size, (step_error_iff hm).2 hu⟩
    have hkept : (m.pad x).upcoming = m.upcoming := (kept_upcoming m x).eq hu
    cases hup : m.upcoming with
    | error fault =>
      rw [hup] at hkept
      rw [step_of_upcoming_error hm hup, step_of_upcoming_error hm' hkept, announcement_pad hu]
      rfl
    | ok next =>
      obtain ⟨i, effect⟩ := next
      rw [hup] at hkept
      rw [step_of_upcoming_ok hm hup, step_of_upcoming_ok hm' hkept, announcement_pad hu,
        apply_pad (upcoming_eq_ok_iff.1 hup).2]
      rfl

/-- The machine has stopped because memory was too short. -/
def Overran (m : Machine) : Prop := ∃ addr size, m.state = .faulted (.memoryOutOfBounds addr size)

theorem overran_step_iff : m.step.machine.Overran ↔ Overruns m.step.outcome :=
  exists_congr fun _ => exists_congr fun _ => outcome_eq_error_iff.symm

theorem Overran.after (h : m.Overran) (k : Nat) : (m.after k).Overran := by
  obtain ⟨addr, size, hm⟩ := h
  rw [after_of_not_running (by simp [hm])]
  exact ⟨addr, size, hm⟩

theorem not_overran_of_le {j k : Nat} (hjk : j ≤ k) (h : ¬ (m.after k).Overran) :
    ¬ (m.after j).Overran := by
  obtain ⟨d, rfl⟩ := Nat.exists_eq_add_of_le hjk
  rw [after_add] at h
  exact fun hj => h (hj.after d)

theorem after_pad {k : Nat} (h : ¬ (m.after k).Overran) :
    (m.pad x).after k = (m.after k).pad x ∧ (m.pad x).events k = m.events k := by
  induction k with
  | zero => exact ⟨rfl, rfl⟩
  | succ k ih =>
    obtain ⟨hafter, hevents⟩ := ih (not_overran_of_le (Nat.le_succ k) h)
    rw [after_succ, overran_step_iff] at h
    have hstep := step_pad (x := x) h
    rw [after_succ, after_succ, events_succ, events_succ, hafter, hevents, hstep]
    exact ⟨rfl, rfl⟩

theorem span_pad {budget : Nat} (h : ¬ (m.after (m.span budget)).Overran) :
    m.span budget = (m.pad x).span budget :=
  span_congr fun j hj => by
    rw [(after_pad (x := x) (not_overran_of_le hj h)).1]
    exact Iff.rfl

/-- Let a run not end with a fault of memory. Then the run of the same machine with `x` behind its
memory has the same result and shows the same events, and it leaves the same machine, with `x`
unchanged behind its memory. -/
theorem run_pad {σ : Type} (sink : σ → Event → σ) (s : σ) (n : UInt64)
    (h : ∀ addr size, (m.run (Entry.toSink sink) (.instructionBudget n) s).result ≠
      .error (.memoryOutOfBounds addr size)) (x : Array UInt8) :
    let run := m.run (Entry.toSink sink) (.instructionBudget n) s
    (m.pad x).run (Entry.toSink sink) (.instructionBudget n) s =
      { run with machine := run.machine.pad x } := by
  intro run
  have hover : ¬ (m.after (m.span n.toNat)).Overran := by
    rintro ⟨addr, size, hf⟩
    refine h addr size ?_
    rw [result_run]
    exact verdict_eq_error_iff.2 hf
  obtain ⟨hafter, hevents⟩ := after_pad (x := x) hover
  simp only [run, run_toSink, Watchdog.allowance, ← span_pad (x := x) hover, hafter, hevents]
  rfl

/-- Writes a `HALT` to the last byte of memory, and runs into it. -/
def storeAtEnd : Machine where
  config := { tracing := true }
  regs := { c := 2 }
  memory := ⟨#[0x78, 0x01, 0x00]⟩

theorem run_pad_storeAtEnd :
    let run := storeAtEnd.run (Entry.toSink fun es e => es ++ [e]) (.instructionBudget 9) []
    (∀ addr size, run.result ≠ .error (.memoryOutOfBounds addr size)) ∧
    (storeAtEnd.pad #[0xff, 0x05]).run (Entry.toSink fun es e => es ++ [e])
      (.instructionBudget 9) [] = { run with machine := run.machine.pad #[0xff, 0x05] } ∧
    run.result = .ok ⟨.halted, 2⟩ ∧
    (run.machine.pad #[0xff, 0x05]).memory = ⟨#[0x78, 0x01, 0x01, 0xff, 0x05]⟩ := by
  intro run
  have hresult : run.result = .ok ⟨.halted, 2⟩ := rfl
  have h : ∀ addr size, run.result ≠ .error (.memoryOutOfBounds addr size) := by simp [hresult]
  exact ⟨h, run_pad _ [] 9 h #[0xff, 0x05], hresult, rfl⟩

end Machine

end Tomtel
