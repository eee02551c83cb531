import Tomtel.Proofs.Code
import Tomtel.Proofs.Conformance
import Tomtel.Proofs.Loop

/-!
# Straight-line programs

A program without jumps, as long as it leaves its own code alone, does what its instructions do one
after the other. `Machine.executeAll` executes them so, without a fetch, and the machine that runs
the program follows it step by step (`StandsAt.after`) up to the `HALT` behind them or the first
fault: `run_straightLine`.
-/

namespace Tomtel

open Instruction

namespace Instruction

/-- The next instruction is the one behind: no `HALT`, no jump and no wide move into `pc`. -/
def IsStraight : Instruction → Prop
  | .halt | .jez _ | .jnz _ => False
  | .mv32 dest _ | .mvi32 dest _ => dest ≠ .pc
  | _ => True

/-- The memory cell is the destination. -/
def StoresCell : Instruction → Prop
  | .mv dest _ | .mvi dest _ => dest = .cell
  | _ => False

variable {i : Instruction} {regs : RegisterFile} {memory : Memory} {effect : Effect}

theorem exists_write_of_mv {dest src : ByteOperand}
    (h : (mv dest src).effect regs memory = .ok effect) :
    ∃ v, dest.write v regs memory = .ok effect := by
  rw [Instruction.effect] at h
  rcases hr : src.read regs memory with fault | v
  · rw [hr] at h
    cases h
  · rw [hr] at h
    exact ⟨v, h⟩

theorem effect_of_isStraight (hi : i.IsStraight) (h : i.effect regs memory = .ok effect) :
    effect ≠ .halt ∧ ∀ v, effect ≠ .setWide .pc v := by
  have hwrite : ∀ {operand : ByteOperand} {v : UInt8},
      operand.write v regs memory = .ok effect → effect ≠ .halt ∧ ∀ v, effect ≠ .setWide .pc v := by
    intro operand v hw
    rcases operand with r | _
    · cases hw
      simp
    · obtain ⟨-, rfl⟩ := ByteOperand.write_cell_eq_ok hw
      simp
  cases i with
  | halt => exact hi.elim
  | jez target => exact hi.elim
  | jnz target => exact hi.elim
  | mv dest src =>
    obtain ⟨v, hw⟩ := exists_write_of_mv h
    exact hwrite hw
  | mvi dest imm => exact hwrite h
  | mv32 dest src =>
    cases h
    have hd : dest ≠ .pc := hi
    simp [hd]
  | mvi32 dest imm =>
    cases h
    have hd : dest ≠ .pc := hi
    simp [hd]
  | _ =>
    cases h
    simp

theorem store_of_effect {addr : UInt64} {v : UInt8}
    (h : i.effect regs memory = .ok (.store addr v)) :
    i.StoresCell ∧ addr = regs.cellAddress := by
  have hwrite : ∀ {operand : ByteOperand} {w : UInt8},
      operand.write w regs memory = .ok (.store addr v) →
        operand = .cell ∧ addr = regs.cellAddress := by
    intro operand w hw
    rcases operand with r | _
    · cases hw
    · obtain ⟨-, he⟩ := ByteOperand.write_cell_eq_ok hw
      cases he
      exact ⟨rfl, rfl⟩
  cases i with
  | mv dest src =>
    obtain ⟨w, hw⟩ := exists_write_of_mv h
    exact hwrite hw
  | mvi dest imm => exact hwrite h
  | jez target =>
    rw [Instruction.effect] at h
    split_ifs at h <;> cases h
  | jnz target =>
    rw [Instruction.effect] at h
    split_ifs at h <;> cases h
  | _ => cases h

end Instruction

namespace Machine

variable {m m' ref : Machine} {is js : List Instruction} {i : Instruction} {effect : Effect}
  {fault : Fault} {addr j : Nat}

theorem pc_apply (h : ∀ v, effect ≠ .setWide .pc v) : (m.apply effect).pc = m.pc := by
  cases effect with
  | setByte r v => exact RegisterFile.wide_setByte m.regs r .pc v
  | setWide r v =>
    have hr : r ≠ .pc := by
      rintro rfl
      exact h v rfl
    cases r with
    | pc => exact absurd rfl hr
    | _ => rfl
  | _ => rfl

/-- Bytes below the cell are safe from an instruction that stores into it. -/
theorem contains_apply {bytes : List UInt8} (hbytes : m.memory.Contains 0 bytes)
    (h : i.effect m.regs m.memory = .ok effect)
    (hstore : i.StoresCell → bytes.length ≤ m.regs.ptr.toNat + m.regs.c.toNat) :
    (m.apply effect).memory.Contains 0 bytes := by
  cases effect with
  | store cell v =>
    obtain ⟨hi, rfl⟩ := store_of_effect h
    have hle := hstore hi
    refine hbytes.congr fun k hk => ?_
    have hne : m.regs.cellAddress.toNat ≠ 0 + k := by
      rw [RegisterFile.toNat_cellAddress]
      omega
    exact Array.getElem?_setIfInBounds_ne hne
  | _ => exact hbytes

/-! ### Instructions one after the other -/

/-- Executes `i` with `pc` set behind the encoding of `i`, which starts at `addr`. -/
def executeAt (m : Machine) (addr : Nat) (i : Instruction) : Except Fault Machine :=
  let attempt := (m.setPc (.ofNat (addr + i.encode.length))).execute i (.ofNat addr)
  match attempt.outcome with
  | .error fault => .error fault
  | .ok _ => .ok attempt.machine

/-- Executes instructions one after the other, up to the first that faults. Their encodings start at
`addr`, one behind the other. -/
def executeAll (m : Machine) : (addr : Nat) → List Instruction → Except Fault Machine
  | _, [] => .ok m
  | addr, i :: is => do (← m.executeAt addr i).executeAll (addr + i.encode.length) is

theorem executeAt_eq (m : Machine) (addr : Nat) (i : Instruction) :
    let behind := m.setPc (.ofNat (addr + i.encode.length))
    m.executeAt addr i = (i.effect behind.regs m.memory).map behind.apply := by
  intro behind
  have hmemory : behind.memory = m.memory := rfl
  rcases he : i.effect behind.regs m.memory with fault | effect
  · rw [executeAt, execute, hmemory, he]
    rfl
  · rw [executeAt, execute, hmemory, he]
    rfl

theorem executeAll_cons_of_ok (h : m.executeAt addr i = .ok m') (is : List Instruction) :
    m.executeAll addr (i :: is) = m'.executeAll (addr + i.encode.length) is := by
  rw [executeAll, h]
  rfl

theorem executeAll_append (m : Machine) (addr : Nat) (is js : List Instruction) :
    m.executeAll addr (is ++ js) =
      m.executeAll addr is >>= fun m' => m'.executeAll (addr + (code is).length) js := by
  induction is generalizing m addr with
  | nil => rfl
  | cons i is ih =>
    rw [List.cons_append, executeAll, executeAll]
    rcases m.executeAt addr i with fault | m'
    · rfl
    · show m'.executeAll _ _ = m'.executeAll _ _ >>= _
      rw [ih, code_cons, List.length_append, Nat.add_assoc]

theorem executeAll_take_succ (hi : is[j]? = some i) :
    m.executeAll addr (is.take (j + 1)) =
      m.executeAll addr (is.take j) >>= fun m' =>
        m'.executeAt (addr + (code (is.take j)).length) i := by
  rw [List.take_add_one, hi, executeAll_append]
  refine congrArg _ (funext fun m' => ?_)
  exact bind_pure _

/-- A fault has a first instruction that raises it. -/
theorem exists_first_fault (h : m.executeAll addr is = .error fault) :
    ∃ j i ref, is[j]? = some i ∧ m.executeAll addr (is.take j) = .ok ref ∧
      ref.executeAt (addr + (code (is.take j)).length) i = .error fault := by
  induction is generalizing m addr with
  | nil => cases h
  | cons i is ih =>
    rcases hex : m.executeAt addr i with fault' | m'
    · rw [executeAll, hex] at h
      cases h
      exact ⟨0, i, m, rfl, rfl, hex⟩
    · rw [executeAll_cons_of_ok hex] at h
      obtain ⟨j, i', ref, hi, href, hfault⟩ := ih h
      refine ⟨j + 1, i', ref, hi, ?_, ?_⟩
      · rw [List.take_succ_cons, executeAll_cons_of_ok hex, href]
      · rw [List.take_succ_cons, code_cons, List.length_append, ← Nat.add_assoc, hfault]

/-- No store that `m` makes in these instructions, up to the first fault, falls below `limit`. -/
def StoresFrom (m : Machine) (is : List Instruction) (limit : Nat) : Prop :=
  ∀ j i ref ref', is[j]? = some i → i.StoresCell →
    m.executeAll 0 (is.take j) = .ok ref → m.executeAll 0 (is.take (j + 1)) = .ok ref' →
    limit ≤ ref.regs.ptr.toNat + ref.regs.c.toNat

/-! ### A machine in a program -/

/-- The machine is about to execute instruction `j` of code that stands at the start of memory. -/
structure StandsAt (m : Machine) (is : List Instruction) (j : Nat) : Prop where
  running : m.state = .running
  layout : m.config.layout = .littleEndian
  size_lt : m.memory.size < 2 ^ 32
  contains : m.memory.Contains 0 (code is)
  pc_eq : m.pc = .ofNat (code (is.take j)).length

namespace StandsAt

/-- A fresh machine, in a program of instructions with data behind them. -/
theorem boot {config : Config} {program : Program} {bytes : List UInt8}
    (hlayout : config.layout = .littleEndian) (hsize : program.bytes.size < 2 ^ 32)
    (h : program.bytes.toList = code is ++ bytes) :
    (Machine.boot config ⟨program.bytes⟩).StandsAt is 0 :=
  ⟨rfl, hlayout, hsize, Memory.contains_start h, rfl⟩

theorem length_lt (h : m.StandsAt is j) : is.length < 2 ^ 32 := by
  have hlen := length_le_length_code is
  have hle := h.contains.length_le_size
  have hsize := h.size_lt
  omega

theorem past_eq (h : m.StandsAt is j) (i : Instruction) :
    m.past i = m.setPc (.ofNat ((code (is.take j)).length + i.encode.length)) := by
  rw [past, h.pc_eq, i.length_encode, UInt32.ofNat_add, UInt32.ofNat_uInt8ToNat]

section

variable (h : m.StandsAt is j) (hi : is[j]? = some i)
include h hi

theorem instruction_eq : m.memory.instruction m.config.layout m.pc = .ok i := by
  have hcode := Memory.contains_of_getElem?_code h.contains hi
  rw [Nat.zero_add] at hcode
  have hle := hcode.add_length_le
  have hsize := h.size_lt
  have hpc : m.pc.toNat = (code (is.take j)).length := by
    rw [h.pc_eq]
    exact UInt32.toNat_ofNat_of_lt' (show _ < 2 ^ 32 by omega)
  rw [← hpc] at hcode
  rw [h.layout, Memory.instruction_of_contains hsize hcode, mapWord_view_littleEndian]

theorem upcoming_of_error (hex : m.executeAt (code (is.take j)).length i = .error fault) :
    m.upcoming = .error fault := by
  rw [executeAt_eq, ← h.past_eq i] at hex
  rcases he : i.effect (m.past i).regs m.memory with fault' | effect
  · rw [he] at hex
    cases hex
    exact upcoming_eq_error_iff.2 (.inr ⟨i, h.instruction_eq hi, he⟩)
  · rw [he] at hex
    cases hex

theorem exists_upcoming_of_ok (hex : m.executeAt (code (is.take j)).length i = .ok m') :
    ∃ effect, m.upcoming = .ok (i, effect) ∧ (m.past i).apply effect = m' := by
  rw [executeAt_eq, ← h.past_eq i] at hex
  rcases he : i.effect (m.past i).regs m.memory with fault' | effect
  · rw [he] at hex
    cases hex
  · rw [he] at hex
    cases hex
    exact ⟨effect, upcoming_eq_ok_iff.2 ⟨h.instruction_eq hi, he⟩, rfl⟩

theorem machine_step_of_error (hex : m.executeAt (code (is.take j)).length i = .error fault) :
    m.step.machine = { m with state := .faulted fault } := by
  rw [step_of_upcoming_error h.running (h.upcoming_of_error hi hex)]
  rfl

theorem machine_step_of_ok (hex : m.executeAt (code (is.take j)).length i = .ok m') :
    m.step.machine = m' := by
  obtain ⟨effect, hup, rfl⟩ := h.exists_upcoming_of_ok hi hex
  rw [step_of_upcoming_ok h.running hup]

/-- A straight instruction that leaves the code alone leads to the next. -/
theorem succ (hs : i.IsStraight) (hex : m.executeAt (code (is.take j)).length i = .ok m')
    (hstore : i.StoresCell → (code is).length ≤ m.regs.ptr.toNat + m.regs.c.toNat) :
    m'.StandsAt is (j + 1) := by
  obtain ⟨effect, hup, rfl⟩ := h.exists_upcoming_of_ok hi hex
  obtain ⟨-, he⟩ := upcoming_eq_ok_iff.1 hup
  obtain ⟨hhalt, hpc⟩ := effect_of_isStraight hs he
  constructor
  · rw [state_apply, if_neg hhalt]
    exact h.running
  · rw [config_apply]
    exact h.layout
  · rw [size_apply]
    exact h.size_lt
  · exact contains_apply (m := m.past i) h.contains he hstore
  · rw [pc_apply hpc, h.past_eq i, pc_setPc, List.take_add_one, hi, code_append,
      List.length_append]
    simp

end

section

variable (h : m.StandsAt (is ++ js) 0) (hs : ∀ i ∈ is, i.IsStraight)
  (hstores : m.StoresFrom is (code (is ++ js)).length)
include h hs hstores

/-- The machine follows the instructions as long as none of them faults. -/
theorem after (hj : j ≤ is.length) (href : m.executeAll 0 (is.take j) = .ok ref) :
    m.after j = ref ∧ ref.StandsAt (is ++ js) j := by
  -- the induction carries that the code is still intact, for the next step reads it
  induction j generalizing ref with
  | zero =>
    cases href
    exact ⟨rfl, h⟩
  | succ j ih =>
    have hi : is[j]? = some is[j] := List.getElem?_eq_getElem hj
    have hi' : (is ++ js)[j]? = some is[j] := by rw [List.getElem?_append_left hj, hi]
    have hprev := href
    rw [executeAll_take_succ hi, Nat.zero_add] at hprev
    obtain ⟨prev, hprev, hex⟩ := bind_eq_ok.1 hprev
    obtain ⟨hafter, hstands⟩ := ih (Nat.le_of_succ_le hj) hprev
    have htake : (is ++ js).take j = is.take j :=
      List.take_append_of_le_length (Nat.le_of_succ_le hj)
    rw [← htake] at hex
    constructor
    · rw [after_succ, hafter]
      exact hstands.machine_step_of_ok hi' hex
    · refine hstands.succ hi' (hs _ (List.getElem_mem hj)) hex fun hcell => ?_
      exact hstores j _ prev ref hi hcell hprev href

theorem after_of_error (hi : is[j]? = some i) (href : m.executeAll 0 (is.take j) = .ok ref)
    (hex : ref.executeAt (code (is.take j)).length i = .error fault) :
    (m.after j).state = .running ∧ m.after (j + 1) =
      { ref.setPc (.ofNat (code (is.take j)).length) with state := .faulted fault } := by
  obtain ⟨hj, -⟩ := List.getElem?_eq_some_iff.1 hi
  obtain ⟨hafter, hstands⟩ := h.after hs hstores (Nat.le_of_lt hj) href
  have htake : (is ++ js).take j = is.take j := List.take_append_of_le_length (Nat.le_of_lt hj)
  have hi' : (is ++ js)[j]? = some i := by rw [List.getElem?_append_left hj, hi]
  have hpc := hstands.pc_eq
  rw [htake] at hpc
  rw [after_succ, hafter, ← hpc, setPc_pc]
  rw [← htake] at hex
  exact ⟨hstands.running, hstands.machine_step_of_error hi' hex⟩

end

theorem after_of_ok (h : m.StandsAt (is ++ [.halt]) 0) (hs : ∀ i ∈ is, i.IsStraight)
    (hstores : m.StoresFrom is (code (is ++ [.halt])).length)
    (href : m.executeAll 0 is = .ok ref) :
    (m.after is.length).state = .running ∧ m.after (is.length + 1) =
      { ref.setPc (.ofNat ((code is).length + 1)) with state := .halted } := by
  rw [← is.take_length] at href
  obtain ⟨hafter, hstands⟩ := h.after hs hstores (Nat.le_refl _) href
  have hhalt : (is ++ [.halt])[is.length]? = some .halt := List.getElem?_concat_length
  rw [after_succ, hafter]
  refine ⟨hstands.running, hstands.machine_step_of_ok hhalt ?_⟩
  rw [List.take_left, executeAt_eq]
  rfl

end StandsAt

end Machine

open Machine

namespace Program

/-- Emit instructions without a jump, a `HALT` behind them and any data behind that, and run the
image on a fresh machine, without a bound or with a budget for all of it. If no store of the
instructions falls into the code, the run does what they do one after the other. If none of them
faults, the run halts with the machine that they leave, and `pc` behind the `HALT`. If one of them
faults, the run gives its fault and leaves the machine that it found, with `pc` at its address. -/
theorem run_straightLine (is : List Instruction) (bytes : List UInt8) (config : Config) :
    let image := ((({} : Program).emitAll is).emit .halt).data bytes
    let m := boot config ⟨image.bytes⟩
    image.bytes.size < 2 ^ 32 → config.layout = .littleEndian → (∀ i ∈ is, i.IsStraight) →
    m.StoresFrom is ((code is).length + 1) →
    ∀ watchdog : Watchdog, watchdog.Permits (is.length + 1) →
    ∀ {σ : Type} (sink : σ → Event → σ) (s : σ),
      let run := m.run (Entry.toSink sink) watchdog s
      (∀ clock rounds, is.length + 1 < rounds →
        m.timedRun (Entry.toSink sink) watchdog clock rounds s = some run) ∧
      (∀ ref, m.executeAll 0 is = .ok ref →
        run.result = .ok ⟨.halted, .ofNat (is.length + 1)⟩ ∧
        run.machine =
          { ref.setPc (.ofNat ((code is).length + 1)) with state := .halted }) ∧
      ∀ fault, m.executeAll 0 is = .error fault →
        ∃ j i ref, is[j]? = some i ∧ m.executeAll 0 (is.take j) = .ok ref ∧
          ref.executeAt (code (is.take j)).length i = .error fault ∧
          run.result = .error fault ∧
          run.machine =
            { ref.setPc (.ofNat (code (is.take j)).length) with state := .faulted fault } := by
  intro image m hsize hlayout hs hstores watchdog hwatchdog σ sink s run
  have himage : image.bytes.toList = code (is ++ [.halt]) ++ bytes := by simp [image]
  have hstands : m.StandsAt (is ++ [.halt]) 0 := .boot hlayout hsize himage
  have hcode : (code (is ++ [.halt])).length = (code is).length + 1 := by
    rw [code_append, List.length_append]
    rfl
  rw [← hcode] at hstores
  have hcount : is.length + 1 < UInt64.size := by
    have hlen := hstands.length_lt
    rw [List.length_append] at hlen
    exact Nat.lt_trans hlen (by decide)
  rcases hex : m.executeAll 0 is with fault | ref
  · obtain ⟨j, i, ref, hi, href, hfault⟩ := exists_first_fault hex
    rw [Nat.zero_add] at hfault
    obtain ⟨hrun, hafter⟩ := hstands.after_of_error hs hstores hi href hfault
    have hj : j < is.length + 1 := Nat.lt_succ_of_lt (List.getElem?_eq_some_iff.1 hi).1
    obtain ⟨hmachine, hresult, htimed⟩ := run_of_permits (Entry.toSink sink) hwatchdog hcount hj hrun
      (by simp [hafter]) s
    rw [hafter] at hmachine hresult
    refine ⟨htimed, ?_, ?_⟩
    · intro ref' h
      cases h
    · intro fault' h
      cases h
      exact ⟨j, i, ref, hi, href, hfault, hresult, hmachine⟩
  · obtain ⟨hrun, hafter⟩ := hstands.after_of_ok hs hstores hex
    obtain ⟨hmachine, hresult, htimed⟩ := run_of_permits (Entry.toSink sink) hwatchdog hcount
      (Nat.lt_succ_self _) hrun (by simp [hafter]) s
    rw [hafter] at hmachine hresult
    refine ⟨htimed, ?_, ?_⟩
    · intro ref' h
      cases h
      exact ⟨hresult, hmachine⟩
    · intro fault' h
      cases h

/-- Finds the byte behind its `HALT` from `pc`, stores 7 there, and writes it out. -/
def storeBehind : List Instruction :=
  [.mv32 .ptr .pc, .aptr 7, .mvi .cell 7, .mv (.register .a) .cell, .out]

theorem storesFrom_storeBehind (memory : Memory) :
    (boot {} memory).StoresFrom storeBehind 8 := by
  intro j i ref ref' hi hcell href _
  rcases j with _ | _ | _ | _ | _ | j
  · cases hi
    exact hcell.elim
  · cases hi
    exact hcell.elim
  · cases hi
    cases href
    exact Nat.le_refl 8
  · cases hi
    cases hcell
  · cases hi
    exact hcell.elim
  · cases hi

/-- With a byte behind the `HALT` it halts, and without one its store faults. -/
theorem run_straightLine_storeBehind :
    let image (bytes : List UInt8) := ((({} : Program).emitAll storeBehind).emit .halt).data bytes
    let m (bytes : List UInt8) := boot {} ⟨(image bytes).bytes⟩
    let run (bytes : List UInt8) :=
      (m bytes).run (Entry.toSink fun es e => es ++ [e]) (.instructionBudget 6) []
    (∀ i ∈ storeBehind, i.IsStraight) ∧
    (m [0]).StoresFrom storeBehind 8 ∧ (m []).StoresFrom storeBehind 8 ∧
    (∃ ref, (m [0]).executeAll 0 storeBehind = .ok ref ∧ ref.output.bytes = #[7] ∧
      (run [0]).result = .ok ⟨.halted, 6⟩ ∧
      (run [0]).machine = { ref.setPc 8 with state := .halted }) ∧
    ∃ ref, (m []).executeAll 0 (storeBehind.take 2) = .ok ref ∧
      (run []).result = .error (.memoryOutOfBounds 8 8) ∧
      (run []).machine = { ref.setPc 3 with state := .faulted (.memoryOutOfBounds 8 8) } := by
  have hs : ∀ i ∈ storeBehind, i.IsStraight := by simp [storeBehind, IsStraight]
  intro image m run
  refine ⟨hs, storesFrom_storeBehind _, storesFrom_storeBehind _, ?_, ?_⟩
  · obtain ⟨hresult, hmachine⟩ := (run_straightLine storeBehind [0] {} (by decide) rfl hs
      (storesFrom_storeBehind _) (.instructionBudget 6) (Nat.le_refl 6) _ []).2.1 _ rfl
    exact ⟨_, rfl, rfl, hresult, hmachine⟩
  · obtain ⟨j, i, ref, hi, href, hfault, hresult, hmachine⟩ :=
      (run_straightLine storeBehind [] {} (by decide) rfl hs (storesFrom_storeBehind _)
        (.instructionBudget 6) (Nat.le_refl 6) _ []).2.2 (.memoryOutOfBounds 8 8) rfl
    rcases j with _ | _ | _ | _ | _ | j
    · cases hi
      cases href
      cases hfault
    · cases hi
      cases href
      cases hfault
    · exact ⟨ref, href, hresult, hmachine⟩
    · cases href
    · cases href
    · cases hi

end Program

end Tomtel
