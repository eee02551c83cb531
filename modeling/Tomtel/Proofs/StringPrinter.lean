import Mathlib.Data.List.TakeWhile
import Tomtel.Proofs.ForwardJumps
import Tomtel.Proofs.StraightLine

/-!
# A string printer

`Program.stringPrinter?` builds a program that writes out the bytes behind its code up to a zero.
Between its branches it is straight, so a machine follows it block by block (`StandsAt.block`,
`StandsAt.branch`) and its loop round by round, with `AtTop` as what holds at the top. The index of
the loop has eight bits: the loop ends at a zero, or else when the index wraps.
-/

namespace Tomtel

open Instruction

namespace Machine

variable {m ref : Machine} {is : List Instruction} {i : Instruction} {j t : Nat}

/-! ### Blocks and branches -/

namespace StandsAt

theorem setPc (h : m.StandsAt is j) (t : Nat) :
    (m.setPc (.ofNat (code (is.take t)).length)).StandsAt is t :=
  ⟨h.running, h.layout, h.size_lt, h.contains, rfl⟩

/-- A machine follows straight instructions that store nothing wherever they stand in the code. -/
theorem block (pre is post : List Instruction)
    (h : m.StandsAt (pre ++ (is ++ post)) pre.length) (hs : ∀ i ∈ is, i.IsStraight)
    (hstore : ∀ i ∈ is, ¬ i.StoresCell) (hex : m.executeAll (code pre).length is = .ok ref) :
    m.after is.length = ref ∧ ref.StandsAt (pre ++ (is ++ post)) (pre.length + is.length) := by
  induction is generalizing pre m with
  | nil =>
    cases hex
    exact ⟨rfl, h⟩
  | cons i is ih =>
    rw [List.forall_mem_cons] at hs hstore
    rw [executeAll] at hex
    obtain ⟨next, hnext, hrest⟩ := bind_eq_ok.1 hex
    have hi : (pre ++ (i :: is ++ post))[pre.length]? = some i := by simp
    have htake : (pre ++ (i :: is ++ post)).take pre.length = pre := List.take_left
    rw [← htake] at hnext
    have hstep := h.machine_step_of_ok hi hnext
    have hstands := h.succ hi hs.1 hnext fun hcell => absurd hcell hstore.1
    -- the instruction now belongs to what stands before
    have hsplit : pre ++ (i :: is ++ post) = pre ++ [i] ++ (is ++ post) := by simp
    have hlen : (pre ++ [i]).length = pre.length + 1 := List.length_append
    have haddr : (code (pre ++ [i])).length = (code pre).length + i.encode.length := by simp
    rw [hsplit, ← hlen] at hstands
    rw [← haddr] at hrest
    have hih := ih (pre ++ [i]) hstands hs.2 hstore.2 hrest
    rw [hlen, Nat.add_assoc, Nat.add_comm 1, ← hsplit, ← hstep] at hih
    exact hih

/-- A branch to instruction `t` moves `pc` and changes nothing else. -/
theorem branch {p : Prop} [Decidable p] (h : m.StandsAt is j) (hi : is[j]? = some i)
    (he : i.effect (m.past i).regs m.memory =
      .ok (if p then .setWide .pc (.ofNat (code (is.take t)).length) else .nothing)) :
    ∃ pc, m.after 1 = m.setPc pc ∧ (m.setPc pc).StandsAt is (if p then t else j + 1) := by
  have hstep := step_of_upcoming_ok h.running (upcoming_eq_ok_iff.2 ⟨h.instruction_eq hi, he⟩)
  by_cases hp : p
  · have hafter : m.after 1 = m.setPc (.ofNat (code (is.take t)).length) := by
      show m.step.machine = _
      rw [hstep, if_pos hp]
      rfl
    rw [if_pos hp]
    exact ⟨_, hafter, h.setPc t⟩
  · have hbehind :
        (code (is.take j)).length + i.encode.length = (code (is.take (j + 1))).length := by
      rw [List.take_add_one, hi]
      simp
    have hafter : m.after 1 = m.setPc (.ofNat (code (is.take (j + 1))).length) := by
      show m.step.machine = _
      rw [hstep, if_neg hp, ← hbehind, ← h.past_eq i]
      rfl
    rw [if_neg hp]
    exact ⟨_, hafter, h.setPc (j + 1)⟩

theorem after_halt (h : m.StandsAt is j) (hi : is[j]? = some .halt) :
    ∃ pc, m.after 1 = { m.setPc pc with state := .halted } := by
  have hstep := step_of_upcoming_ok h.running (upcoming_eq_ok_iff.2 ⟨h.instruction_eq hi, rfl⟩)
  exact ⟨_, congrArg Attempt.machine hstep⟩

end StandsAt

end Machine

open Machine

namespace Program

/-- Writes out the bytes at its data up to a zero. Where the data begins is not known yet. -/
def stringPrinterCode? : Option Program :=
  let program := ({} : Program).emitAll [.mvi32 .ptr 0, .mvi (.register .c) 0]
  let top := program.here
  let program := program.emitAll [.mv (.register .a) .cell, .mvi (.register .b) 0, .cmp]
  let (program, done) := program.jezForward
  let program := program.emitAll [.out, .mv (.register .a) (.register .c),
    .mvi (.register .b) 1, .add, .mv (.register .c) (.register .a), .mvi (.register .b) 0, .cmp,
    .jnz top]
  let stop := program.here
  do return (← program.patch? done stop).emit .halt

/-- Writes out `text`, which stands behind the code with a zero at its end. -/
def stringPrinter? (text : List UInt8) : Option Program := do
  let program ← stringPrinterCode?
  ((program.data text).data [0]).patch? ⟨1⟩ program.here

namespace StringPrinter

/-! ### The image -/

/-- Compares `a` with zero. -/
def test : List Instruction := [.mvi (.register .b) 0, .cmp]

/-- Fetches the next byte. -/
def fetch : List Instruction := .mv (.register .a) .cell :: test

/-- Adds one to `c`. -/
def count : List Instruction :=
  [.mv (.register .a) (.register .c), .mvi (.register .b) 1, .add,
    .mv (.register .c) (.register .a)]

/-- Puts the byte out and goes on to the next. -/
def put : List Instruction := .out :: (count ++ test)

/-- The instructions, where the data begins at `data`. The loop is from `fetch`, instruction 2, to
the `JNZ` before the `HALT`, which is instruction 14. -/
def instructions (data : UInt32) : List Instruction :=
  [.mvi32 .ptr data, .mvi (.register .c) 0] ++ fetch ++ [.jez 30] ++ put ++ [.jnz 7, .halt]

/-- The data stands right behind the code. -/
def printer : List Instruction := instructions 31

theorem stringPrinterCode?_eq :
    stringPrinterCode? = some (({} : Program).emitAll (instructions 0)) := rfl

theorem stringPrinter?_eq (text : List UInt8) :
    stringPrinter? text = some ⟨(code printer ++ (text ++ [0])).toArray⟩ := by
  -- the address of the data is the operand of the first instruction
  have hcode : ∀ data, code (instructions data) =
      [(mvi32 .ptr 0).lead] ++ Word.bytes data ++ code (instructions 0).tail := fun _ => rfl
  have hdraft : (((({} : Program).emitAll (instructions 0)).data text).data [0]).bytes.toList =
      [(mvi32 .ptr 0).lead] ++ Word.bytes 0 ++ (code (instructions 0).tail ++ (text ++ [0])) := by
    rw [toList_data, toList_data, toList_emitAll, hcode]
    simp
  rw [stringPrinter?, stringPrinterCode?_eq, printer, hcode, List.append_assoc]
  exact patch?_eq _ hdraft 31

/-! ### What the blocks do -/

theorem flag_eq_zero_iff {p : Prop} [Decidable p] : (if p then (0 : UInt8) else 1) = 0 ↔ p := by
  by_cases hp : p <;> simp [hp]

section

variable {m : Machine} {v : UInt8}

theorem executeAll_test (m : Machine) (addr : Nat) :
    m.executeAll addr test = .ok { m with
      regs := { m.regs with
        b := 0, f := if m.regs.a = 0 then 0 else 1, pc := .ofNat (addr + 2 + 1) } } := rfl

theorem executeAll_fetch (hv : m.memory.read m.regs.cellAddress = .ok v) :
    m.executeAll 7 fetch = .ok { m with
      regs := { m.regs with a := v, b := 0, f := if v = 0 then 0 else 1, pc := 11 } } := by
  have hread : ByteOperand.cell.read (m.setPc 8).regs m.memory = .ok v := hv
  have heffect : (mv (.register .a) .cell).effect (m.setPc 8).regs m.memory =
      .ok (.setByte .a v) := by
    rw [effect, hread]
    rfl
  have hmv : m.executeAt 7 (.mv (.register .a) .cell) =
      .ok { m with regs := { m.regs with a := v, pc := 8 } } := by
    rw [executeAt_eq]
    exact congrArg _ heffect
  rw [fetch, executeAll_cons_of_ok hmv]
  exact executeAll_test _ 8

theorem executeAll_count (m : Machine) :
    m.executeAll 17 count = .ok { m with
      regs := { m.regs with a := m.regs.c + 1, b := 1, c := m.regs.c + 1, pc := 22 } } := by
  rfl

theorem executeAll_put (m : Machine) :
    m.executeAll 16 put = .ok { m with
      regs := { m.regs with
        a := m.regs.c + 1, b := 0, c := m.regs.c + 1
        f := if m.regs.c + 1 = 0 then 0 else 1, pc := 25 }
      output := m.output.push m.regs.a } := by
  have hout : m.executeAt 16 .out =
      .ok { m with regs := { m.regs with pc := 17 }, output := m.output.push m.regs.a } := rfl
  rw [put, executeAll_cons_of_ok hout, executeAll_append]
  show executeAll _ 17 count >>= _ = _
  rw [executeAll_count]
  exact executeAll_test _ 22

theorem after_fetch (h : m.StandsAt printer 2) (hv : m.memory.read m.regs.cellAddress = .ok v) :
    ∃ f pc, m.after 4 = { m with regs := { m.regs with a := v, b := 0, f := f, pc := pc } } ∧
      (m.after 4).StandsAt printer (if v = 0 then 14 else 6) := by
  obtain ⟨hafter, hstands⟩ := StandsAt.block (printer.take 2) fetch (printer.drop 5) h
    (by simp [fetch, test, IsStraight]) (by simp [fetch, test, StoresCell]) (executeAll_fetch hv)
  have hfetch : m.after 3 = _ := hafter
  obtain ⟨pc, hbranch, hstands'⟩ := hstands.branch (i := .jez 30) (t := 14) (p := v = 0) rfl
    (congrArg _ (if_congr flag_eq_zero_iff rfl rfl))
  rw [m.after_add 3 1, hfetch, hbranch]
  exact ⟨_, pc, rfl, hstands'⟩

theorem after_put (h : m.StandsAt printer 6) :
    ∃ f pc, m.after 8 = { m with
        regs := { m.regs with a := m.regs.c + 1, b := 0, c := m.regs.c + 1, f := f, pc := pc }
        output := m.output.push m.regs.a } ∧
      (m.after 8).StandsAt printer (if m.regs.c + 1 ≠ 0 then 2 else 14) := by
  obtain ⟨hafter, hstands⟩ := StandsAt.block (printer.take 6) put (printer.drop 13) h
    (by simp [put, count, test, IsStraight]) (by simp [put, count, test, StoresCell])
    (executeAll_put m)
  have hput : m.after 7 = _ := hafter
  obtain ⟨pc, hbranch, hstands'⟩ := hstands.branch (i := .jnz 7) (t := 2)
    (p := m.regs.c + 1 ≠ 0) rfl
    (congrArg _ ((if_congr flag_eq_zero_iff rfl rfl).trans (ite_not ..).symm))
  rw [m.after_add 7 1, hput, hbranch]
  exact ⟨_, pc, rfl, hstands'⟩

end

/-! ### The loop -/

variable {text : List UInt8} {m : Machine} {v : UInt8} {k : Nat}

/-- The machine has the image in memory and has put out `k` bytes of `text`. -/
structure HasPut (text : List UInt8) (m : Machine) (k : Nat) : Prop where
  memory : m.memory.bytes.toList = code printer ++ (text ++ [0])
  output : m.output.bytes.toList = text.take k

/-- The machine is at the top of the loop with `k` bytes put out. -/
structure AtTop (text : List UInt8) (m : Machine) (k : Nat) : Prop extends HasPut text m k where
  stands : m.StandsAt printer 2
  lt : k < 256
  c : m.regs.c = .ofNat k
  ptr : m.regs.ptr = 31

theorem atTop_boot {config : Config} {program : Program}
    (hlayout : config.layout = .littleEndian) (hsize : program.bytes.size < 2 ^ 32)
    (h : program.bytes.toList = code printer ++ (text ++ [0])) :
    AtTop text ((boot config ⟨program.bytes⟩).after 2) 0 := by
  obtain ⟨hafter, hstands⟩ := StandsAt.block [] (printer.take 2) (printer.drop 2)
    (.boot hlayout hsize h) (by simp [printer, instructions, IsStraight])
    (by simp [printer, instructions, StoresCell]) rfl
  have hboot : (boot config ⟨program.bytes⟩).after 2 = _ := hafter
  rw [hboot]
  exact ⟨⟨h, rfl⟩, hstands, by decide, rfl, rfl⟩

namespace AtTop

theorem read (h : AtTop text m k) (hv : (text ++ [0])[k]? = some v) :
    m.memory.read m.regs.cellAddress = .ok v := by
  have haddr : m.regs.cellAddress.toNat = 31 + k := by
    rw [RegisterFile.toNat_cellAddress, h.ptr, h.c, UInt8.toNat_ofNat_of_lt' h.lt]
    rfl
  refine Memory.read_of_getElem? haddr ?_
  rw [← Array.getElem?_toList, h.memory, List.getElem?_append_right (Nat.le_add_right 31 k),
    show (code printer).length = 31 from rfl, Nat.add_sub_cancel_left, hv]

/-- At a zero the loop ends. -/
theorem after_zero (h : AtTop text m k) (hv : (text ++ [0])[k]? = some 0) :
    (m.after 4).StandsAt printer 14 ∧ HasPut text (m.after 4) k := by
  obtain ⟨f, pc, hafter, hstands⟩ := after_fetch h.stands (h.read hv)
  refine ⟨hstands, ?_⟩
  rw [hafter]
  exact ⟨h.memory, h.output⟩

/-- Any other byte is put out. -/
theorem after_byte (h : AtTop text m k) (hv : text[k]? = some v) (hne : v ≠ 0) :
    HasPut text (m.after 12) (k + 1) ∧ (m.after 12).regs.c = .ofNat (k + 1) ∧
      (m.after 12).regs.ptr = 31 ∧
      (m.after 12).StandsAt printer (if UInt8.ofNat (k + 1) ≠ 0 then 2 else 14) := by
  obtain ⟨hk, -⟩ := List.getElem?_eq_some_iff.1 hv
  have hv' : (text ++ [0])[k]? = some v := by rw [List.getElem?_append_left hk, hv]
  obtain ⟨f, pc, hfetch, hstands⟩ := after_fetch h.stands (h.read hv')
  rw [if_neg hne] at hstands
  obtain ⟨f', pc', hput, hstands'⟩ := after_put hstands
  have hc : (m.after 4).regs.c + 1 = .ofNat (k + 1) := by
    rw [hfetch]
    show m.regs.c + 1 = _
    rw [h.c, UInt8.ofNat_add]
    rfl
  rw [hc] at hput hstands'
  rw [m.after_add 4 8]
  refine ⟨?_, ?_, ?_, hstands'⟩
  · rw [hput, hfetch]
    refine ⟨h.memory, ?_⟩
    show (m.output.bytes.push v).toList = _
    rw [Array.toList_push, h.output, List.take_add_one, hv]
    rfl
  · rw [hput]
  · rw [hput, hfetch]
    exact h.ptr

/-- A round before the index wraps leads back to the top. -/
theorem next (h : AtTop text m k) (hv : text[k]? = some v) (hne : v ≠ 0) (hk : k + 1 < 256) :
    AtTop text (m.after 12) (k + 1) := by
  obtain ⟨hput, hc, hptr, hstands⟩ := h.after_byte hv hne
  have hwrap : UInt8.ofNat (k + 1) ≠ 0 := by
    rw [Ne, ← UInt8.toNat_inj, UInt8.toNat_ofNat_of_lt' hk]
    exact Nat.succ_ne_zero k
  rw [if_pos hwrap] at hstands
  exact ⟨hput, hstands, hk, hc, hptr⟩

/-- The round that wraps the index ends the loop. -/
theorem after_wrap (h : AtTop text m 255) (hv : text[255]? = some v) (hne : v ≠ 0) :
    (m.after 12).StandsAt printer 14 ∧ HasPut text (m.after 12) 256 := by
  obtain ⟨hput, -, -, hstands⟩ := h.after_byte hv hne
  exact ⟨hstands, hput⟩

end AtTop

/-! ### How far it gets -/

/-- The bytes before the first zero. -/
def visible (text : List UInt8) : List UInt8 := text.takeWhile (· ≠ 0)

theorem exists_getElem?_of_lt (hk : k < (visible text).length) :
    ∃ v, text[k]? = some v ∧ v ≠ 0 := by
  have hprefix : visible text <+: text := List.takeWhile_prefix _
  have hne := List.mem_takeWhile_imp (List.getElem_mem hk)
  exact ⟨(visible text)[k], List.prefix_iff_getElem?.1 hprefix k hk, of_decide_eq_true hne⟩

theorem getElem?_length_visible (text : List UInt8) :
    (text ++ [0])[(visible text).length]? = some 0 := by
  induction text with
  | nil => rfl
  | cons b text ih =>
    by_cases hb : b = 0
    · simp [visible, hb]
    · simpa [visible, hb] using ih

theorem atTop_after (h : AtTop text m 0) (hk : k < 256) (hle : k ≤ (visible text).length) :
    AtTop text (m.after (12 * k)) k := by
  induction k with
  | zero => exact h
  | succ k ih =>
    obtain ⟨v, hv, hne⟩ := exists_getElem?_of_lt hle
    have hprev := ih (by omega) (by omega)
    rw [Nat.mul_succ, m.after_add]
    exact hprev.next hv hne hk

/-- How many bytes it puts out. -/
def reach (text : List UInt8) : Nat := min 256 (visible text).length

/-- How many instructions it takes. -/
def duration (n : Nat) : Nat := if n < 256 then 7 + 12 * n else 3075

/-- The loop ends at the first zero, or with the byte that wraps the index. -/
theorem exists_after_loop (h : AtTop text m 0) :
    ∃ j, j + 3 = duration (reach text) ∧ (m.after j).StandsAt printer 14 ∧
      HasPut text (m.after j) (reach text) := by
  rcases Nat.lt_or_ge (visible text).length 256 with hlt | hge
  · have hreach : reach text = (visible text).length := Nat.min_eq_right (Nat.le_of_lt hlt)
    have htop := atTop_after h hlt (Nat.le_refl _)
    refine ⟨12 * reach text + 4, ?_, ?_⟩
    · rw [duration, if_pos (by omega)]
      omega
    · rw [m.after_add, hreach]
      exact htop.after_zero (getElem?_length_visible text)
  · have hreach : reach text = 256 := Nat.min_eq_left hge
    obtain ⟨v, hv, hne⟩ := exists_getElem?_of_lt hge
    have htop := atTop_after h (show 255 < 256 by decide) (by omega)
    refine ⟨12 * 255 + 12, by rw [hreach]; rfl, ?_⟩
    rw [m.after_add, hreach]
    exact htop.after_wrap hv hne

theorem exists_halt (h : AtTop text m 0) :
    ∃ j, j + 3 = duration (reach text) ∧ (m.after j).state = .running ∧
      (m.after (j + 1)).state = .halted ∧ HasPut text (m.after (j + 1)) (reach text) := by
  obtain ⟨j, hj, hstands, hput⟩ := exists_after_loop h
  obtain ⟨pc, hhalt⟩ := hstands.after_halt rfl
  refine ⟨j, hj, hstands.running, ?_, ?_⟩
  · rw [m.after_add, hhalt]
  · rw [m.after_add, hhalt]
    exact ⟨hput.memory, hput.output⟩

end StringPrinter

open StringPrinter

/-- The string printer is built for every text. On a fresh machine, without a bound or with a budget
of 3075 instructions at least, its run halts. It has put out the bytes before the first zero, at
most 256 of them, and has left memory as it was. -/
theorem run_stringPrinter (text : List UInt8) :
    ∃ image, stringPrinter? text = some image ∧ image.bytes.size = text.length + 32 ∧
      (image.bytes.size < 2 ^ 32 →
        ∀ config : Config, config.layout = .littleEndian →
        ∀ watchdog : Watchdog, watchdog.Permits 3075 →
        ∀ {σ : Type} (observe : σ → Entry → σ) (s : σ),
          let m := boot config ⟨image.bytes⟩
          let run := m.run observe watchdog s
          let shown := (text.takeWhile (· ≠ 0)).take 256
          let steps := if shown.length < 256 then 7 + 12 * shown.length else 3075
          run.result = .ok ⟨.halted, .ofNat steps⟩ ∧
          run.machine.output.bytes.toList = shown ∧ run.machine.memory = m.memory ∧
          ∀ clock rounds, 3075 < rounds →
            m.timedRun observe watchdog clock rounds s = some run) := by
  have hlength : (code printer).length = 31 := rfl
  refine ⟨_, stringPrinter?_eq text, by simp [hlength]; omega, ?_⟩
  intro hsize config hlayout watchdog hwatchdog σ observe s m run shown steps
  have hreach : shown.length = reach text := List.length_take
  have hshown : shown = text.take shown.length :=
    List.prefix_iff_eq_take.1 ((List.take_prefix 256 _).trans (List.takeWhile_prefix _))
  -- two instructions stand before the loop
  obtain ⟨j, hj, hrun, hhalt, hput⟩ := exists_halt (atTop_boot hlayout hsize rfl)
  rw [← hreach] at hj hput
  have hsteps : 2 + j + 1 = steps := by
    rw [show steps = duration shown.length from rfl, ← hj]
    omega
  have hlt : 2 + j < 3075 := by
    have hle : steps ≤ 3075 := by
      simp only [steps]
      split_ifs <;> omega
    omega
  rw [← m.after_add] at hrun hhalt hput
  rw [← Nat.add_assoc] at hhalt hput
  obtain ⟨hmachine, hresult, htimed⟩ := run_of_permits observe hwatchdog (by decide) hlt hrun
    (by simp [hhalt]) s
  refine ⟨?_, ?_, ?_, htimed⟩
  · rw [hresult, verdict, hhalt, hsteps]
  · rw [hmachine, hshown]
    exact hput.output
  · rw [hmachine]
    exact congrArg Memory.mk (Array.toList_inj.1 hput.memory)

/-- A text with a zero in it, and one that is longer than the index reaches. -/
theorem run_stringPrinter_hi :
    (∃ image, stringPrinter? [72, 105, 0, 33] = some image ∧ image.bytes.size < 2 ^ 32 ∧
      Watchdog.unbounded.Permits 3075 ∧
      let run := (boot {} ⟨image.bytes⟩).run (Entry.toSink fun es e => es ++ [e]) .unbounded []
      run.result = .ok ⟨.halted, 31⟩ ∧ run.machine.output.bytes.toList = [72, 105]) ∧
    ∃ image, stringPrinter? (.replicate 300 33) = some image ∧ image.bytes.size < 2 ^ 32 ∧
      (Watchdog.instructionBudget 3075).Permits 3075 ∧
      let run := (boot {} ⟨image.bytes⟩).run (Entry.toSink fun es e => es ++ [e])
        (.instructionBudget 3075) []
      run.result = .ok ⟨.halted, 3075⟩ ∧
        run.machine.output.bytes.toList = .replicate 256 33 := by
  constructor
  · obtain ⟨image, himage, hsize, hrun⟩ := run_stringPrinter [72, 105, 0, 33]
    have hlt : image.bytes.size < 2 ^ 32 := by simp [hsize]
    obtain ⟨hresult, houtput, -⟩ := hrun hlt {} rfl .unbounded trivial _ []
    exact ⟨image, himage, hlt, trivial, hresult, houtput⟩
  · obtain ⟨image, himage, hsize, hrun⟩ := run_stringPrinter (.replicate 300 33)
    have hlt : image.bytes.size < 2 ^ 32 := by
      rw [hsize, List.length_replicate]
      decide
    have hshown : ((List.replicate 300 (33 : UInt8)).takeWhile (· ≠ 0)).take 256 =
        .replicate 256 33 := by
      have hall : ∀ b ∈ List.replicate 300 (33 : UInt8), decide (b ≠ 0) = true := by
        intro b hb
        rw [List.eq_of_mem_replicate hb]
        decide
      rw [List.takeWhile_eq_self_iff.2 hall, List.take_replicate, Nat.min_eq_left (by decide)]
    have hpermits : (Watchdog.instructionBudget 3075).Permits 3075 := Nat.le_refl 3075
    obtain ⟨hresult, houtput, -⟩ := hrun hlt {} rfl (.instructionBudget 3075) hpermits _ []
    rw [hshown] at houtput
    rw [hshown, List.length_replicate] at hresult
    exact ⟨image, himage, hlt, hpermits, hresult, houtput⟩

end Program

end Tomtel
