import Tomtel.Proofs.Ledger
import Tomtel.Proofs.PreciseFault
import Tomtel.Proofs.Rows

/-!
# The log of a run

A run that begins with a running machine logs where it begins, each instruction that it attempts and
that can be read, as a listing shows it at that time, and how it ends: `run_log`. A step logs the
instruction at `pc` before it takes effect, so that it is logged too if its memory cell is missing,
but not if it cannot be read (`messages_step`).
-/

namespace Tomtel

/-! ### Observers of the log -/

section

variable {σ : Type} (record : σ → Message → σ)

/-- The observer that records log messages and drops trace events. -/
def Entry.toLog (s : σ) : Entry → σ
  | .event _ => s
  | .message m => record s m

theorem Entry.foldl_toLog (entries : List Entry) (s : σ) :
    entries.foldl (Entry.toLog record) s = (entries.filterMap Entry.message?).foldl record s := by
  induction entries generalizing s with
  | nil => rfl
  | cons entry entries ih =>
    cases entry with
    | event e => exact ih s
    | message message => exact ih (record s message)

end

/-- The message says how the run that left `m` with this result has ended. -/
inductive Message.Closes (m : Machine) : Except Fault RunOutcome → Message → Prop
  | halted (steps : UInt64) :
      Closes m (.ok ⟨.halted, steps⟩) (.halted steps m.output.size.toUInt64)
  | expired (steps : UInt64) : Closes m (.ok ⟨.timedOut, steps⟩) (.expired steps m.pc)
  | faulted (fault : Fault) : Closes m (.error fault) (.faulted m.pc fault)

namespace Message

theorem Closes.level {m : Machine} {result : Except Fault RunOutcome} {message : Message}
    (h : message.Closes m result) : message.level = .debug := by
  cases h <;> rfl

/-- A log in which the traces come first. -/
theorem filter_level {traces debugs : List Message}
    (htraces : ∀ message ∈ traces, message.level = .trace)
    (hdebugs : ∀ message ∈ debugs, message.level = .debug) :
    (traces ++ debugs).filter (fun message => message.level = .debug) = debugs ∧
      (traces ++ debugs).filter (fun message => message.level = .trace) = traces := by
  have hdebugLevel : traces.filter (fun message => message.level = .debug) = [] :=
    List.filter_eq_nil_iff.2 fun message h => by simp [htraces message h]
  have htraceLevel : debugs.filter (fun message => message.level = .trace) = [] :=
    List.filter_eq_nil_iff.2 fun message h => by simp [hdebugs message h]
  rw [List.filter_append, List.filter_append, hdebugLevel, htraceLevel, List.nil_append,
    List.append_nil]
  exact ⟨List.filter_eq_self.2 fun message h => by simp [hdebugs message h],
    List.filter_eq_self.2 fun message h => by simp [htraces message h]⟩

end Message

namespace Machine

variable {m : Machine} {fault : Fault} {k : Nat}

/-- What a listing shows at `pc`, behind the address, if it is an instruction. -/
def logLine? (m : Machine) : Option String :=
  ((m.memory.row? m.config.layout m.pc).filter fun row => !row.illegal).map fun row =>
    "0x" ++ Hex.word m.pc ++ ": " ++ row.text

/-- The fault is that the instruction at `pc` uses the memory cell at `ptr + c` and there is none. -/
structure CellFault (m : Machine) (fault : Fault) : Prop where
  reads : ∃ i, m.memory.instruction m.config.layout m.pc = .ok i ∧ i.UsesCell
  missing : m.memory.size ≤ m.regs.ptr.toNat + m.regs.c.toNat
  fault_eq : fault = m.regs.cellFault m.memory

/-- The message of the instruction at `pc`. -/
def executing? (m : Machine) : Option Message :=
  (m.memory.instruction m.config.layout m.pc).toOption.map (.executing m.pc)

/-- The message of the fault that is latched. -/
def raised (m : Machine) : List Message := m.state.fault?.toList.map (.faulted m.pc)

/-- The messages of the instructions that `k` steps attempt. -/
def logged (m : Machine) (k : Nat) : List Message :=
  (List.range k).filterMap fun j => (m.after j).executing?

theorem map_text_executing? (m : Machine) : m.executing?.map Message.text = m.logLine? := by
  rw [executing?, logLine?]
  cases hi : m.memory.instruction m.config.layout m.pc with
  | ok i =>
    rw [Memory.row?_of_ok hi]
    rfl
  | error fault =>
    by_cases hlt : m.pc.toNat < m.memory.size
    · obtain ⟨b, hb⟩ := Memory.exists_getElem?_of_lt hlt
      rw [Memory.row?_of_error hb hi]
      rfl
    · rw [Memory.row?_of_ge (Nat.le_of_not_lt hlt)]
      rfl

theorem level_of_mem_logged {message : Message} (h : message ∈ m.logged k) :
    message.level = .trace := by
  obtain ⟨j, -, hj⟩ := List.mem_filterMap.1 h
  obtain ⟨i, -, rfl⟩ := Option.map_eq_some_iff.1 hj
  rfl

theorem map_text_logged (m : Machine) (k : Nat) :
    (m.logged k).map Message.text = (List.range k).filterMap fun j => (m.after j).logLine? := by
  rw [logged, List.map_filterMap]
  simp only [map_text_executing?]

theorem logged_succ (m : Machine) (k : Nat) :
    m.logged (k + 1) = m.logged k ++ (m.after k).executing?.toList := by
  rw [logged, List.range_succ, List.filterMap_append]
  cases h : (m.after k).executing? <;> simp [logged, h]

/-! ### One step -/

theorem filterMap_message?_traced (e : Event) : (m.traced e).filterMap Entry.message? = [] := by
  unfold traced
  split_ifs <;> rfl

theorem filterMap_message?_announcement :
    m.announcement.filterMap Entry.message? = m.executing?.toList := by
  have hstart : m.startEntries.filterMap Entry.message? = [] := by
    unfold startEntries
    cases m.memory.decode m.pc with
    | ok d => exact filterMap_message?_traced _
    | error fault => rfl
  rw [announcement, List.filterMap_append, hstart, executing?]
  cases m.memory.instruction m.config.layout m.pc <;> rfl

theorem filterMap_message?_effectEntries (effect : Effect) :
    (m.effectEntries effect).filterMap Entry.message? = [] := by
  unfold effectEntries
  cases effect.event? m.pc with
  | some e => exact filterMap_message?_traced e
  | none => rfl

theorem raised_of_running (hm : m.state = .running) : m.raised = [] := by
  rw [raised, hm]
  rfl

/-- A step logs its instruction, if there is one, and then its fault, if there is one. -/
theorem messages_step (hm : m.state = .running) :
    m.step.entries.filterMap Entry.message? = m.executing?.toList ++ m.step.machine.raised := by
  cases h : m.upcoming with
  | error fault =>
    rw [step_of_upcoming_error hm h, latch, List.filterMap_append, filterMap_message?_announcement,
      List.filterMap_cons, filterMap_message?_traced]
    rfl
  | ok next =>
    obtain ⟨i, effect⟩ := next
    have hraised : m.step.machine.raised = [] := by
      rw [raised, state_step_of_upcoming_ok hm h]
      split_ifs <;> rfl
    rw [hraised, step_of_upcoming_ok hm h, List.filterMap_append, filterMap_message?_announcement,
      filterMap_message?_effectEntries]

theorem exists_executing_of_retires (h : m.retires = true) :
    ∃ message, m.executing? = some message := by
  cases hu : m.upcoming with
  | error fault =>
    rw [retires_of_upcoming_error hu] at h
    cases h
  | ok next =>
    refine ⟨.executing m.pc next.1, ?_⟩
    rw [executing?, (upcoming_eq_ok_iff.1 hu).1]
    rfl

/-- An instruction that faults is logged exactly if its memory cell is what is missing. -/
theorem isSome_executing?_iff (hm : m.state = .running) (h : m.step.outcome = .error fault) :
    m.executing?.isSome ↔ m.step.machine.CellFault fault := by
  rw [machine_step_of_error hm h, executing?]
  cases hi : m.memory.instruction m.config.layout m.pc with
  | ok i =>
    obtain ⟨huses, hmissing, hfault⟩ := (step_error_of_instruction_iff hm hi).1 h
    exact ⟨fun _ => ⟨⟨i, hi, huses⟩, hmissing, hfault⟩, fun _ => rfl⟩
  | error fault' =>
    constructor
    · intro hsome
      cases hsome
    · rintro ⟨⟨i, hi', -⟩, -, -⟩
      cases hi.symm.trans hi'

/-! ### A run -/

/-- Before it stops, a machine logs nothing but instructions. -/
theorem messages_journal (hm : m.state = .running)
    (hrun : ∀ j < k, (m.after j).state = .running) :
    (m.journal k).filterMap Entry.message? = m.logged k ++ (m.after k).raised := by
  induction k with
  | zero => exact (raised_of_running hm).symm
  | succ k ih =>
    have hk := hrun k (Nat.lt_succ_self k)
    rw [journal_succ, List.filterMap_append, ih fun j hj => hrun j (Nat.lt_succ_of_lt hj),
      raised_of_running hk, List.append_nil, messages_step hk, logged_succ, after_succ,
      List.append_assoc]

theorem length_logged (hrun : ∀ j < k, (m.after j).state = .running)
    (h : ∀ fault, (m.after k).state ≠ .faulted fault) : (m.logged k).length = k := by
  induction k with
  | zero => rfl
  | succ k ih =>
    have hk := hrun k (Nat.lt_succ_self k)
    have hprev := ih (fun j hj => hrun j (Nat.lt_succ_of_lt hj)) (by simp [hk])
    rw [after_succ] at h
    obtain ⟨message, hmessage⟩ := exists_executing_of_retires (retires_of_not_faulted hk h)
    rw [logged_succ, hmessage, List.length_append, hprev]
    rfl

/-- All that retires is logged, and of what does not, an access to a missing memory cell. -/
theorem length_logged_of_faulted (hrun : ∀ j < k + 1, (m.after j).state = .running)
    (h : (m.after (k + 1)).state = .faulted fault) :
    ((m.after (k + 1)).CellFault fault → (m.logged (k + 1)).length = m.retired (k + 1) + 1) ∧
    (¬ (m.after (k + 1)).CellFault fault → (m.logged (k + 1)).length = m.retired (k + 1)) := by
  have hk := hrun k (Nat.lt_succ_self k)
  have hprev : (m.logged k).length = k :=
    length_logged (fun j hj => hrun j (Nat.lt_succ_of_lt hj)) (by simp [hk])
  have hstep : (m.after k).step.outcome = .error fault := by
    rw [after_succ] at h
    exact outcome_eq_error_iff.2 h
  rw [retired_of_faulted hrun h, logged_succ, List.length_append, hprev, after_succ,
    ← isSome_executing?_iff hk hstep]
  cases (m.after k).executing? <;> simp

/-- The last message of a run that `m` is left by after `steps` instructions. -/
def closing (m : Machine) (steps : UInt64) : List Message :=
  (Run.closing? ⟨m, m.verdict steps, ()⟩).toList

theorem observed_run_toLog {σ : Type} (record : σ → Message → σ) (m : Machine)
    (watchdog : Watchdog) (s : σ) :
    let k := m.span watchdog.allowance.toNat
    (m.run (Entry.toLog record) watchdog s).observed =
      (.starting m.pc m.memory.length watchdog ::
        ((m.journal k).filterMap Entry.message? ++ (m.after k).closing (.ofNat k))).foldl
          record s := by
  intro k
  have hmessages : ∀ messages : List Message,
      (messages.map Entry.message).filterMap Entry.message? = messages := by
    intro messages
    simp [List.filterMap_map, Function.comp_def, Entry.message?]
  rw [run_eq, observed_close, Entry.foldl_toLog, Entry.foldl_toLog, hmessages, List.foldl_cons,
    List.foldl_append]
  rfl

/-- A machine that cannot go on has nothing to say. -/
theorem closing_of_not_running (hm : m.state ≠ .running) : m.closing 0 = [] := by
  rw [closing, Run.closing?, verdict]
  cases h : m.state with
  | running => exact absurd h hm
  | halted => rfl
  | faulted fault => rfl

/-- What is said at the end of a run, by its last step or behind it, is one message. -/
theorem exists_closes (hm : m.state = .running) (n : UInt64) :
    let k := m.span n.toNat
    ∃ message : Message, message.Closes (m.after k) ((m.after k).verdict (.ofNat k)) ∧
      (m.after k).raised ++ (m.after k).closing (.ofNat k) = [message] := by
  intro k
  rw [raised, closing, Run.closing?, verdict]
  cases hlast : (m.after k).state with
  | running => exact ⟨_, .expired _, rfl⟩
  | faulted fault => exact ⟨_, .faulted fault, rfl⟩
  | halted =>
    -- the `HALT` is one of the steps, and the budget does not count beyond 64 bits
    obtain ⟨j, hj, -⟩ := exists_last_step hm
      (show (m.after (m.span n.toNat)).state ≠ .running by simp [hlast, k])
    have hsteps : UInt64.ofNat k ≠ 0 := by
      intro hzero
      have hk := congrArg UInt64.toNat hzero
      rw [toNat_ofNat_of_le (m.span_le n.toNat)] at hk
      exact absurd (hj.symm.trans hk) (Nat.succ_ne_zero j)
    refine ⟨_, .halted _, ?_⟩
    simp [hsteps, RunState.fault?]

/-- Behind its instructions, a run logs one message more if it has begun with a running machine. -/
theorem exists_closing (m : Machine) (n : UInt64) :
    let k := m.span n.toNat
    ∃ closing : List Message,
      (m.journal k).filterMap Entry.message? ++ (m.after k).closing (.ofNat k) =
        m.logged k ++ closing ∧
      (m.state ≠ .running → closing = []) ∧
      (m.state = .running → ∃ message, closing = [message] ∧
        message.Closes (m.after k) ((m.after k).verdict (.ofNat k))) := by
  intro k
  by_cases hm : m.state = .running
  · obtain ⟨message, hcloses, hlast⟩ := exists_closes hm n
    refine ⟨[message], ?_, fun h => absurd hm h, fun _ => ⟨message, rfl, hcloses⟩⟩
    rw [messages_journal hm fun j hj => running_of_lt_span hj, List.append_assoc, hlast]
  · have hk : k = 0 := span_of_not_running hm n.toNat
    refine ⟨[], ?_, fun _ => rfl, fun h => absurd h hm⟩
    rw [hk]
    exact closing_of_not_running hm

/-- Let a machine run under a budget. Of its debugging messages the first says where the run begins,
and there is one more if the machine was running then, which says how the run has ended. Its tracing
messages come in between: a line for each instruction that is attempted and can be read, with its
address and what a listing shows there at that time. There are as many as steps if the run does not
fault. If it does, there are as many as instructions have retired, and one more exactly if the last
one did not have its memory cell. -/
theorem run_log (m : Machine) (n : UInt64) :
    ∃ (count : Nat) (lines closing : List Message),
      ∀ {σ : Type} (record : σ → Message → σ) (s : σ),
      let run := m.run (Entry.toLog record) (.instructionBudget n) s
      let starting := Message.starting m.pc m.memory.length (.instructionBudget n)
      let log := starting :: (lines ++ closing)
      run.observed = log.foldl record s ∧
      log.filter (fun message => message.level = .debug) = starting :: closing ∧
      log.filter (fun message => message.level = .trace) = lines ∧
      (m.state ≠ .running → closing = []) ∧
      (m.state = .running →
        ∃ message, closing = [message] ∧ message.Closes run.machine run.result) ∧
      run.machine = m.after count ∧ (∀ j < count, (m.after j).state = .running) ∧
      lines.map Message.text = (List.range count).filterMap (fun j => (m.after j).logLine?) ∧
      (∀ outcome, run.result = .ok outcome → lines.length = outcome.steps.toNat) ∧
      ∀ fault, run.result = .error fault → m.state = .running →
        (run.machine.CellFault fault → lines.length = m.retired count + 1) ∧
        (¬ run.machine.CellFault fault → lines.length = m.retired count) := by
  let k := m.span n.toNat
  have hrun : ∀ j < k, (m.after j).state = .running := fun j hj => running_of_lt_span hj
  obtain ⟨closing, hlog, hnone, hone⟩ := m.exists_closing n
  have hdebug : ∀ message ∈ closing, message.level = .debug := by
    intro message hmem
    by_cases hm : m.state = .running
    · obtain ⟨last, rfl, hcloses⟩ := hone hm
      rw [List.mem_singleton.1 hmem]
      exact hcloses.level
    · rw [hnone hm] at hmem
      cases hmem
  obtain ⟨hdebugs, htraces⟩ :=
    Message.filter_level (fun message => m.level_of_mem_logged (k := k)) hdebug
  refine ⟨k, m.logged k, closing, fun {σ} record s => ?_⟩
  intro run starting log
  have hmachine : run.machine = m.after k := machine_run _ m _ s
  have hresult : run.result = (m.after k).verdict (.ofNat k) := result_run _ m _ s
  rw [hmachine, hresult]
  refine ⟨?_, ?_, ?_, hnone, hone, rfl, hrun, m.map_text_logged k, ?_, ?_⟩
  · rw [show log = starting :: (m.logged k ++ closing) from rfl, ← hlog]
    exact observed_run_toLog record m _ s
  · rw [← hdebugs]
    rfl
  · rw [← htraces]
    rfl
  · intro outcome ho
    obtain ⟨hsteps, hnot⟩ := steps_of_verdict ho
    rw [hsteps, toNat_ofNat_of_le (m.span_le n.toNat), length_logged hrun hnot]
  · intro fault herror hm
    rw [verdict_eq_error_iff] at herror
    obtain ⟨j, hj, -⟩ := exists_last_step_of_run_error hm herror
    rw [show k = j + 1 from hj] at hrun herror ⊢
    exact length_logged_of_faulted hrun herror

example : (outThenStore.run (Entry.toLog fun log message => log ++ [message])
    (.instructionBudget 9) []).observed =
      [.starting 0 2 (.instructionBudget 9), .executing 0 .out,
        .executing 1 (.mv .cell (.register .a)), .faulted 1 (.memoryOutOfBounds 15 2)] := rfl

end Machine

end Tomtel
