import Tomtel.Proofs.Replay
import Tomtel.Proofs.StraightLine

/-!
# The shape of a trace

Each attempt at an instruction reports a group of at most two events (`Machine.Group`), and the group
tells what kind of instruction it was and how it ended (`Machine.Reports`). One step is
`reports_step`. In a run only the last group can halt or fault, so that `trace_shape` can count
starts and look at the last event.
-/

namespace Tomtel

namespace Event

def isStart : Event → Bool
  | .start .. => true
  | _ => false

/-- Nothing executes after the event. -/
def isFinal : Event → Bool
  | .halted _ | .faulted .. => true
  | _ => false

theorem not_halted_mem {events : List Event} (h : ∀ e ∈ events, e.isFinal = false) (pc : UInt32) :
    .halted pc ∉ events := fun he => by cases h _ he

theorem not_faulted_mem {events : List Event} (h : ∀ e ∈ events, e.isFinal = false) (fault : Fault)
    (pc : UInt32) : .faulted fault pc ∉ events := fun he => by cases h _ he

end Event

/-! ### How events close -/

/-- The events of `steps` instructions close as the machine that they leave says: with a fault, with a
halt, or with neither if it still runs. -/
structure Event.Concludes (events : List Event) (steps : Nat) (last : Machine) : Prop where
  ok : (∀ fault, last.state ≠ .faulted fault) →
    events.countP Event.isStart = steps ∧ ∀ fault pc, .faulted fault pc ∉ events
  error : ∀ fault, last.state = .faulted fault →
    ∃ before, events = before ++ [.faulted fault last.pc] ∧ ∀ fault' pc, .faulted fault' pc ∉ before
  halted_iff : (∃ pc, .halted pc ∈ events) ↔ last.state = .halted
  halted : ∀ pc, .halted pc ∈ events → last.pc = pc + 1 ∧
    ∃ before, events = before ++ [.halted pc] ∧ ∀ pc', .halted pc' ∉ before

namespace Event.Concludes

variable {events before : List Event} {steps : Nat} {last : Machine} {fault : Fault} {pc : UInt32}

theorem of_running (h : last.state = .running) (hnone : ∀ e ∈ events, e.isFinal = false)
    (hcount : events.countP isStart = steps) : Concludes events steps last where
  ok _ := ⟨hcount, not_faulted_mem hnone⟩
  error fault hf := by rw [h] at hf; cases hf
  halted_iff := by simp [h, not_halted_mem hnone]
  halted pc hmem := absurd hmem (not_halted_mem hnone pc)

theorem of_halted (h : last.state = .halted) (hpc : last.pc = pc + 1)
    (hnone : ∀ e ∈ before, e.isFinal = false) (hcount : before.countP isStart = steps) :
    Concludes (before ++ [.halted pc]) steps last where
  ok _ := by
    constructor
    · rw [List.countP_append, hcount]
      rfl
    · simp [not_faulted_mem hnone]
  error fault hf := by rw [h] at hf; cases hf
  halted_iff := by simp [h]
  halted pc' hmem := by
    obtain rfl : pc' = pc := by simpa [not_halted_mem hnone] using hmem
    exact ⟨hpc, before, rfl, not_halted_mem hnone⟩

theorem of_faulted (h : last.state = .faulted fault) (hnone : ∀ e ∈ before, e.isFinal = false) :
    Concludes (before ++ [.faulted fault last.pc]) steps last where
  ok hok := absurd h (hok fault)
  error fault' hf := by
    obtain rfl : fault = fault' := RunState.faulted.inj (h.symm.trans hf)
    exact ⟨before, rfl, not_faulted_mem hnone⟩
  halted_iff := by simp [h, not_halted_mem hnone]
  halted pc' hmem := absurd hmem (by simp [not_halted_mem hnone])

end Event.Concludes

/-! ### Kinds of effects -/

namespace Effect

variable {effect : Effect} {pc : UInt32}

theorem write_mem_event?_iff {addr : UInt64} {v : UInt8} :
    .write addr v ∈ (effect.event? pc).toList ↔ effect = .store addr v := by
  unfold event?
  cases effect <;> simp [eq_comm]

theorem output_mem_event?_iff {byte : UInt8} :
    .output byte ∈ (effect.event? pc).toList ↔ effect = .emit byte := by
  unfold event?
  cases effect <;> simp [eq_comm]

theorem halted_mem_event?_iff : .halted pc ∈ (effect.event? pc).toList ↔ effect = .halt := by
  unfold event?
  cases effect <;> simp

theorem faulted_not_mem_event? {fault : Fault} {pc' : UInt32} :
    .faulted fault pc' ∉ (effect.event? pc).toList := by
  unfold event?
  cases effect <;> simp

end Effect

theorem ByteOperand.effect_of_write {operand : ByteOperand} {v : UInt8} {regs : RegisterFile}
    {memory : Memory} {effect : Effect} (h : operand.write v regs memory = .ok effect) :
    (∃ r, effect = .setByte r v) ∨ operand = .cell ∧ effect = .store regs.cellAddress v := by
  cases operand with
  | register r =>
    cases h
    exact .inl ⟨r, rfl⟩
  | cell => exact .inr ⟨rfl, (write_cell_eq_ok h).2⟩

namespace Instruction

variable {i : Instruction} {regs : RegisterFile} {memory : Memory} {effect : Effect}

theorem storesCell_iff_of_effect (h : i.effect regs memory = .ok effect) :
    i.StoresCell ↔ ∃ addr v, effect = .store addr v := by
  constructor
  · intro hi
    cases i with
    | mv dest src =>
      obtain ⟨v, hw⟩ := exists_write_of_mv h
      obtain rfl : dest = .cell := hi
      exact ⟨_, v, (ByteOperand.write_cell_eq_ok hw).2⟩
    | mvi dest imm =>
      obtain rfl : dest = .cell := hi
      exact ⟨_, imm, (ByteOperand.write_cell_eq_ok h).2⟩
    | _ => exact hi.elim
  · rintro ⟨addr, v, rfl⟩
    exact (store_of_effect h).1

theorem eq_out_iff_of_effect (h : i.effect regs memory = .ok effect) :
    i = .out ↔ ∃ v, effect = .emit v := by
  constructor
  · rintro rfl
    cases h
    exact ⟨regs.a, rfl⟩
  · rintro ⟨v, rfl⟩
    cases i with
    | out => rfl
    | mv dest src =>
      obtain ⟨w, hw⟩ := exists_write_of_mv h
      rcases ByteOperand.effect_of_write hw with ⟨r, he⟩ | ⟨-, he⟩ <;> cases he
    | mvi dest imm =>
      rcases ByteOperand.effect_of_write h with ⟨r, he⟩ | ⟨-, he⟩ <;> cases he
    | jez target =>
      rw [effect] at h
      split_ifs at h <;> cases h
    | jnz target =>
      rw [effect] at h
      split_ifs at h <;> cases h
    | _ => cases h

end Instruction

namespace Machine

/-- The events of an attempt at the instruction at `pc`. -/
inductive Group (pc : UInt32) : List Event → Prop
  | start (raw : UInt8) : Group pc [.start pc raw]
  | write (raw : UInt8) (addr : UInt64) (v : UInt8) : Group pc [.start pc raw, .write addr v]
  | output (raw byte : UInt8) : Group pc [.start pc raw, .output byte]
  | halted (raw : UInt8) : Group pc [.start pc raw, .halted pc]
  | faulted (raw : UInt8) (fault : Fault) : Group pc [.start pc raw, .faulted fault pc]
  /-- There is no operation to be read at `pc`. -/
  | unread (fault : Fault) : Group pc [.faulted fault pc]

/-- The group of events says what kind of instruction the machine attempts and how that ends. -/
structure Reports (m : Machine) (group : List Event) : Prop where
  shape : Group m.pc group
  unread : ∀ fault, group = [.faulted fault m.pc] ↔ m.memory.decode m.pc = .error fault
  write : (∃ addr v, .write addr v ∈ group) ↔
    ∃ i outcome, m.memory.instruction m.config.layout m.pc = .ok i ∧ i.StoresCell ∧
      m.step.outcome = .ok outcome
  output : (∃ byte, .output byte ∈ group) ↔
    m.memory.instruction m.config.layout m.pc = .ok .out
  halted : .halted m.pc ∈ group ↔ m.step.outcome = .ok .halted
  faulted : ∀ fault, .faulted fault m.pc ∈ group ↔ m.step.outcome = .error fault

variable {m : Machine} {i : Instruction} {effect : Effect} {fault : Fault} {d : Decoded} {k : Nat}
  {group : List Event}

/-! ### The events of a step -/

theorem events_step_of_decode_error (hm : m.state = .running) (ht : m.config.tracing = true)
    (hd : m.memory.decode m.pc = .error fault) : m.step.events = [.faulted fault m.pc] := by
  rw [step_of_decode_error hm hd, filterMap_event?_latch, if_pos ht]
  rfl

theorem startEvents_of_decode (ht : m.config.tracing = true) (hd : m.memory.decode m.pc = .ok d) :
    m.startEntries.filterMap Entry.event? = [.start m.pc d.raw] := by
  simp only [startEntries, hd, filterMap_event?_traced, ht, if_true]

theorem events_step_of_upcoming_error (hm : m.state = .running) (ht : m.config.tracing = true)
    (hd : m.memory.decode m.pc = .ok d) (h : m.upcoming = .error fault) :
    m.step.events = [.start m.pc d.raw, .faulted fault m.pc] := by
  rw [step_of_upcoming_error hm h, filterMap_event?_latch, filterMap_event?_announcement,
    startEvents_of_decode ht hd, if_pos ht]
  rfl

theorem events_step_of_upcoming_ok (hm : m.state = .running) (ht : m.config.tracing = true)
    (hd : m.memory.decode m.pc = .ok d) (h : m.upcoming = .ok (i, effect)) :
    m.step.events = .start m.pc d.raw :: (effect.event? m.pc).toList := by
  rw [step_of_upcoming_ok hm h, Attempt.events, List.filterMap_append,
    filterMap_event?_announcement, filterMap_event?_effectEntries, startEvents_of_decode ht hd,
    if_pos ht]
  rfl

theorem group_of_effect (pc : UInt32) (raw : UInt8) (effect : Effect) :
    Group pc (.start pc raw :: (effect.event? pc).toList) := by
  cases effect with
  | store addr v => exact .write raw addr v
  | emit v => exact .output raw v
  | halt => exact .halted raw
  | _ => exact .start raw

/-- The operation cannot be read. -/
theorem reports_of_decode_error (hm : m.state = .running)
    (hd : m.memory.decode m.pc = .error fault) : m.Reports [.faulted fault m.pc] := by
  have hi : m.memory.instruction m.config.layout m.pc = .error fault :=
    Memory.instruction_of_decode_eq_error hd
  have ho : m.step.outcome = .error fault := by
    rw [step_of_decode_error hm hd]
    rfl
  constructor
  · exact .unread fault
  · intro fault'
    simp [hd]
  · simp [hi]
  · simp [hi]
  · simp [ho]
  · intro fault'
    simp [ho, eq_comm]

/-- The operation can be read, but not carried out. -/
theorem reports_of_upcoming_error (hm : m.state = .running) (hd : m.memory.decode m.pc = .ok d)
    (h : m.upcoming = .error fault) : m.Reports [.start m.pc d.raw, .faulted fault m.pc] := by
  have ho : m.step.outcome = .error fault := (step_error_iff hm).2 h
  have hout : m.memory.instruction m.config.layout m.pc ≠ .ok .out := by
    intro hi
    have hok : m.upcoming = .ok (.out, .emit (m.past .out).regs.a) :=
      upcoming_eq_ok_iff.2 ⟨hi, rfl⟩
    rw [h] at hok
    cases hok
  constructor
  · exact .faulted d.raw fault
  · intro fault'
    simp [hd]
  · simp [ho]
  · simp [hout]
  · simp [ho]
  · intro fault'
    simp [ho, eq_comm]

theorem reports_of_upcoming_ok (hm : m.state = .running) (hd : m.memory.decode m.pc = .ok d)
    (h : m.upcoming = .ok (i, effect)) :
    m.Reports (.start m.pc d.raw :: (effect.event? m.pc).toList) := by
  obtain ⟨hi, he⟩ := upcoming_eq_ok_iff.1 h
  have ho : m.step.outcome = .ok (effect.outcome i) := by rw [step_of_upcoming_ok hm h]
  have hwrite := Instruction.storesCell_iff_of_effect he
  have hout := Instruction.eq_out_iff_of_effect he
  have hhalt : effect.outcome i = .halted ↔ effect = .halt := effect_outcome_eq_halted_iff
  constructor
  · exact group_of_effect _ _ _
  · intro fault
    simp [hd]
  · have hstores : (∃ i' outcome, m.memory.instruction m.config.layout m.pc = .ok i' ∧
        i'.StoresCell ∧ m.step.outcome = .ok outcome) ↔ i.StoresCell := by simp [hi, ho]
    rw [hstores, hwrite]
    simp only [List.mem_cons, reduceCtorEq, false_or, Effect.write_mem_event?_iff]
  · rw [hi, Except.ok.injEq, hout]
    simp only [List.mem_cons, reduceCtorEq, false_or, Effect.output_mem_event?_iff]
  · rw [ho, Except.ok.injEq, hhalt]
    simp only [List.mem_cons, reduceCtorEq, false_or, Effect.halted_mem_event?_iff]
  · intro fault
    rw [ho]
    simp only [List.mem_cons, reduceCtorEq, false_or, Effect.faulted_not_mem_event?]

theorem reports_step (hm : m.state = .running) (ht : m.config.tracing = true) :
    m.Reports m.step.events := by
  cases hd : m.memory.decode m.pc with
  | error fault =>
    rw [events_step_of_decode_error hm ht hd]
    exact reports_of_decode_error hm hd
  | ok d =>
    cases hu : m.upcoming with
    | error fault =>
      rw [events_step_of_upcoming_error hm ht hd hu]
      exact reports_of_upcoming_error hm hd hu
    | ok next =>
      rw [events_step_of_upcoming_ok hm ht hd hu]
      exact reports_of_upcoming_ok hm hd hu

namespace Reports

/-- An instruction that lets the machine go on has its start reported, and no end. -/
theorem of_retired (h : m.Reports group) (hrun : m.step.machine.state = .running) :
    group.countP Event.isStart = 1 ∧ ∀ e ∈ group, e.isFinal = false := by
  have hhalted : .halted m.pc ∉ group := by
    rw [h.halted, outcome_eq_halted_iff, hrun]
    simp
  have hfaulted : ∀ fault, .faulted fault m.pc ∉ group := by
    intro fault
    rw [h.faulted, outcome_eq_error_iff, hrun]
    simp
  cases h.shape with
  | halted raw => simp at hhalted
  | faulted raw fault => exact absurd (by simp) (hfaulted fault)
  | unread fault => exact absurd (by simp) (hfaulted fault)
  | _ => exact ⟨rfl, by simp [Event.isFinal]⟩

theorem of_halted (h : m.Reports group) (hstop : m.step.machine.state = .halted) :
    ∃ raw, group = [.start m.pc raw, .halted m.pc] := by
  have hmem : .halted m.pc ∈ group := h.halted.2 (outcome_eq_halted_iff.2 hstop)
  cases h.shape with
  | halted raw => exact ⟨raw, rfl⟩
  | _ => simp at hmem

theorem of_faulted (h : m.Reports group) (hstop : m.step.machine.state = .faulted fault) :
    ∃ started, group = started ++ [.faulted fault m.pc] ∧ ∀ e ∈ started, e.isFinal = false := by
  have hmem : .faulted fault m.pc ∈ group := (h.faulted fault).2 (outcome_eq_error_iff.2 hstop)
  cases h.shape with
  | faulted raw fault' =>
    obtain rfl : fault = fault' := by simpa using hmem
    exact ⟨[.start m.pc raw], rfl, by simp [Event.isFinal]⟩
  | unread fault' =>
    obtain rfl : fault = fault' := by simpa using hmem
    exact ⟨[], rfl, by simp⟩
  | _ => simp at hmem

end Reports

/-! ### The events of a run -/

theorem events_eq_flatten (m : Machine) (k : Nat) :
    m.events k = ((List.range k).map fun j => (m.after j).step.events).flatten := by
  induction k with
  | zero => rfl
  | succ k ih =>
    rw [events_succ, ih, List.range_succ, List.map_append, List.flatten_append]
    simp

theorem reports_after (ht : m.config.tracing = true) (hrun : (m.after k).state = .running) :
    (m.after k).Reports (m.after k).step.events :=
  reports_step hrun (by rw [config_after, ht])

/-- While the machine runs, starts count the instructions and no event is final. -/
theorem events_of_running (ht : m.config.tracing = true) (hrun : (m.after k).state = .running) :
    (m.events k).countP Event.isStart = k ∧ ∀ e ∈ m.events k, e.isFinal = false := by
  induction k with
  | zero => exact ⟨rfl, by simp [events, journal]⟩
  | succ k ih =>
    have hk := running_of_running_after (Nat.le_succ k) hrun
    obtain ⟨hcount, hnone⟩ := ih hk
    rw [after_succ] at hrun
    obtain ⟨hstart, hlast⟩ := (reports_after ht hk).of_retired hrun
    rw [events_succ, List.countP_append, hcount, hstart]
    refine ⟨rfl, fun e he => ?_⟩
    rcases List.mem_append.1 he with he | he
    · exact hnone e he
    · exact hlast e he

theorem pc_step_of_halted (hm : m.state = .running) (h : m.step.machine.state = .halted) :
    m.step.machine.pc = m.pc + 1 := by
  obtain ⟨i, effect, hu, ho⟩ := (step_ok_iff hm).1 (outcome_eq_halted_iff.2 h)
  obtain rfl := effect_outcome_eq_halted_iff.1 ho
  have hi : i = .halt := (eq_halt_iff_of_effect (m := m.past i) (upcoming_eq_ok_iff.1 hu).2).1 rfl
  rw [step_of_upcoming_ok hm hu, hi]
  rfl

/-- A `HALT` is the last event, after its start. -/
theorem concludes_of_halted (ht : m.config.tracing = true) (hrun : (m.after k).state = .running)
    (hstop : (m.after k).step.machine.state = .halted) :
    Event.Concludes (m.events (k + 1)) (k + 1) (m.after (k + 1)) := by
  obtain ⟨hcount, hnone⟩ := events_of_running ht hrun
  obtain ⟨raw, hlast⟩ := (reports_after ht hrun).of_halted hstop
  rw [events_succ, hlast, after_succ,
    List.append_cons (m.events k) (.start (m.after k).pc raw) [.halted (m.after k).pc]]
  refine .of_halted hstop (pc_step_of_halted hrun hstop) (fun e he => ?_) ?_
  · rcases List.mem_append.1 he with he | he
    · exact hnone e he
    · rw [List.mem_singleton.1 he]
      rfl
  · rw [List.countP_append, hcount]
    rfl

/-- A fault is the last event, and its `pc` is the one that the machine is left with. -/
theorem concludes_of_faulted (ht : m.config.tracing = true) (hrun : (m.after k).state = .running)
    (hstop : (m.after k).step.machine.state = .faulted fault) :
    Event.Concludes (m.events (k + 1)) (k + 1) (m.after (k + 1)) := by
  obtain ⟨-, hnone⟩ := events_of_running ht hrun
  obtain ⟨started, hlast, hstarted⟩ := (reports_after ht hrun).of_faulted hstop
  have hpc : (m.after k).pc = (m.after k).step.machine.pc := by
    rw [machine_step_of_error hrun (outcome_eq_error_iff.2 hstop)]
    rfl
  rw [events_succ, hlast, after_succ, hpc, ← List.append_assoc]
  refine .of_faulted hstop fun e he => ?_
  exact (List.mem_append.1 he).elim (hnone e) (hstarted e)

theorem concludes_span (hm : m.state = .running) (ht : m.config.tracing = true) (budget : Nat) :
    Event.Concludes (m.events (m.span budget)) (m.span budget) (m.after (m.span budget)) := by
  by_cases hrun : (m.after (m.span budget)).state = .running
  · obtain ⟨hcount, hnone⟩ := events_of_running ht hrun
    exact .of_running hrun hnone hcount
  · obtain ⟨k, hk, hlast⟩ := exists_last_step hm hrun
    rw [hk] at hrun ⊢
    rw [after_succ] at hrun
    cases hstop : (m.after k).step.machine.state with
    | running => exact absurd hstop hrun
    | halted => exact concludes_of_halted ht hlast hstop
    | faulted fault => exact concludes_of_faulted ht hlast hstop

/-- Let a machine that traces run under a budget. Its events are groups, one for each instruction that
it attempts, in order, and each group is what the machine at that time `Reports`. If the run gives a
count of steps, there are as many groups and as many starts, and no fault. If it gives a fault, this
is the last event, at the `pc` that is left, and there is no other. There is a halt if and only if
the run halts; it is the last event and the only halt, and leaves `pc` behind itself. -/
theorem trace_shape (hm : m.state = .running) (ht : m.config.tracing = true) (n : UInt64) :
    ∃ groups : List (List Event), ∀ {σ : Type} (sink : σ → Event → σ) (s : σ),
      let run := m.run (Entry.toSink sink) (.instructionBudget n) s
      let events := groups.flatten
      run.observed = events.foldl sink s ∧
      run.machine = m.after groups.length ∧
      (∀ k group, groups[k]? = some group →
        (m.after k).state = .running ∧ (m.after k).Reports group) ∧
      (∀ outcome, run.result = .ok outcome →
        groups.length = outcome.steps.toNat ∧
        events.countP Event.isStart = outcome.steps.toNat ∧
        ∀ fault pc, .faulted fault pc ∉ events) ∧
      (∀ fault, run.result = .error fault →
        ∃ before, events = before ++ [.faulted fault run.machine.pc] ∧
          ∀ fault' pc, .faulted fault' pc ∉ before) ∧
      ((∃ pc, .halted pc ∈ events) ↔ ∃ steps, run.result = .ok ⟨.halted, steps⟩) ∧
      ∀ pc, .halted pc ∈ events → run.machine.pc = pc + 1 ∧
        ∃ before, events = before ++ [.halted pc] ∧ ∀ pc', .halted pc' ∉ before := by
  let count := m.span n.toNat
  let groups := (List.range count).map fun j => (m.after j).step.events
  have hlength : groups.length = count := by simp [groups]
  have hevents : groups.flatten = m.events count := (events_eq_flatten m count).symm
  obtain ⟨hok, herror, hhaltedIff, hhalted⟩ := concludes_span hm ht n.toNat
  refine ⟨groups, fun {σ} sink s => ?_⟩
  intro run events
  have hmachine : run.machine = m.after count := machine_run _ m _ s
  have hresult : run.result = (m.after count).verdict (.ofNat count) := result_run _ m _ s
  rw [hlength, hmachine, hresult, show events = m.events count from hevents]
  refine ⟨observed_run_toSink sink m _ s, rfl, ?_, ?_, ?_, ?_, hhalted⟩
  · intro k group hk
    obtain ⟨hlt, rfl⟩ := List.getElem?_eq_some_iff.1 hk
    rw [hlength] at hlt
    have hgroup : groups[k] = (m.after k).step.events := by simp [groups]
    have hrun : (m.after k).state = .running := running_of_lt_span hlt
    rw [hgroup]
    exact ⟨hrun, reports_after ht hrun⟩
  · intro outcome ho
    obtain ⟨hsteps, hnot⟩ := steps_of_verdict ho
    rw [hsteps, toNat_ofNat_of_le (m.span_le n.toNat)]
    exact ⟨rfl, hok hnot⟩
  · exact fun fault hf => herror fault (verdict_eq_error_iff.1 hf)
  · rw [hhaltedIff]
    constructor
    · exact fun h => ⟨.ofNat count, verdict_eq_halted_iff.2 h⟩
    · rintro ⟨steps, h⟩
      exact verdict_eq_halted_iff.1 (verdict_of_ok h 0)

/-- One run that halts and one that faults. -/
theorem trace_shape_selfModifying :
    let collect : List Event → Event → List Event := fun es e => es ++ [e]
    let halting := selfModifying.run (Entry.toSink collect) (.instructionBudget 9) []
    let faulting := outThenStore.run (Entry.toSink collect) (.instructionBudget 9) []
    selfModifying.state = .running ∧ selfModifying.config.tracing = true ∧
    halting.observed =
      [.start 0 0x78, .write 2 0x02, .start 2 0x02, .output 65, .start 3 0x01, .halted 3] ∧
    (∃ groups : List (List Event), halting.observed = groups.flatten.foldl collect [] ∧
      groups.length = 3 ∧ groups.flatten.countP Event.isStart = 3 ∧
      (∀ k group, groups[k]? = some group → (selfModifying.after k).Reports group) ∧
      ∃ pc before, pc + 1 = 4 ∧ groups.flatten = before ++ [.halted pc]) ∧
    outThenStore.state = .running ∧ outThenStore.config.tracing = true ∧
    faulting.observed =
      [.start 0 0x02, .output 7, .start 1 0x79, .faulted (.memoryOutOfBounds 15 2) 1] ∧
    ∃ groups : List (List Event), faulting.observed = groups.flatten.foldl collect [] ∧
      ∃ before, groups.flatten = before ++ [.faulted (.memoryOutOfBounds 15 2) 1] := by
  intro collect halting faulting
  obtain ⟨groups, h⟩ := trace_shape (m := selfModifying) rfl rfl 9
  obtain ⟨hobserved, -, hgroups, hok, -, hiff, hlast⟩ := h collect []
  obtain ⟨hlength, hcount, -⟩ := hok ⟨.halted, 3⟩ rfl
  obtain ⟨pc, hpc⟩ := hiff.2 ⟨3, rfl⟩
  obtain ⟨hnext, before, hbefore, -⟩ := hlast pc hpc
  obtain ⟨groups', h'⟩ := trace_shape (m := outThenStore) rfl rfl 9
  obtain ⟨hobserved', -, -, -, herror, -⟩ := h' collect []
  obtain ⟨before', hbefore', -⟩ := herror (.memoryOutOfBounds 15 2) rfl
  exact ⟨rfl, rfl, rfl, ⟨groups, hobserved, hlength, hcount, fun k group hk => (hgroups k group hk).2,
    pc, before, hnext.symm, hbefore⟩, rfl, rfl, rfl, groups', hobserved', before', hbefore'⟩

end Machine

end Tomtel
