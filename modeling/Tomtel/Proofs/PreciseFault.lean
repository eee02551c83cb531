import Tomtel.Proofs.Runs

/-!
# Faults are precise

An instruction that faults leaves the machine as it found it, `pc` included, with the fault latched,
and reports at most its own start before the fault. This holds of a step and of the last step of any
run that gives a fault.
-/

namespace Tomtel

namespace Machine

variable {m : Machine} {fault : Fault}

/-- What a sink sees of an instruction that faults: its start, if its first byte was read, and the
fault, both with the `pc` of the instruction. Nothing if the machine does not trace. -/
inductive FaultEvents (m : Machine) (fault : Fault) : List Event → Prop
  | silent (h : m.config.tracing = false) : FaultEvents m fault []
  | unread (h : m.config.tracing = true) : FaultEvents m fault [.faulted fault m.pc]
  | started {raw : UInt8} (h : m.config.tracing = true)
      (hraw : m.memory.bytes[m.pc.toNat]? = some raw) :
      FaultEvents m fault [.start m.pc raw, .faulted fault m.pc]

theorem filterMap_event?_latch (entries : List Entry) :
    (m.latch fault entries).events =
      entries.filterMap Entry.event? ++ if m.config.tracing then [.faulted fault m.pc] else [] := by
  rw [Attempt.events, latch, List.filterMap_append, List.filterMap_cons_none rfl,
    filterMap_event?_traced]

theorem machine_step_of_error (hm : m.state = .running) (h : m.step.outcome = .error fault) :
    m.step.machine = { m with state := .faulted fault } := by
  rw [step_of_upcoming_error hm ((step_error_iff hm).1 h)]
  rfl

theorem faultEvents_step (hm : m.state = .running) (h : m.step.outcome = .error fault) :
    m.FaultEvents fault m.step.events := by
  rw [step_of_upcoming_error hm ((step_error_iff hm).1 h), filterMap_event?_latch,
    filterMap_event?_announcement]
  cases ht : m.config.tracing with
  | false =>
    rcases m.filterMap_event?_startEntries with hs | ⟨raw, -, hs⟩
    · rw [hs]; exact .silent ht
    · rw [hs, ht]; exact .silent ht
  | true =>
    rcases m.filterMap_event?_startEntries with hs | ⟨raw, hraw, hs⟩
    · rw [hs]; exact .unread ht
    · rw [hs, ht]; exact .started ht hraw

/-- A run that gives a fault has met it in its last step. -/
theorem exists_last_step_of_run_error {budget : Nat} (hm : m.state = .running)
    (h : (m.after (m.span budget)).state = .faulted fault) :
    ∃ k, m.span budget = k + 1 ∧ (m.after k).state = .running ∧
      (m.after k).step.outcome = .error fault := by
  have hstop : (m.after (m.span budget)).state ≠ .running := by
    rw [h]
    intro hrun
    cases hrun
  obtain ⟨k, hk, hrun⟩ := exists_last_step hm hstop
  rw [hk, after_succ] at h
  exact ⟨k, hk, hrun, outcome_eq_error_iff.2 h⟩

/-- A fault commits nothing. A step that faults changes the run state of the machine and no more,
and a run that ends with a fault leaves the machine that its last instruction found, after `k`
others, apart from the run state. -/
theorem fault_commits_nothing (hm : m.state = .running) :
    (∀ fault, m.step.outcome = .error fault →
      m.step.machine = { m with state := .faulted fault } ∧
        m.FaultEvents fault m.step.events) ∧
    ∀ {σ : Type} (sink : σ → Event → σ) (watchdog : Watchdog) (s : σ) (fault : Fault),
      (m.run (Entry.toSink sink) watchdog s).result = .error fault →
      ∃ k last, (m.after k).state = .running ∧ (m.after k).step.outcome = .error fault ∧
        (m.run (Entry.toSink sink) watchdog s).machine =
          { m.after k with state := .faulted fault } ∧
        (m.after k).FaultEvents fault last ∧
        (m.run (Entry.toSink sink) watchdog s).observed = (m.events k ++ last).foldl sink s := by
  refine ⟨fun fault h => ⟨machine_step_of_error hm h, faultEvents_step hm h⟩, ?_⟩
  intro σ sink watchdog s fault h
  rw [result_run, verdict_eq_error_iff] at h
  obtain ⟨k, hk, hrun, hstep⟩ := exists_last_step_of_run_error hm h
  refine ⟨k, (m.after k).step.events, hrun, hstep, ?_, faultEvents_step hrun hstep, ?_⟩
  · rw [machine_run, hk, after_succ, machine_step_of_error hrun hstep]
  · rw [observed_run_toSink, hk, events_succ]

/-- `OUT`, and then a store to a cell outside memory. -/
def outThenStore : Machine where
  config := { tracing := true }
  regs := { a := 7, c := 5, ptr := 10 }
  memory := ⟨#[0x02, 0x79]⟩

theorem fault_commits_nothing_outThenStore :
    outThenStore.state = .running ∧
    (outThenStore.run (Entry.toSink fun es e => es ++ [e]) (.instructionBudget 9) []).result =
      .error (.memoryOutOfBounds 15 2) ∧
    (∃ k last, (outThenStore.after k).state = .running ∧
      (outThenStore.after k).step.outcome = .error (.memoryOutOfBounds 15 2) ∧
      (outThenStore.run (Entry.toSink fun es e => es ++ [e]) (.instructionBudget 9) []).machine =
        { outThenStore.after k with state := .faulted (.memoryOutOfBounds 15 2) } ∧
      (outThenStore.after k).FaultEvents (.memoryOutOfBounds 15 2) last ∧
      (outThenStore.run (Entry.toSink fun es e => es ++ [e]) (.instructionBudget 9) []).observed =
        (outThenStore.events k ++ last).foldl (fun es e => es ++ [e]) []) ∧
    outThenStore.step.machine.state = .running ∧
    outThenStore.step.machine.step.outcome = .error (.memoryOutOfBounds 15 2) ∧
    outThenStore.step.machine.step.machine =
      { outThenStore.step.machine with state := .faulted (.memoryOutOfBounds 15 2) } ∧
    outThenStore.step.machine.FaultEvents (.memoryOutOfBounds 15 2)
      outThenStore.step.machine.step.events :=
  ⟨rfl, rfl, (fault_commits_nothing (m := outThenStore) rfl).2 _ _ _ _ rfl, rfl, rfl,
    ((fault_commits_nothing (m := outThenStore.step.machine) rfl).1 _ rfl).1,
    ((fault_commits_nothing (m := outThenStore.step.machine) rfl).1 _ rfl).2⟩

end Machine

end Tomtel
