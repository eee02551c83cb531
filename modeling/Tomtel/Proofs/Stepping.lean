import Mathlib.Tactic.SplitIfs
import Tomtel.Machine.Step
import Tomtel.Proofs.Decoding

/-!
# One step of a running machine

`Machine.upcoming` is the instruction at `pc` with its effect, or the fault that it meets, as a
function of registers, memory and layout. `step_of_upcoming_error` and `step_of_upcoming_ok` say all
that a step of a running machine can do; nothing after them unfolds `Machine.step`.
-/

namespace Tomtel

def Attempt.events (attempt : Attempt) : List Event := attempt.entries.filterMap Entry.event?

namespace Machine

variable {m : Machine} {i : Instruction} {effect : Effect} {fault : Fault}

/-- The machine with `pc` moved behind `i`. -/
def past (m : Machine) (i : Instruction) : Machine := m.setPc (m.pc + i.length.toUInt32)

/-- The instruction at `pc` and its effect, or the fault that it meets. -/
def upcoming (m : Machine) : Except Fault (Instruction × Effect) :=
  match m.memory.instruction m.config.layout m.pc with
  | .error fault => .error fault
  | .ok i =>
    match i.effect (m.past i).regs m.memory with
    | .error fault => .error fault
    | .ok effect => .ok (i, effect)

/-- The event of a first byte that decodes. -/
def startEntries (m : Machine) : List Entry :=
  match m.memory.decode m.pc with
  | .ok decoded => m.traced (.start m.pc decoded.raw)
  | .error _ => []

/-- What is reported before the instruction at `pc` takes effect. -/
def announcement (m : Machine) : List Entry :=
  m.startEntries ++
    match m.memory.instruction m.config.layout m.pc with
    | .ok i => [.message (.executing m.pc i)]
    | .error _ => []

def effectEntries (m : Machine) (effect : Effect) : List Entry :=
  match effect.event? m.pc with
  | some e => m.traced e
  | none => []

theorem upcoming_of_instruction_error
    (h : m.memory.instruction m.config.layout m.pc = .error fault) : m.upcoming = .error fault := by
  rw [upcoming, h]

theorem upcoming_eq_ok_iff :
    m.upcoming = .ok (i, effect) ↔ m.memory.instruction m.config.layout m.pc = .ok i ∧
      i.effect (m.past i).regs m.memory = .ok effect := by
  unfold upcoming
  constructor
  · intro h
    split at h
    · cases h
    · split at h
      · cases h
      · cases h; exact ⟨‹_›, ‹_›⟩
  · rintro ⟨hi, he⟩
    simp only [hi, he]

theorem upcoming_eq_error_iff :
    m.upcoming = .error fault ↔ m.memory.instruction m.config.layout m.pc = .error fault ∨
      ∃ i, m.memory.instruction m.config.layout m.pc = .ok i ∧
        i.effect (m.past i).regs m.memory = .error fault := by
  unfold upcoming
  constructor
  · intro h
    split at h
    · cases h; exact .inl ‹_›
    · split at h
      · cases h; exact .inr ⟨_, ‹_›, ‹_›⟩
      · cases h
  · rintro (hi | ⟨i, hi, he⟩)
    · simp only [hi]
    · simp only [hi, he]

/-! ### The two ways of a step -/

theorem step_of_decode_error (hm : m.state = .running) (hd : m.memory.decode m.pc = .error fault) :
    m.step = m.latch fault [] := by
  simp only [step, hm, hd]

theorem step_of_resolve_error {d : Decoded} (hm : m.state = .running)
    (hd : m.memory.decode m.pc = .ok d) (hr : d.resolve m.memory m.config.layout = .error fault) :
    m.step = m.latch fault (m.traced (.start m.pc d.raw)) := by
  simp only [step, hm, hd, hr]

/-- Moving `pc` behind the first byte's operation moves it behind the instruction. -/
theorem setPc_next {d : Decoded} (hd : m.memory.decode m.pc = .ok d)
    (hr : d.resolve m.memory m.config.layout = .ok i) : m.setPc d.next = m.past i := by
  rw [past, Decoded.next, (Memory.getElem?_of_decode hd).2, Decoded.length,
    ← Decoded.opcode_of_resolve hr, Instruction.length]

/-- A step that meets a fault latches it and changes nothing else. -/
theorem step_of_upcoming_error (hm : m.state = .running) (h : m.upcoming = .error fault) :
    m.step = m.latch fault m.announcement := by
  unfold announcement startEntries
  cases hd : m.memory.decode m.pc with
  | error fault' =>
    have hi : m.memory.instruction m.config.layout m.pc = .error fault' :=
      Memory.instruction_of_decode_eq_error hd
    rw [upcoming_of_instruction_error hi] at h
    cases h
    simp only [step_of_decode_error hm hd, hi, List.append_nil]
  | ok d =>
    have hi : m.memory.instruction m.config.layout m.pc = d.resolve m.memory m.config.layout :=
      Memory.instruction_of_decode hd
    cases hr : d.resolve m.memory m.config.layout with
    | error fault' =>
      rw [hr] at hi
      rw [upcoming_of_instruction_error hi] at h
      cases h
      simp only [step_of_resolve_error hm hd hr, hi, List.append_nil]
    | ok i =>
      rw [hr] at hi
      rcases upcoming_eq_error_iff.1 h with h' | ⟨j, hj, he⟩
      · rw [hi] at h'; cases h'
      · rw [hi] at hj; cases hj
        -- `pc` has been moved on and is put back
        have hback : (m.past i).setPc m.pc = m := rfl
        have hexec : (m.past i).execute i m.pc = ⟨m.past i, .error fault, []⟩ := by
          rw [execute, show (m.past i).memory = m.memory from rfl, he]
        simp only [step, hm, hd, hr, setPc_next hd hr, hexec, hback, hi, List.append_nil]

theorem step_of_upcoming_ok (hm : m.state = .running) (h : m.upcoming = .ok (i, effect)) :
    m.step = ⟨(m.past i).apply effect, .ok (effect.outcome i),
      m.announcement ++ m.effectEntries effect⟩ := by
  obtain ⟨hi, he⟩ := upcoming_eq_ok_iff.1 h
  unfold announcement startEntries
  cases hd : m.memory.decode m.pc with
  | error fault' =>
    rw [Memory.instruction_of_decode_eq_error hd] at hi; cases hi
  | ok d =>
    have hr := hi
    rw [Memory.instruction_of_decode hd] at hr
    have hexec : (m.past i).execute i m.pc =
        ⟨(m.past i).apply effect, .ok (effect.outcome i), m.effectEntries effect⟩ := by
      rw [execute, show (m.past i).memory = m.memory from rfl, he]
      rfl
    simp only [step, hm, hd, hr, setPc_next hd hr, hexec, hi]

theorem step_error_iff (hm : m.state = .running) :
    m.step.outcome = .error fault ↔ m.upcoming = .error fault := by
  cases h : m.upcoming with
  | error fault' => rw [step_of_upcoming_error hm h, latch, Except.error.injEq, Except.error.injEq]
  | ok next =>
    rw [step_of_upcoming_ok hm h]
    constructor <;> intro h' <;> cases h'

theorem step_ok_iff {outcome : StepOutcome} (hm : m.state = .running) :
    m.step.outcome = .ok outcome ↔
      ∃ i effect, m.upcoming = .ok (i, effect) ∧ effect.outcome i = outcome := by
  cases h : m.upcoming with
  | error fault =>
    rw [step_of_upcoming_error hm h, latch]
    constructor
    · intro h'; cases h'
    · rintro ⟨i, effect, h', -⟩; cases h'
  | ok next =>
    obtain ⟨i, effect⟩ := next
    rw [step_of_upcoming_ok hm h, Except.ok.injEq]
    constructor
    · exact fun h' => ⟨i, effect, rfl, h'⟩
    · rintro ⟨i', effect', h', ho⟩; cases h'; exact ho

/-! ### Run states -/

theorem effect_outcome_eq_halted_iff : effect.outcome i = .halted ↔ effect = .halt := by
  cases effect <;> simp [Effect.outcome]

theorem effect_outcome_of_ne_halt (h : effect ≠ .halt) : effect.outcome i = .retired i.length := by
  cases effect <;> first | rfl | exact absurd rfl h

theorem state_apply : (m.apply effect).state = if effect = .halt then .halted else m.state := by
  cases effect <;> rfl

theorem step_of_not_running (hm : m.state ≠ .running) :
    m.step.machine = m ∧ m.step.entries = [] := by
  cases h : m.state with
  | running => exact absurd h hm
  | halted => rw [step_of_halted h]; exact ⟨rfl, rfl⟩
  | faulted fault => rw [step_of_faulted h]; exact ⟨rfl, rfl⟩

theorem state_step_of_upcoming_ok (hm : m.state = .running) (h : m.upcoming = .ok (i, effect)) :
    m.step.machine.state = if effect = .halt then .halted else .running := by
  rw [step_of_upcoming_ok hm h, state_apply]
  exact congrArg (fun s => if effect = .halt then RunState.halted else s) hm

theorem outcome_eq_error_iff :
    m.step.outcome = .error fault ↔ m.step.machine.state = .faulted fault := by
  cases hm : m.state with
  | faulted fault' =>
    rw [step_of_faulted hm, hm, Except.error.injEq, RunState.faulted.injEq]
  | halted =>
    rw [step_of_halted hm, hm]
    constructor <;> intro h <;> cases h
  | running =>
    cases h : m.upcoming with
    | error fault' =>
      rw [step_of_upcoming_error hm h, latch, Except.error.injEq, RunState.faulted.injEq]
    | ok next =>
      rw [state_step_of_upcoming_ok hm h, step_of_upcoming_ok hm h]
      constructor
      · intro h'; cases h'
      · intro h'; split_ifs at h'

theorem outcome_eq_halted_iff :
    m.step.outcome = .ok .halted ↔ m.step.machine.state = .halted := by
  cases hm : m.state with
  | faulted fault =>
    rw [step_of_faulted hm, hm]
    constructor <;> intro h <;> cases h
  | halted =>
    rw [step_of_halted hm, hm]
    exact ⟨fun _ => rfl, fun _ => rfl⟩
  | running =>
    cases h : m.upcoming with
    | error fault =>
      rw [step_of_upcoming_error hm h]
      constructor <;> intro h' <;> cases h'
    | ok next =>
      rw [state_step_of_upcoming_ok hm h, step_of_upcoming_ok hm h, Except.ok.injEq,
        effect_outcome_eq_halted_iff]
      split_ifs with he <;> simp [he]

theorem config_apply (m : Machine) (effect : Effect) : (m.apply effect).config = m.config := by
  cases effect <;> rfl

theorem config_step (m : Machine) : m.step.machine.config = m.config := by
  by_cases hm : m.state = .running
  · cases h : m.upcoming with
    | error fault => rw [step_of_upcoming_error hm h]; rfl
    | ok next =>
      rw [step_of_upcoming_ok hm h, config_apply]
      rfl
  · rw [(step_of_not_running hm).1]

theorem size_apply (m : Machine) (effect : Effect) :
    (m.apply effect).memory.size = m.memory.size := by
  cases effect with
  | store addr v => exact Array.size_setIfInBounds
  | _ => rfl

theorem size_step (m : Machine) : m.step.machine.memory.size = m.memory.size := by
  by_cases hm : m.state = .running
  · cases h : m.upcoming with
    | error fault => rw [step_of_upcoming_error hm h]; rfl
    | ok next =>
      rw [step_of_upcoming_ok hm h, size_apply]
      rfl
  · rw [(step_of_not_running hm).1]

/-! ### What a step reports -/

theorem filterMap_event?_traced (e : Event) :
    (m.traced e).filterMap Entry.event? = if m.config.tracing then [e] else [] := by
  unfold traced
  split_ifs <;> rfl

theorem filterMap_event?_announcement :
    m.announcement.filterMap Entry.event? = m.startEntries.filterMap Entry.event? := by
  rw [announcement, List.filterMap_append]
  cases m.memory.instruction m.config.layout m.pc <;> exact List.append_nil _

theorem filterMap_event?_startEntries :
    m.startEntries.filterMap Entry.event? = [] ∨
      ∃ raw, m.memory.bytes[m.pc.toNat]? = some raw ∧
        m.startEntries.filterMap Entry.event? =
          if m.config.tracing then [.start m.pc raw] else [] := by
  unfold startEntries
  cases hd : m.memory.decode m.pc with
  | error fault => exact .inl rfl
  | ok d => exact .inr ⟨d.raw, (Memory.getElem?_of_decode hd).1, filterMap_event?_traced _⟩

theorem filterMap_event?_effectEntries (effect : Effect) :
    (m.effectEntries effect).filterMap Entry.event? =
      if m.config.tracing then (effect.event? m.pc).toList else [] := by
  unfold effectEntries
  cases effect.event? m.pc with
  | some e => exact filterMap_event?_traced e
  | none => split_ifs <;> rfl

end Machine

end Tomtel
