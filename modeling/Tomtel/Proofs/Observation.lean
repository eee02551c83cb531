import Tomtel.Proofs.Runs

/-!
# Observation is inert

Two machines that differ at most in what they have put out, in whether they trace and in their own
watchdog (`Machine.Alike`) take the same course whoever watches them: `observation_inert`. What an
instruction does is a function of registers, memory and layout (`Machine.upcoming`), so that alike
machines stay alike and put out the same bytes at each step (`Alike.step`). Events are the only
thing that tracing adds.
-/

namespace Tomtel

/-- The bytes that the effect puts out. -/
def Effect.emitted : Effect → List UInt8
  | .emit v => [v]
  | _ => []

namespace Machine

/-- The machines agree on all that a program can see. -/
structure Alike (m₁ m₂ : Machine) : Prop where
  regs : m₁.regs = m₂.regs
  memory : m₁.memory = m₂.memory
  state : m₁.state = m₂.state
  layout : m₁.config.layout = m₂.config.layout

/-- `m₁` has become `m₁'` in the way that `m₂` has become `m₂'`. -/
structure Parallel (m₁ m₂ m₁' m₂' : Machine) : Prop where
  alike : m₁'.Alike m₂'
  /-- Both have put out the same bytes on the way. -/
  output : ∃ bytes, m₁'.output.bytes.toList = m₁.output.bytes.toList ++ bytes ∧
    m₂'.output.bytes.toList = m₂.output.bytes.toList ++ bytes
  config : m₁'.config = m₁.config ∧ m₂'.config = m₂.config

/-- The machine with its tracing switched on or off. -/
def setTracing (m : Machine) (on : Bool) : Machine :=
  { m with config := { m.config with tracing := on } }

variable {m m₁ m₂ m₁' m₂' m₁'' m₂'' : Machine} {effect : Effect}

theorem output_apply (m : Machine) (effect : Effect) :
    (m.apply effect).output.bytes.toList = m.output.bytes.toList ++ effect.emitted := by
  cases effect <;> simp [apply, Output.push, Effect.emitted]

theorem alike_setTracing (m : Machine) (on : Bool) : m.Alike (m.setTracing on) :=
  ⟨rfl, rfl, rfl, rfl⟩

namespace Alike

theorem refl (m : Machine) : m.Alike m := ⟨rfl, rfl, rfl, rfl⟩

theorem upcoming (h : m₁.Alike m₂) : m₁.upcoming = m₂.upcoming := by
  simp only [Machine.upcoming, past, setPc, pc, h.regs, h.memory, h.layout]

theorem past (h : m₁.Alike m₂) (i : Instruction) : (m₁.past i).Alike (m₂.past i) := by
  refine ⟨?_, h.memory, h.state, h.layout⟩
  simp only [Machine.past, setPc, pc, h.regs]

theorem apply (h : m₁.Alike m₂) (effect : Effect) : (m₁.apply effect).Alike (m₂.apply effect) := by
  obtain ⟨hr, hm, hs, hl⟩ := h
  cases effect <;> refine ⟨?_, ?_, ?_, hl⟩ <;> simp [Machine.apply, hr, hm, hs]

end Alike

namespace Parallel

theorem refl (h : m₁.Alike m₂) : Parallel m₁ m₂ m₁ m₂ := ⟨h, ⟨[], by simp⟩, rfl, rfl⟩

theorem trans (h : Parallel m₁ m₂ m₁' m₂') (h' : Parallel m₁' m₂' m₁'' m₂'') :
    Parallel m₁ m₂ m₁'' m₂'' := by
  obtain ⟨-, ⟨xs, hx₁, hx₂⟩, hc₁, hc₂⟩ := h
  obtain ⟨ha, ⟨ys, hy₁, hy₂⟩, hc₁', hc₂'⟩ := h'
  exact ⟨ha, ⟨xs ++ ys, by simp [hy₁, hx₁], by simp [hy₂, hx₂]⟩, hc₁'.trans hc₁, hc₂'.trans hc₂⟩

/-- Where the two start with the same output, the configuration is all that sets them apart. -/
theorem eq_of_output_eq (h : Parallel m₁ m₂ m₁' m₂') (ho : m₁.output = m₂.output) :
    m₂' = { m₁' with config := m₂.config } := by
  obtain ⟨⟨hr, hm, hs, -⟩, ⟨bytes, h₁, h₂⟩, -, hc⟩ := h
  have hbytes : m₂'.output.bytes = m₁'.output.bytes := by
    rw [← Array.toList_inj, h₁, h₂, ho]
  have hout : m₂'.output = m₁'.output := congrArg Output.mk hbytes
  cases m₁'; cases m₂'
  simp_all

end Parallel

theorem Alike.step (h : m₁.Alike m₂) :
    Parallel m₁ m₂ m₁.step.machine m₂.step.machine ∧ m₁.step.outcome = m₂.step.outcome := by
  cases hs : m₁.state with
  | faulted fault =>
    rw [step_of_faulted hs, step_of_faulted (h.state ▸ hs)]
    exact ⟨.refl h, rfl⟩
  | halted =>
    rw [step_of_halted hs, step_of_halted (h.state ▸ hs)]
    exact ⟨.refl h, rfl⟩
  | running =>
    have hs₂ : m₂.state = .running := h.state ▸ hs
    cases hu : m₁.upcoming with
    | error fault =>
      rw [step_of_upcoming_error hs hu, step_of_upcoming_error hs₂ (h.upcoming ▸ hu)]
      exact ⟨⟨⟨h.regs, h.memory, rfl, h.layout⟩, ⟨[], by simp [latch]⟩, rfl, rfl⟩, rfl⟩
    | ok next =>
      obtain ⟨i, effect⟩ := next
      rw [step_of_upcoming_ok hs hu, step_of_upcoming_ok hs₂ (h.upcoming ▸ hu)]
      exact ⟨⟨(h.past i).apply effect, ⟨effect.emitted, output_apply _ _, output_apply _ _⟩,
        config_apply _ _, config_apply _ _⟩, rfl⟩

theorem Alike.after (h : m₁.Alike m₂) (k : Nat) :
    Parallel m₁ m₂ (m₁.after k) (m₂.after k) := by
  induction k with
  | zero => exact .refl h
  | succ k ih =>
    rw [after_succ, after_succ]
    exact ih.trans ih.alike.step.1

theorem output_prefix {j k : Nat} (hjk : j ≤ k) :
    (m.after j).output.bytes.toList <+: (m.after k).output.bytes.toList := by
  obtain ⟨d, rfl⟩ := Nat.exists_eq_add_of_le hjk
  -- a machine runs in parallel with itself
  obtain ⟨bytes, hbytes, -⟩ := ((Alike.refl (m.after j)).after d).output
  rw [after_add, hbytes]
  exact List.prefix_append ..

theorem Alike.span (h : m₁.Alike m₂) (budget : Nat) : m₁.span budget = m₂.span budget :=
  span_congr fun j _ => by rw [(h.after j).alike.state]

theorem Alike.verdict (h : m₁.Alike m₂) (steps : UInt64) : m₁.verdict steps = m₂.verdict steps := by
  rw [Machine.verdict, Machine.verdict, h.state]

theorem Alike.run (h : m₁.Alike m₂) {σ₁ σ₂ : Type} (observe₁ : σ₁ → Entry → σ₁)
    (observe₂ : σ₂ → Entry → σ₂) (s₁ : σ₁) (s₂ : σ₂) (watchdog : Watchdog) :
    (m₁.run observe₁ watchdog s₁).result = (m₂.run observe₂ watchdog s₂).result ∧
      Parallel m₁ m₂ (m₁.run observe₁ watchdog s₁).machine
        (m₂.run observe₂ watchdog s₂).machine := by
  rw [result_run, result_run, machine_run, machine_run, ← h.span]
  exact ⟨(h.after _).alike.verdict _, h.after _⟩

/-- Tracing is all that is different after a run with tracing switched. -/
theorem run_setTracing (m : Machine) (on : Bool) {σ₁ σ₂ : Type} (observe₁ : σ₁ → Entry → σ₁)
    (observe₂ : σ₂ → Entry → σ₂) (s₁ : σ₁) (s₂ : σ₂) (watchdog : Watchdog) :
    let run := m.run observe₁ watchdog s₁
    let switched := (m.setTracing on).run observe₂ watchdog s₂
    switched.result = run.result ∧ switched.machine = run.machine.setTracing on := by
  obtain ⟨hresult, hmachine⟩ :=
    (m.alike_setTracing on).run observe₁ observe₂ s₁ s₂ watchdog
  refine ⟨hresult.symm, (hmachine.eq_of_output_eq rfl).trans ?_⟩
  rw [setTracing, setTracing, hmachine.config.1]

/-! ### Silence -/

theorem events_step_eq_nil (ht : m.config.tracing = false) : m.step.events = [] := by
  by_cases hm : m.state = .running
  · have hstart : m.startEntries.filterMap Entry.event? = [] := by
      rcases m.filterMap_event?_startEntries with hs | ⟨raw, -, hs⟩ <;> simp [hs, ht]
    cases hu : m.upcoming with
    | error fault =>
      simp [step_of_upcoming_error hm hu, Attempt.events, latch, List.filterMap_cons, Entry.event?,
        filterMap_event?_announcement, hstart, filterMap_event?_traced, ht]
    | ok next =>
      simp [step_of_upcoming_ok hm hu, Attempt.events, filterMap_event?_announcement, hstart,
        filterMap_event?_effectEntries, ht]
  · rw [Attempt.events, (step_of_not_running hm).2, List.filterMap_nil]

theorem events_eq_nil (ht : m.config.tracing = false) (k : Nat) : m.events k = [] := by
  induction k with
  | zero => rfl
  | succ k ih =>
    have htk : (m.after k).config.tracing = false := by rw [config_after, ht]
    rw [events_succ, ih, events_step_eq_nil htk, List.append_nil]

/-- Let two machines agree on registers, memory, run state and layout. Then they agree again after
any number of steps and after a run under the same budget, whatever watches the two runs; each step
and each run has the same result for both, and puts out the same bytes. So a switch of tracing is
all that is different after a run with tracing switched. A machine that does not trace sends no
event. -/
theorem observation_inert (h : m₁.Alike m₂) :
    (∀ k, Parallel m₁ m₂ (m₁.after k) (m₂.after k) ∧
      (m₁.after k).step.outcome = (m₂.after k).step.outcome) ∧
    (∀ {σ₁ σ₂ : Type} (sink₁ : σ₁ → Event → σ₁) (sink₂ : σ₂ → Event → σ₂) (s₁ : σ₁) (s₂ : σ₂)
        (n : UInt64),
      let run₁ := m₁.run (Entry.toSink sink₁) (.instructionBudget n) s₁
      let run₂ := m₂.run (Entry.toSink sink₂) (.instructionBudget n) s₂
      run₁.result = run₂.result ∧ Parallel m₁ m₂ run₁.machine run₂.machine) ∧
    (∀ {σ₁ σ₂ : Type} (sink₁ : σ₁ → Event → σ₁) (sink₂ : σ₂ → Event → σ₂) (s₁ : σ₁) (s₂ : σ₂)
        (n : UInt64) (on : Bool),
      let run := m₁.run (Entry.toSink sink₁) (.instructionBudget n) s₁
      let switched := (m₁.setTracing on).run (Entry.toSink sink₂) (.instructionBudget n) s₂
      switched.result = run.result ∧ switched.machine = run.machine.setTracing on) ∧
    (m₁.config.tracing = false → (∀ k, m₁.events k = []) ∧
      ∀ {σ : Type} (sink : σ → Event → σ) (s : σ) (n : UInt64),
        (m₁.run (Entry.toSink sink) (.instructionBudget n) s).observed = s) := by
  refine ⟨fun k => ⟨h.after k, (h.after k).alike.step.2⟩,
    fun sink₁ sink₂ s₁ s₂ n => h.run _ _ s₁ s₂ _,
    fun sink₁ sink₂ s₁ s₂ n on => m₁.run_setTracing on _ _ s₁ s₂ _,
    fun ht => ⟨events_eq_nil ht, ?_⟩⟩
  · intro σ sink s n
    rw [observed_run_toSink, events_eq_nil ht]
    rfl

/-- An `OUT` and a `HALT`, after some output. -/
def outHalt : Machine where
  regs := { a := 65 }
  memory := ⟨#[0x02, 0x01]⟩
  output := ⟨#[1, 2]⟩

def outHaltTraced : Machine :=
  { outHalt with config := { tracing := true, watchdog := .unbounded }, output := {} }

theorem observation_inert_outHalt :
    let run₁ := outHalt.run (Entry.toSink fun es e => es ++ [e]) (.instructionBudget 5) []
    let run₂ := outHaltTraced.run (Entry.toSink fun es e => es ++ [e]) (.instructionBudget 5) []
    outHalt.Alike outHaltTraced ∧
      run₁.result = run₂.result ∧ Parallel outHalt outHaltTraced run₁.machine run₂.machine ∧
      run₁.result = .ok ⟨.halted, 2⟩ ∧ run₁.machine.output = ⟨#[1, 2, 65]⟩ ∧
      run₂.machine.output = ⟨#[65]⟩ ∧ outHalt.config.tracing = false ∧ run₁.observed = [] ∧
      run₂.observed = [.start 0 0x02, .output 65, .start 1 0x01, .halted 1] := by
  have h : outHalt.Alike outHaltTraced := ⟨rfl, rfl, rfl, rfl⟩
  obtain ⟨-, hruns, -, hsilent⟩ := observation_inert h
  obtain ⟨hresult, hmachine⟩ := hruns (fun es e => es ++ [e]) (fun es e => es ++ [e]) [] [] 5
  exact ⟨h, hresult, hmachine, rfl, rfl, rfl, rfl, (hsilent rfl).2 _ [] 5, rfl⟩

end Machine

end Tomtel
