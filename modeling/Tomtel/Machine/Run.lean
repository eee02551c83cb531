import Tomtel.Machine.Step

/-!
# Running a machine

A run steps until the machine is halted or faulted or the watchdog ends it. Every entry is handed to
`observe` as it is reported, so a run that nobody watches keeps nothing.

`Machine.advance` is the loop, over the number of instructions that may still retire, and
`Machine.run` puts the messages of a run around it. The clock of a wall-clock watchdog stands
still here; a host that has one looks at it before every step.
-/

namespace Tomtel

inductive Completion where
  | halted
  /-- The watchdog ended the run; the machine can go on. -/
  | timedOut
  deriving DecidableEq, Repr

structure RunOutcome where
  completion : Completion
  /-- How many instructions retired. -/
  steps : UInt64
  deriving DecidableEq, Repr

def RunOutcome.halted (outcome : RunOutcome) : Bool := outcome.completion = .halted

/-- What a run leaves behind, `observed` being the state of its observer. -/
structure Run (σ : Type) where
  machine : Machine
  result : Except Fault RunOutcome
  observed : σ

/-- The message that closes a run. A fault has been reported where it was raised, and a machine
that was halted before the run says nothing. -/
def Run.closing? {σ : Type} (run : Run σ) : Option Message :=
  match run.result with
  | .ok ⟨.timedOut, steps⟩ => some (.expired steps run.machine.pc)
  | .ok ⟨.halted, steps⟩ =>
    if steps = 0 then none
    else some (.halted steps run.machine.output.size.toUInt64)
  | .error _ => none

/-- Reports the message that closes the run. -/
def Run.close {σ : Type} (observe : σ → Entry → σ) (run : Run σ) : Run σ :=
  match run.closing? with
  | some message => { run with observed := observe run.observed (.message message) }
  | none => run

namespace Machine

variable {σ : Type} (observe : σ → Entry → σ)

/-- Lets up to `count` further instructions retire, `steps` having retired before. A machine that
cannot go on is reported as such even if `count` is zero. -/
def advance : (count : Nat) → (steps : UInt64) → Machine → σ → Run σ
  | count, steps, m, observed =>
    match m.state with
    | .faulted fault => ⟨m, .error fault, observed⟩
    | .halted => ⟨m, .ok ⟨.halted, steps⟩, observed⟩
    | .running =>
      match count with
      | 0 => ⟨m, .ok ⟨.timedOut, steps⟩, observed⟩
      | count + 1 =>
        let attempt := m.step
        let observed := attempt.entries.foldl observe observed
        match attempt.outcome with
        | .error fault => ⟨attempt.machine, .error fault, observed⟩
        | .ok _ => advance count (steps + 1) attempt.machine observed

section

variable {m : Machine} (count : Nat) (steps : UInt64) (observed : σ)

theorem advance_of_faulted {fault : Fault} (h : m.state = .faulted fault) :
    m.advance observe count steps observed = ⟨m, .error fault, observed⟩ := by
  unfold advance
  rw [h]

theorem advance_of_halted (h : m.state = .halted) :
    m.advance observe count steps observed = ⟨m, .ok ⟨.halted, steps⟩, observed⟩ := by
  unfold advance
  rw [h]

theorem advance_zero (h : m.state = .running) :
    m.advance observe 0 steps observed = ⟨m, .ok ⟨.timedOut, steps⟩, observed⟩ := by
  rw [advance, h]

theorem advance_succ_of_error {fault : Fault} (h : m.state = .running)
    (hs : m.step.outcome = .error fault) :
    m.advance observe (count + 1) steps observed =
      ⟨m.step.machine, .error fault, m.step.entries.foldl observe observed⟩ := by
  rw [advance, h]
  simp only [hs]

theorem advance_succ_of_ok {outcome : StepOutcome} (h : m.state = .running)
    (hs : m.step.outcome = .ok outcome) :
    m.advance observe (count + 1) steps observed =
      m.step.machine.advance observe count (steps + 1) (m.step.entries.foldl observe observed) := by
  rw [advance, h]
  simp only [hs]

end

/-- Runs the machine under a watchdog. -/
def run (m : Machine) (watchdog : Watchdog) (observed : σ) : Run σ :=
  let starting := Message.starting m.pc m.memory.length watchdog
  Run.close observe
    (m.advance observe watchdog.allowance.toNat 0 (observe observed (.message starting)))

end Machine

end Tomtel
