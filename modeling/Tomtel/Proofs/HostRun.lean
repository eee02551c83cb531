import Tomtel.CommandLine.Report
import Tomtel.Proofs.Loop

/-!
# Runs on a host

A host looks at its clock before every step and tells what is reported as it comes. Unless the clock
ends the run, what is told and what is left behind are those of the run of the machine:
`World.runMachine_apply`.
-/

namespace Tomtel

namespace World

variable {σ : Type} (world : World σ) {verbosity : Verbosity} {watchdog : Watchdog}
  {steps : UInt64} {m : Machine} {effects : Effects σ}

theorem tellEntries_apply (verbosity : Verbosity) (entries : List Entry) (effects : Effects σ) :
    entries.forM (world.host.tellEntry verbosity) effects =
      ((), { effects with
        stderr := entries.foldl (RunRequest.watch verbosity) effects.stderr }) := by
  induction entries generalizing effects with
  | nil => rfl
  | cons entry entries ih =>
    rw [List.forM, bind_apply, tellEntry_apply, ih]
    rfl

theorem advance_of_not_running (hm : m.state ≠ .running) (count : Nat) :
    world.host.advance verbosity watchdog count steps m effects =
      (⟨m, m.verdict steps, ()⟩, effects) := by
  unfold Host.advance Machine.verdict
  cases h : m.state with
  | running => exact absurd h hm
  | halted => rfl
  | faulted fault => rfl

theorem advance_zero (hm : m.state = .running) :
    world.host.advance verbosity watchdog 0 steps m effects =
      (⟨m, .ok ⟨.timedOut, steps⟩, ()⟩, effects) := by
  unfold Host.advance
  rw [hm]
  rfl

/-- A step is made, and told of, unless the watchdog has expired. -/
theorem advance_succ (hm : m.state = .running)
    (he : watchdog.expired (world.clock steps) steps = false) (count : Nat) :
    world.host.advance verbosity watchdog (count + 1) steps m effects =
      world.host.advance verbosity watchdog count (steps + 1) m.step.machine
        { effects with
          stderr := m.step.entries.foldl (RunRequest.watch verbosity) effects.stderr } := by
  rw [Host.advance, hm]
  refine (congrFun (if_neg (Bool.eq_false_iff.1 he)) effects).trans ?_
  rw [bind_apply, tellEntries_apply]
  cases ho : m.step.outcome with
  | ok outcome => rfl
  | error fault =>
    have hf : m.step.machine.state = .faulted fault := Machine.outcome_eq_error_iff.1 ho
    rw [world.advance_of_not_running (by simp [hf]), Machine.verdict_eq_error_iff.2 hf]
    rfl

/-- A host goes on with a machine as the machine does, if its clock does not end the run. -/
theorem advance_apply {count : Nat} (hlasts : watchdog.Lasts world.clock steps (m.span count)) :
    let run := m.advance (RunRequest.watch verbosity) count steps effects.stderr
    world.host.advance verbosity watchdog count steps m effects =
      ({ run with observed := () }, { effects with stderr := run.observed }) := by
  induction count generalizing steps m effects with
  | zero =>
    by_cases hm : m.state = .running
    · rw [world.advance_zero hm, Machine.advance_zero _ _ _ hm]
    · rw [world.advance_of_not_running hm, Machine.advance_of_not_running _ hm]
  | succ count ih =>
    by_cases hm : m.state = .running
    · rw [Machine.span_succ hm] at hlasts
      rw [world.advance_succ hm hlasts.head, ih hlasts.tail, Machine.advance_succ _ hm]
    · rw [world.advance_of_not_running hm, Machine.advance_of_not_running _ hm]

/-- The clock does not end the run of the machine. -/
def InTime (watchdog : Watchdog) (m : Machine) : Prop :=
  ∀ limit, watchdog = .wallClock limit →
    watchdog.Lasts world.clock 0 (m.span watchdog.allowance.toNat)

variable {world} in
/-- A run in time goes on until the machine stops or its budget is used up. -/
theorem InTime.lasts (h : world.InTime watchdog m) :
    watchdog.Lasts world.clock 0 (m.span watchdog.allowance.toNat) := by
  cases watchdog with
  | unbounded => exact Watchdog.lasts_unbounded
  | instructionBudget n =>
    have hpermits : (Watchdog.instructionBudget n).Permits n.toNat := Nat.le_refl _
    exact hpermits.lasts.mono (m.span_le n.toNat)
  | wallClock limit => exact h limit rfl

/-- A run is in time if the clock never gets past a limit. -/
theorem inTime_of_le (h : ∀ limit steps, watchdog = .wallClock limit →
    (world.clock steps).totalNanos ≤ limit.totalNanos) : world.InTime watchdog m := by
  rintro limit rfl i -
  rw [Watchdog.expired, decide_eq_false_iff_not]
  exact Nat.not_lt.2 (h limit _ rfl)

/-- The message that closes a run is told as its observer would have been. -/
theorem tellClosing_apply (verbosity : Verbosity) (run : Run (Array Notice)) (effects : Effects σ) :
    (run.closing?.forM fun message => world.host.tellEntry verbosity (.message message))
        { effects with stderr := run.observed } =
      ((), { effects with stderr := (run.close (RunRequest.watch verbosity)).observed }) := by
  rw [Run.close]
  cases run.closing? with
  | none => rfl
  | some message => exact world.tellEntry_apply verbosity (.message message) _

/-- A run in time is the run of the machine, watched for its notices. -/
theorem runMachine_apply (htime : world.InTime watchdog m) :
    let run := m.run (RunRequest.watch verbosity) watchdog effects.stderr
    world.host.runMachine verbosity watchdog m effects =
      ({ run with observed := () }, { effects with stderr := run.observed }) := by
  intro run
  let starting := Entry.message (.starting m.pc m.memory.length watchdog)
  let told := { effects with stderr := RunRequest.watch verbosity effects.stderr starting }
  let ended := m.advance (RunRequest.watch verbosity) watchdog.allowance.toNat 0 told.stderr
  have hadvance : world.host.advance verbosity watchdog watchdog.allowance.toNat 0 m told =
      ({ ended with observed := () }, { told with stderr := ended.observed }) :=
    world.advance_apply htime.lasts
  have hrun : run = ended.close (RunRequest.watch verbosity) := rfl
  have hended : { run with observed := () } = { ended with observed := () } := by
    rw [hrun, Run.close]
    cases ended.closing? <;> rfl
  rw [hended, hrun, Host.runMachine, bind_apply, tellEntry_apply]
  show (do
      let run ← world.host.advance verbosity watchdog watchdog.allowance.toNat 0 m
      run.closing?.forM fun message => world.host.tellEntry verbosity (.message message)
      return run : StateM (Effects σ) (Run Unit)) told = _
  rw [bind_apply, hadvance, bind_apply]
  exact congrArg (fun told => (({ ended with observed := () } : Run Unit), told.2))
    (world.tellClosing_apply verbosity ended effects)

theorem run_of_ok {request : RunRequest} {image : Array UInt8}
    (h : world.read effects.files request.input = .ok image)
    (htime : world.InTime request.watchdog (request.machine image)) :
    let loaded := verbosity.logged (.loaded image.size.toUInt64 request.input)
    let run := (request.machine image).run (RunRequest.watch verbosity) request.watchdog
      (effects.stderr ++ loaded)
    world.host.run verbosity request effects =
      world.host.finish request.output { run with observed := () }
        { effects with stderr := run.observed } := by
  intro loaded run
  rw [Host.run, bind_apply, read_apply, h]
  show (do
      world.host.tellAll loaded
      let run ← world.host.runMachine verbosity request.watchdog (request.machine image)
      world.host.finish request.output run : StateM (Effects σ) ExitStatus) effects = _
  rw [bind_apply, tellAll_apply, bind_apply, world.runMachine_apply htime]

end World

end Tomtel
