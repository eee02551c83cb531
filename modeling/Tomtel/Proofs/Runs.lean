import Tomtel.Machine.Run
import Tomtel.Proofs.Stepping

/-!
# Runs as iterated steps

`m.after k` is the machine after `k` steps and `m.journal k` what they report. A run makes
`m.span budget` steps (`advance_eq`): it stops at the first machine that is not running, or when the
budget is used up. `advance_eq_advance_after` is the loop at each of its iterations.
-/

namespace Tomtel

/-! ### Observers -/

section

variable {σ : Type} (sink : σ → Event → σ)

/-- The observer that hands trace events to a sink and drops log messages. -/
def Entry.toSink (s : σ) : Entry → σ
  | .event e => sink s e
  | .message _ => s

theorem Entry.foldl_toSink (entries : List Entry) (s : σ) :
    entries.foldl (Entry.toSink sink) s = (entries.filterMap Entry.event?).foldl sink s := by
  induction entries generalizing s with
  | nil => rfl
  | cons entry entries ih =>
    cases entry with
    | event e => exact ih (sink s e)
    | message message => exact ih s

end

namespace Machine

/-- The machine after `k` steps. -/
def after (m : Machine) : (k : Nat) → Machine
  | 0 => m
  | k + 1 => m.step.machine.after k

/-- What `k` steps report. -/
def journal (m : Machine) : (k : Nat) → List Entry
  | 0 => []
  | k + 1 => m.step.entries ++ m.step.machine.journal k

def events (m : Machine) (k : Nat) : List Event := (m.journal k).filterMap Entry.event?

/-- The steps up to the first machine that is not running, at most `budget` of them. -/
def span (m : Machine) : (budget : Nat) → Nat
  | 0 => 0
  | budget + 1 => if m.state = .running then m.step.machine.span budget + 1 else 0

/-- The result of a run that leaves this machine after `steps` instructions. -/
def verdict (m : Machine) (steps : UInt64) : Except Fault RunOutcome :=
  match m.state with
  | .faulted fault => .error fault
  | .halted => .ok ⟨.halted, steps⟩
  | .running => .ok ⟨.timedOut, steps⟩

/-! ### Iterated steps -/

section

variable (m : Machine)

theorem after_add (j k : Nat) : m.after (j + k) = (m.after j).after k := by
  induction j generalizing m with
  | zero => rw [Nat.zero_add]; rfl
  | succ j ih => rw [Nat.succ_add]; exact ih m.step.machine

theorem after_succ (k : Nat) : m.after (k + 1) = (m.after k).step.machine := m.after_add k 1

theorem journal_add (j k : Nat) : m.journal (j + k) = m.journal j ++ (m.after j).journal k := by
  induction j generalizing m with
  | zero => rw [Nat.zero_add]; rfl
  | succ j ih =>
    rw [Nat.succ_add, journal, ih m.step.machine, journal, List.append_assoc]
    rfl

theorem journal_succ (k : Nat) : m.journal (k + 1) = m.journal k ++ (m.after k).step.entries := by
  rw [journal_add, journal, journal, List.append_nil]

theorem events_add (j k : Nat) : m.events (j + k) = m.events j ++ (m.after j).events k := by
  rw [events, journal_add, List.filterMap_append]
  rfl

theorem events_succ (m : Machine) (k : Nat) :
    m.events (k + 1) = m.events k ++ (m.after k).step.events := by
  rw [events, journal_succ, List.filterMap_append]
  rfl

theorem config_after (k : Nat) : (m.after k).config = m.config := by
  induction k with
  | zero => rfl
  | succ k ih => rw [after_succ, config_step, ih]

end

variable {m : Machine}

theorem after_of_not_running (hm : m.state ≠ .running) (k : Nat) : m.after k = m := by
  induction k with
  | zero => rfl
  | succ k ih => rw [after_succ, ih]; exact (step_of_not_running hm).1

/-- A machine that has stopped has stopped for good. -/
theorem running_of_running_after {j k : Nat} (hjk : j ≤ k) (h : (m.after k).state = .running) :
    (m.after j).state = .running := by
  refine Decidable.byContradiction fun hj => ?_
  obtain ⟨i, rfl⟩ := Nat.exists_eq_add_of_le hjk
  rw [after_add, after_of_not_running hj] at h
  exact hj h

/-! ### The span of a run -/

theorem span_succ (hm : m.state = .running) (budget : Nat) :
    m.span (budget + 1) = m.step.machine.span budget + 1 := by
  rw [span, if_pos hm]

theorem span_le (m : Machine) (budget : Nat) : m.span budget ≤ budget := by
  induction budget generalizing m with
  | zero => exact Nat.le_refl 0
  | succ budget ih =>
    rw [span]
    split_ifs
    · exact Nat.succ_le_succ (ih _)
    · exact Nat.zero_le _

theorem running_of_lt_span {budget j : Nat} (hj : j < m.span budget) :
    (m.after j).state = .running := by
  induction budget generalizing m j with
  | zero => exact absurd hj (Nat.not_lt_zero j)
  | succ budget ih =>
    rw [span] at hj
    split_ifs at hj with hm
    · cases j with
      | zero => exact hm
      | succ j => exact ih (m := m.step.machine) (Nat.lt_of_succ_lt_succ hj)
    · exact absurd hj (Nat.not_lt_zero j)

/-- A run ends early only at a machine that is not running. -/
theorem span_eq_of_running {budget : Nat} (h : (m.after (m.span budget)).state = .running) :
    m.span budget = budget := by
  induction budget generalizing m with
  | zero => rfl
  | succ budget ih =>
    have hm : m.state = .running := running_of_running_after (Nat.zero_le _) h
    rw [span_succ hm] at h ⊢
    rw [ih h]

theorem span_of_not_running (hm : m.state ≠ .running) (budget : Nat) : m.span budget = 0 := by
  cases budget with
  | zero => rfl
  | succ budget => rw [span, if_neg hm]

/-- A budget can be spent in two parts. -/
theorem span_add (m : Machine) (j k : Nat) :
    m.span (j + k) = m.span j + (m.after (m.span j)).span k := by
  induction j generalizing m with
  | zero => simp [span, after]
  | succ j ih =>
    by_cases hm : m.state = .running
    · rw [Nat.succ_add, span_succ hm, span_succ hm, ih, after, Nat.add_right_comm]
    · simp [span_of_not_running hm, after]

/-- A smaller budget cuts the run of a larger one short. -/
theorem span_eq_min {j k : Nat} (hjk : j ≤ k) : m.span j = min j (m.span k) := by
  obtain ⟨d, rfl⟩ := Nat.exists_eq_add_of_le hjk
  rw [span_add]
  by_cases h : (m.after (m.span j)).state = .running
  · rw [span_eq_of_running h]; omega
  · have := m.span_le j
    rw [span_of_not_running h]; omega

theorem span_mono {j k : Nat} (hjk : j ≤ k) : m.span j ≤ m.span k := by
  rw [span_eq_min hjk]
  exact Nat.min_le_right ..

/-- How far a run gets depends on nothing but which of its machines are running. -/
theorem span_congr {m₁ m₂ : Machine} {budget : Nat}
    (h : ∀ j ≤ m₁.span budget, (m₁.after j).state = .running ↔ (m₂.after j).state = .running) :
    m₁.span budget = m₂.span budget := by
  induction budget generalizing m₁ m₂ with
  | zero => rfl
  | succ budget ih =>
    have h₀ : m₁.state = .running ↔ m₂.state = .running := h 0 (Nat.zero_le _)
    by_cases hm : m₁.state = .running
    · rw [span_succ hm] at h ⊢
      rw [span_succ (h₀.1 hm), ih fun j hj => h (j + 1) (Nat.succ_le_succ hj)]
    · rw [span_of_not_running hm, span_of_not_running fun hm₂ => hm (h₀.2 hm₂)]

theorem span_le_of_not_running {budget j : Nat} (h : (m.after j).state ≠ .running) :
    m.span budget ≤ j :=
  Nat.le_of_not_lt fun hj => h (running_of_lt_span hj)

/-- A run that stops the machine does so with its last step. -/
theorem exists_last_step {budget : Nat} (hm : m.state = .running)
    (h : (m.after (m.span budget)).state ≠ .running) :
    ∃ k, m.span budget = k + 1 ∧ (m.after k).state = .running := by
  obtain ⟨k, hk⟩ : ∃ k, m.span budget = k + 1 := by
    refine Nat.exists_eq_succ_of_ne_zero fun hzero => h ?_
    rw [hzero]
    exact hm
  have hlt : k < m.span budget := by omega
  exact ⟨k, hk, running_of_lt_span hlt⟩

theorem span_eq {budget k : Nat} (hrun : ∀ j < k, (m.after j).state = .running)
    (hk : k ≤ budget) (hend : (m.after k).state = .running → k = budget) : m.span budget = k := by
  have hge : k ≤ m.span budget := by
    refine Nat.le_of_not_lt fun hlt => ?_
    have heq := span_eq_of_running (hrun _ hlt)
    omega
  have hle : m.span budget ≤ k := by
    by_cases h : (m.after k).state = .running
    · rw [hend h]
      exact m.span_le budget
    · exact span_le_of_not_running h
  omega

/-- A machine that stops with step `k + 1` stops every run with a larger budget than `k` there. -/
theorem span_eq_succ {budget k : Nat} (hrun : (m.after k).state = .running)
    (hstop : (m.after (k + 1)).state ≠ .running) (hk : k < budget) : m.span budget = k + 1 :=
  span_eq (fun _ hj => running_of_running_after (Nat.le_of_lt_succ hj) hrun) hk
    fun h => absurd h hstop

/-! ### The loop -/

section

variable {σ : Type} (observe : σ → Entry → σ)

theorem advance_succ (hm : m.state = .running) (count : Nat) (steps : UInt64) (s : σ) :
    m.advance observe (count + 1) steps s =
      m.step.machine.advance observe count (steps + 1) (m.step.entries.foldl observe s) := by
  cases h : m.step.outcome with
  | ok outcome => exact advance_succ_of_ok observe count steps s hm h
  | error fault =>
    rw [advance_succ_of_error observe count steps s hm h,
      advance_of_faulted observe count (steps + 1) _ (outcome_eq_error_iff.1 h)]

theorem ofNat_succ (k : Nat) : UInt64.ofNat (k + 1) = UInt64.ofNat k + 1 := by
  rw [UInt64.ofNat_add]; rfl

theorem add_ofNat_zero (steps : UInt64) : steps + .ofNat 0 = steps := UInt64.add_zero steps

/-- The step that is made first may be counted first. -/
theorem add_ofNat_succ (steps : UInt64) (k : Nat) :
    steps + .ofNat (k + 1) = steps + 1 + .ofNat k := by
  rw [ofNat_succ, UInt64.add_comm (.ofNat k), ← UInt64.add_assoc]

/-- The loop when `j` of its steps are made: `j` is the counter, and the budget is `j` less. -/
theorem advance_eq_advance_after {count j : Nat} (hj : j ≤ m.span count) (steps : UInt64) (s : σ) :
    m.advance observe count steps s =
      (m.after j).advance observe (count - j) (steps + UInt64.ofNat j)
        ((m.journal j).foldl observe s) := by
  induction j with
  | zero =>
    rw [add_ofNat_zero]
    rfl
  | succ j ih =>
    have hlt : j < count := Nat.lt_of_lt_of_le hj (m.span_le count)
    rw [ih (Nat.le_of_succ_le hj), show count - j = count - (j + 1) + 1 by omega,
      advance_succ observe (running_of_lt_span hj), after_succ, journal_succ, List.foldl_append,
      ofNat_succ, UInt64.add_assoc]

/-- The loop makes `m.span count` steps and reports how they left the machine. -/
theorem advance_eq (m : Machine) (count : Nat) (steps : UInt64) (s : σ) :
    m.advance observe count steps s =
      ⟨m.after (m.span count),
        (m.after (m.span count)).verdict (steps + UInt64.ofNat (m.span count)),
        (m.journal (m.span count)).foldl observe s⟩ := by
  rw [advance_eq_advance_after observe (Nat.le_refl (m.span count))]
  generalize hk : m.after (m.span count) = last
  unfold verdict
  cases h : last.state with
  | faulted fault => rw [advance_of_faulted observe _ _ _ h]
  | halted => rw [advance_of_halted observe _ _ _ h]
  | running =>
    subst hk
    rw [show count - m.span count = 0 by rw [span_eq_of_running h]; omega,
      advance_zero observe _ _ h]

theorem advance_of_not_running (hm : m.state ≠ .running) (count : Nat) (steps : UInt64) (s : σ) :
    m.advance observe count steps s = ⟨m, m.verdict steps, s⟩ := by
  rw [advance_eq, span_of_not_running hm]
  simp [after, journal]

/-! ### The messages around the loop -/

theorem machine_close (run : Run σ) : (run.close observe).machine = run.machine := by
  unfold Run.close
  split <;> rfl

theorem result_close (run : Run σ) : (run.close observe).result = run.result := by
  unfold Run.close
  split <;> rfl

theorem observed_close (run : Run σ) :
    (run.close observe).observed =
      (run.closing?.toList.map Entry.message).foldl observe run.observed := by
  unfold Run.close
  split
  · rename_i message h; rw [h]; rfl
  · rename_i h; rw [h]; rfl

theorem run_eq (m : Machine) (watchdog : Watchdog) (s : σ) :
    m.run observe watchdog s =
      Run.close observe ⟨m.after (m.span watchdog.allowance.toNat),
        (m.after (m.span watchdog.allowance.toNat)).verdict
          (.ofNat (m.span watchdog.allowance.toNat)),
        (m.journal (m.span watchdog.allowance.toNat)).foldl observe
          (observe s (.message (.starting m.pc m.memory.length watchdog)))⟩ := by
  rw [run, advance_eq, UInt64.zero_add]

theorem machine_run (m : Machine) (watchdog : Watchdog) (s : σ) :
    (m.run observe watchdog s).machine = m.after (m.span watchdog.allowance.toNat) := by
  rw [run, machine_close, advance_eq]

theorem result_run (m : Machine) (watchdog : Watchdog) (s : σ) :
    (m.run observe watchdog s).result =
      (m.after (m.span watchdog.allowance.toNat)).verdict
        (UInt64.ofNat (m.span watchdog.allowance.toNat)) := by
  rw [run, result_close, advance_eq, UInt64.zero_add]

/-- A sink does not see the message that closes a run. -/
theorem close_toSink (sink : σ → Event → σ) (run : Run σ) :
    run.close (Entry.toSink sink) = run := by
  unfold Run.close
  split <;> rfl

theorem run_toSink (sink : σ → Event → σ) (m : Machine) (watchdog : Watchdog) (s : σ) :
    m.run (Entry.toSink sink) watchdog s =
      ⟨m.after (m.span watchdog.allowance.toNat),
        (m.after (m.span watchdog.allowance.toNat)).verdict
          (UInt64.ofNat (m.span watchdog.allowance.toNat)),
        (m.events (m.span watchdog.allowance.toNat)).foldl sink s⟩ := by
  rw [run, close_toSink, advance_eq, Entry.foldl_toSink, UInt64.zero_add]
  rfl

theorem observed_run_toSink (sink : σ → Event → σ) (m : Machine) (watchdog : Watchdog) (s : σ) :
    (m.run (Entry.toSink sink) watchdog s).observed =
      (m.events (m.span watchdog.allowance.toNat)).foldl sink s := by
  rw [run_toSink]

theorem run_toSink_congr (sink : σ → Event → σ) (watchdog watchdog' : Watchdog)
    (h : m.span watchdog.allowance.toNat = m.span watchdog'.allowance.toNat) (s : σ) :
    m.run (Entry.toSink sink) watchdog s = m.run (Entry.toSink sink) watchdog' s := by
  rw [run_toSink, run_toSink, h]

end

/-! ### The result of a run -/

section

variable {steps : UInt64} {fault : Fault}

theorem verdict_eq_error_iff : m.verdict steps = .error fault ↔ m.state = .faulted fault := by
  unfold verdict
  cases m.state <;> simp

theorem verdict_eq_halted_iff : m.verdict steps = .ok ⟨.halted, steps⟩ ↔ m.state = .halted := by
  unfold verdict
  cases m.state <;> simp

theorem verdict_eq_timedOut_iff :
    m.verdict steps = .ok ⟨.timedOut, steps⟩ ↔ m.state = .running := by
  unfold verdict
  cases m.state <;> simp

/-- How a run has completed does not hang on the number of its steps. -/
theorem verdict_of_ok {outcome : RunOutcome} (h : m.verdict steps = .ok outcome)
    (steps' : UInt64) : m.verdict steps' = .ok ⟨outcome.completion, steps'⟩ := by
  unfold verdict at h ⊢
  cases hm : m.state <;> rw [hm] at h <;> cases h <;> rfl

/-- A run that gives a count of steps gives that of its own, and has not faulted. -/
theorem steps_of_verdict {outcome : RunOutcome} (h : m.verdict steps = .ok outcome) :
    outcome.steps = steps ∧ ∀ fault, m.state ≠ .faulted fault := by
  refine ⟨congrArg RunOutcome.steps (Except.ok.inj (h.symm.trans (verdict_of_ok h steps))), ?_⟩
  intro fault hfault
  rw [verdict_eq_error_iff.2 hfault] at h
  cases h

end

end Machine

end Tomtel
