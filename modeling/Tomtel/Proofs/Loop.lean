import Tomtel.Proofs.Budget

/-!
# The loop of a run, round by round

`Machine.loop` is the loop of a run with nothing to end it but what ends the run: a round looks at
the run state, then at the watchdog, which reads the clock, and only then steps. Under a budget the
loop ends with the outcome of `Machine.run` (`timedRun_instructionBudget`). Under a watchdog
that does not expire it goes on while the machine runs (`timedRun_eq_none`) and ends with the run
once the machine stops (`timedRun_eq_run`).
-/

namespace Tomtel

namespace Watchdog

/-- The greatest budget, which is also all that a run without one may use. -/
def greatestBudget : UInt64 := unbounded.allowance

theorem le_greatestBudget (n : UInt64) : n ≤ greatestBudget := by
  have h := n.toNat_lt
  rw [UInt64.le_iff_toNat_le]
  show n.toNat ≤ 18446744073709551615
  omega

variable {watchdog : Watchdog} {clock : UInt64 → Duration} {steps : UInt64} {j : Nat}

/-- The watchdog does not expire while `j` more instructions retire. -/
def Lasts (watchdog : Watchdog) (clock : UInt64 → Duration) (steps : UInt64) (j : Nat) : Prop :=
  ∀ i < j, watchdog.expired (clock (steps + .ofNat i)) (steps + .ofNat i) = false

theorem lasts_unbounded : unbounded.Lasts clock steps j := fun _ _ => rfl

theorem Lasts.mono {k : Nat} (h : watchdog.Lasts clock steps j) (hk : k ≤ j) :
    watchdog.Lasts clock steps k :=
  fun i hi => h i (Nat.lt_of_lt_of_le hi hk)

theorem Lasts.zero : watchdog.Lasts clock steps 0 := by
  simp [Lasts]

theorem Lasts.cons (he : watchdog.expired (clock steps) steps = false)
    (h : watchdog.Lasts clock (steps + 1) j) : watchdog.Lasts clock steps (j + 1) := by
  intro i hi
  cases i with
  | zero => rwa [Machine.add_ofNat_zero]
  | succ i =>
    rw [Machine.add_ofNat_succ]
    exact h i (Nat.lt_of_succ_lt_succ hi)

/-- No bound, or a budget of `count` instructions at least. -/
def Permits (count : Nat) : Watchdog → Prop
  | .unbounded => True
  | .instructionBudget n => count ≤ n.toNat
  | .wallClock _ => False

theorem Permits.lasts {count : Nat} (h : watchdog.Permits count) :
    watchdog.Lasts clock 0 count := by
  cases watchdog with
  | unbounded => exact lasts_unbounded
  | instructionBudget n =>
    intro i hi
    have hlt : i < n.toNat := Nat.lt_of_lt_of_le hi h
    have hexp := Machine.expired_instructionBudget_iff (Nat.le_of_lt hlt) (clock (.ofNat i))
    rw [UInt64.zero_add, Bool.eq_false_iff, Ne, hexp]
    exact Nat.ne_of_lt hlt
  | wallClock limit => exact h.elim

theorem Permits.le_allowance {count : Nat} (h : watchdog.Permits count)
    (hcount : count < UInt64.size) : count ≤ watchdog.allowance.toNat := by
  cases watchdog with
  | unbounded => exact Nat.le_pred_of_lt hcount
  | instructionBudget n => exact h
  | wallClock limit => exact h.elim

/-- A watchdog that lasts for `n` instructions allows as many. -/
theorem Lasts.le_allowance {n : UInt64} (h : watchdog.Lasts clock 0 n.toNat) :
    n ≤ watchdog.allowance := by
  cases watchdog with
  | instructionBudget budget =>
    refine UInt64.not_lt.1 fun hlt => ?_
    have hb := h budget.toNat (UInt64.lt_iff_toNat_lt.1 hlt)
    rw [UInt64.zero_add, UInt64.ofNat_toNat, expired] at hb
    simp at hb
  | _ => exact le_greatestBudget n

theorem Lasts.head (h : watchdog.Lasts clock steps (j + 1)) :
    watchdog.expired (clock steps) steps = false := by
  have h₀ := h 0 (Nat.zero_lt_succ j)
  rwa [Machine.add_ofNat_zero] at h₀

theorem Lasts.tail (h : watchdog.Lasts clock steps (j + 1)) :
    watchdog.Lasts clock (steps + 1) j := by
  intro i hi
  rw [← Machine.add_ofNat_succ]
  exact h (i + 1) (Nat.succ_lt_succ hi)

end Watchdog

namespace Machine

variable {m : Machine} {σ : Type} (observe : σ → Entry → σ) (watchdog : Watchdog)
  (clock : UInt64 → Duration)

/-- The loop of a run followed for `rounds` rounds, `none` if it has not ended by then. At `steps`
retired instructions the clock shows `clock steps`. -/
def loop : (rounds : Nat) → (steps : UInt64) → Machine → σ → Option (Run σ)
  | 0, _, _, _ => none
  | rounds + 1, steps, m, observed =>
    match m.state with
    | .faulted fault => some ⟨m, .error fault, observed⟩
    | .halted => some ⟨m, .ok ⟨.halted, steps⟩, observed⟩
    | .running =>
      if watchdog.expired (clock steps) steps then some ⟨m, .ok ⟨.timedOut, steps⟩, observed⟩
      else
        let attempt := m.step
        let observed := attempt.entries.foldl observe observed
        match attempt.outcome with
        | .error fault => some ⟨attempt.machine, .error fault, observed⟩
        | .ok _ => loop rounds (steps + 1) attempt.machine observed

/-- A run by the clock, `none` if it takes more than `rounds` rounds. -/
def timedRun (m : Machine) (rounds : Nat) (observed : σ) : Option (Run σ) :=
  let starting := Message.starting m.pc m.memory.length watchdog
  (m.loop observe watchdog clock rounds 0 (observe observed (.message starting))).map
    (Run.close observe)

/-! ### Budgets -/

theorem loop_instructionBudget {n steps : UInt64} {rounds : Nat} (h : steps ≤ n)
    (hr : n.toNat - steps.toNat < rounds) (m : Machine) (s : σ) :
    m.loop observe (.instructionBudget n) clock rounds steps s =
      some (m.advance observe (n.toNat - steps.toNat) steps s) := by
  induction rounds generalizing m steps s with
  | zero => omega
  | succ rounds ih =>
    rw [loop, advance_instructionBudget observe m h (clock steps)]
    cases hm : m.state with
    | faulted fault => rfl
    | halted => rfl
    | running =>
      by_cases he : (Watchdog.instructionBudget n).expired (clock steps) steps = true
      · simp only [he, if_true]
      · simp only [he, if_false, Bool.false_eq_true]
        cases ho : m.step.outcome with
        | error fault => rfl
        | ok outcome =>
          -- the budget is not used up, so that one more step does not overflow the counter
          have hlt : steps.toNat < n.toNat := by
            have hge := he
            rw [Watchdog.expired, decide_eq_true_iff, UInt64.le_iff_toNat_le] at hge
            omega
          have hsucc : (steps + 1).toNat = steps.toNat + 1 := by
            have hn := n.toNat_lt
            rw [UInt64.toNat_add]
            exact Nat.mod_eq_of_lt (show steps.toNat + 1 < 2 ^ 64 by omega)
          exact ih (UInt64.le_iff_toNat_le.2 (by omega)) (by omega) _ _

/-- Under a budget, the loop ends with the run. -/
theorem timedRun_instructionBudget {n : UInt64} {rounds : Nat} (hr : n.toNat < rounds)
    (m : Machine) (s : σ) :
    m.timedRun observe (.instructionBudget n) clock rounds s =
      some (m.run observe (.instructionBudget n) s) := by
  rw [timedRun, loop_instructionBudget observe clock (UInt64.zero_le) hr]
  rfl

/-! ### Any watchdog -/

theorem loop_of_not_running (hm : m.state ≠ .running) {rounds : Nat} (hr : 0 < rounds)
    (steps : UInt64) (s : σ) :
    m.loop observe watchdog clock rounds steps s = some ⟨m, m.verdict steps, s⟩ := by
  obtain ⟨rounds, rfl⟩ := Nat.exists_eq_succ_of_ne_zero (Nat.ne_of_gt hr)
  rw [loop, verdict]
  cases h : m.state with
  | running => exact absurd h hm
  | halted => rfl
  | faulted fault => rfl

/-- A loop that ends has made some number of steps, each from a running machine and before the
watchdog expired, and its result is read off the machine that they leave. -/
theorem exists_after_of_loop {rounds : Nat} {steps : UInt64} {s : σ} {run : Run σ}
    (h : m.loop observe watchdog clock rounds steps s = some run) :
    ∃ k ≤ rounds, (∀ j < k, (m.after j).state = .running) ∧ watchdog.Lasts clock steps k ∧
      ((m.after k).state = .running →
        watchdog.expired (clock (steps + .ofNat k)) (steps + .ofNat k) = true) ∧
      run = ⟨m.after k, (m.after k).verdict (steps + .ofNat k), (m.journal k).foldl observe s⟩ := by
  induction rounds generalizing m steps s with
  | zero => cases h
  | succ rounds ih =>
    by_cases hm : m.state = .running
    · rw [loop] at h
      simp only [hm] at h
      split_ifs at h with he
      · cases h
        have hv : m.verdict steps = .ok ⟨.timedOut, steps⟩ := verdict_eq_timedOut_iff.2 hm
        refine ⟨0, Nat.zero_le _, by simp, .zero, ?_⟩
        rw [← hv, add_ofNat_zero]
        exact ⟨fun _ => he, rfl⟩
      · have hhead : watchdog.expired (clock steps) steps = false := Bool.eq_false_iff.2 he
        cases ho : m.step.outcome with
        | error fault =>
          simp only [ho] at h
          cases h
          have hf : (m.after 1).state = .faulted fault := outcome_eq_error_iff.1 ho
          refine ⟨1, Nat.succ_pos rounds, fun j hj => ?_, .cons hhead .zero, by simp [hf],
            ?_⟩
          · rw [Nat.lt_one_iff.1 hj]
            exact hm
          · rw [verdict_eq_error_iff.2 hf, journal, journal, List.append_nil]
            rfl
        | ok outcome =>
          simp only [ho] at h
          obtain ⟨k, hk, hrun, hlasts, hend, rfl⟩ := ih h
          refine ⟨k + 1, Nat.succ_le_succ hk, fun j hj => ?_, hlasts.cons hhead, ?_⟩
          · cases j with
            | zero => exact hm
            | succ j => exact hrun j (Nat.lt_of_succ_lt_succ hj)
          · rw [add_ofNat_succ, journal, List.foldl_append]
            exact ⟨hend, rfl⟩
    · rw [loop_of_not_running observe watchdog clock hm (Nat.succ_pos rounds)] at h
      cases h
      refine ⟨0, Nat.zero_le _, by simp, .zero, fun hrun => absurd hrun hm, ?_⟩
      rw [add_ofNat_zero]
      rfl

/-! ### No expiry -/

/-- A round steps. A step that faults ends the loop at once, and the next round would end it
likewise. -/
theorem loop_succ_succ {steps : UInt64} (hm : m.state = .running)
    (he : watchdog.expired (clock steps) steps = false) (rounds : Nat) (s : σ) :
    m.loop observe watchdog clock (rounds + 2) steps s =
      m.step.machine.loop observe watchdog clock (rounds + 1) (steps + 1)
        (m.step.entries.foldl observe s) := by
  rw [loop]
  simp only [hm, he, if_false, Bool.false_eq_true]
  cases ho : m.step.outcome with
  | ok outcome => rfl
  | error fault =>
    have hf : m.step.machine.state = .faulted fault := outcome_eq_error_iff.1 ho
    rw [loop_of_not_running observe watchdog clock (by simp [hf]) (Nat.succ_pos rounds),
      verdict_eq_error_iff.2 hf]

variable {watchdog} {clock}

theorem loop_eq_none {rounds : Nat} {steps : UInt64} (h : (m.after rounds).state = .running)
    (hw : watchdog.Lasts clock steps rounds) (s : σ) :
    m.loop observe watchdog clock rounds steps s = none := by
  induction rounds generalizing m steps s with
  | zero => rfl
  | succ rounds ih =>
    have hm : m.state = .running := running_of_running_after (Nat.zero_le _) h
    rw [loop]
    simp only [hm, hw.head, if_false, Bool.false_eq_true]
    cases ho : m.step.outcome with
    | ok outcome => exact ih h hw.tail _
    | error fault =>
      -- the machine would be left faulted, but it still runs after this step
      have hrun : m.step.machine.state = .running :=
        running_of_running_after (j := 1) (Nat.succ_pos rounds) h
      rw [outcome_eq_error_iff.1 ho] at hrun
      cases hrun

/-- A machine that stops within `count` steps ends its loop, as a budget of that many would. -/
theorem loop_eq_advance {count rounds : Nat} {steps : UInt64}
    (h : (m.after (m.span count)).state ≠ .running)
    (hw : watchdog.Lasts clock steps (m.span count)) (hr : m.span count < rounds) (s : σ) :
    m.loop observe watchdog clock rounds steps s = some (m.advance observe count steps s) := by
  induction count generalizing m steps rounds s with
  | zero =>
    have hm : m.state ≠ .running := h
    rw [loop_of_not_running observe watchdog clock hm hr, advance_of_not_running observe hm]
  | succ count ih =>
    by_cases hm : m.state = .running
    · rw [span_succ hm] at h hw hr
      obtain ⟨extra, rfl⟩ := Nat.exists_eq_add_of_lt hr
      rw [show m.step.machine.span count + 1 + extra + 1 =
          m.step.machine.span count + extra + 2 by omega,
        loop_succ_succ observe watchdog clock hm hw.head, advance_succ observe hm]
      exact ih h hw.tail (by omega) _
    · have hr₀ : 0 < rounds := Nat.lt_of_le_of_lt (Nat.zero_le _) hr
      rw [loop_of_not_running observe watchdog clock hm hr₀, advance_of_not_running observe hm]

theorem timedRun_eq_none {rounds : Nat} (h : (m.after rounds).state = .running)
    (hw : watchdog.Lasts clock 0 rounds) (s : σ) :
    m.timedRun observe watchdog clock rounds s = none := by
  rw [timedRun, loop_eq_none observe h hw, Option.map_none]

/-- A machine that stops before the watchdog expires ends its loop with the run. -/
theorem timedRun_eq_run {rounds : Nat}
    (h : (m.after (m.span watchdog.allowance.toNat)).state ≠ .running)
    (hw : watchdog.Lasts clock 0 (m.span watchdog.allowance.toNat))
    (hr : m.span watchdog.allowance.toNat < rounds) (s : σ) :
    m.timedRun observe watchdog clock rounds s = some (m.run observe watchdog s) := by
  rw [timedRun, loop_eq_advance observe h hw hr]
  rfl

/-- A loop that ends, but not by the clock, ends with the run. -/
theorem eq_run_of_timedRun {rounds : Nat} {s : σ} {run : Run σ}
    (h : m.timedRun observe watchdog clock rounds s = some run) (hr : rounds < UInt64.size)
    (hclock : ∀ limit steps, watchdog = .wallClock limit → run.result ≠ .ok ⟨.timedOut, steps⟩) :
    run = m.run observe watchdog s := by
  obtain ⟨ended, hloop, rfl⟩ := Option.map_eq_some_iff.1 h
  obtain ⟨k, hk, hrun, hlasts, hend, rfl⟩ := exists_after_of_loop observe watchdog clock hloop
  have hcount : (UInt64.ofNat k).toNat = k :=
    UInt64.toNat_ofNat_of_lt' (Nat.lt_of_le_of_lt hk hr)
  have hallowance : k ≤ watchdog.allowance.toNat := by
    rw [← hcount] at hlasts ⊢
    exact UInt64.le_iff_toNat_le.1 hlasts.le_allowance
  have hspan : m.span watchdog.allowance.toNat = k := by
    refine span_eq hrun hallowance fun hstate => ?_
    have he := hend hstate
    rw [UInt64.zero_add] at he
    cases watchdog with
    | unbounded => cases he
    | instructionBudget n => exact (expired_instructionBudget_iff hallowance _).1 he
    | wallClock limit =>
      refine absurd ?_ (hclock limit (.ofNat k) rfl)
      rw [result_close, UInt64.zero_add]
      exact verdict_eq_timedOut_iff.2 hstate
  rw [run_eq, hspan, UInt64.zero_add]

/-- A run that is permitted as many steps as it takes for the machine to stop. -/
theorem run_of_permits {count k : Nat} (hw : watchdog.Permits count) (hcount : count < UInt64.size)
    (hk : k < count) (hrun : (m.after k).state = .running)
    (hstop : (m.after (k + 1)).state ≠ .running) (s : σ) :
    let run := m.run observe watchdog s
    run.machine = m.after (k + 1) ∧ run.result = (m.after (k + 1)).verdict (.ofNat (k + 1)) ∧
      ∀ clock rounds, count < rounds → m.timedRun observe watchdog clock rounds s = some run := by
  have hspan : m.span watchdog.allowance.toNat = k + 1 :=
    span_eq_succ hrun hstop (Nat.lt_of_lt_of_le hk (hw.le_allowance hcount))
  refine ⟨by rw [machine_run, hspan], by rw [result_run, hspan], fun clock rounds hr => ?_⟩
  apply timedRun_eq_run observe
  · rwa [hspan]
  · rw [hspan]
    exact hw.lasts.mono hk
  · rw [hspan]
    exact Nat.lt_of_le_of_lt hk hr

end Machine

end Tomtel
