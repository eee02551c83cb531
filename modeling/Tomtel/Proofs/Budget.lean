import Mathlib.Order.Bounds.Defs
import Tomtel.Proofs.Runs

/-!
# Runs under an instruction budget

A run under a budget of `n` instructions is `k` single steps, where `k` is the least of `n`, the
number of the step that halts and the number of the step that faults. Its result is read off the
machine that it leaves.
-/

namespace Tomtel

namespace Machine

variable {m : Machine}

/-- The machine halts with its step number `k`; one that has halted before does with its step 0. -/
def HaltsAt (m : Machine) : Nat → Prop
  | 0 => m.state = .halted
  | k + 1 => (m.after k).step.outcome = .ok .halted

/-- The machine faults with its step number `k`; one that has faulted before does with its
step 0. -/
def FaultsAt (m : Machine) : Nat → Prop
  | 0 => ∃ fault, m.state = .faulted fault
  | k + 1 => ∃ fault, (m.after k).step.outcome = .error fault

theorem haltsAt_iff (k : Nat) : m.HaltsAt k ↔ (m.after k).state = .halted := by
  cases k with
  | zero => exact Iff.rfl
  | succ k => rw [HaltsAt, after_succ]; exact outcome_eq_halted_iff

theorem faultsAt_iff (k : Nat) : m.FaultsAt k ↔ ∃ fault, (m.after k).state = .faulted fault := by
  cases k with
  | zero => exact Iff.rfl
  | succ k => rw [FaultsAt, after_succ]; exact exists_congr fun fault => outcome_eq_error_iff

theorem haltsAt_or_faultsAt_iff (k : Nat) :
    m.HaltsAt k ∨ m.FaultsAt k ↔ (m.after k).state ≠ .running := by
  rw [haltsAt_iff, faultsAt_iff]
  cases (m.after k).state <;> simp

theorem isLeast_span (m : Machine) (budget : Nat) :
    IsLeast {j | j = budget ∨ m.HaltsAt j ∨ m.FaultsAt j} (m.span budget) := by
  constructor
  · by_cases h : (m.after (m.span budget)).state = .running
    · exact .inl (span_eq_of_running h)
    · exact .inr ((haltsAt_or_faultsAt_iff _).2 h)
  · rintro j (rfl | h)
    · exact span_le m j
    · exact span_le_of_not_running ((haltsAt_or_faultsAt_iff j).1 h)

theorem toNat_ofNat_of_le {n : UInt64} {j : Nat} (h : j ≤ n.toNat) : (UInt64.ofNat j).toNat = j :=
  UInt64.toNat_ofNat_of_lt' (Nat.lt_of_le_of_lt h n.toNat_lt)

theorem expired_instructionBudget_iff {n : UInt64} {j : Nat} (h : j ≤ n.toNat)
    (elapsed : Duration) :
    (Watchdog.instructionBudget n).expired elapsed (.ofNat j) = true ↔ j = n.toNat := by
  rw [Watchdog.expired, decide_eq_true_iff, UInt64.le_iff_toNat_le, toNat_ofNat_of_le h]
  omega

/-- A round of the loop looks at the run state first, then at the watchdog, and only then steps. -/
theorem advance_instructionBudget {σ : Type} (observe : σ → Entry → σ) (m : Machine)
    {n steps : UInt64} (h : steps ≤ n) (elapsed : Duration) (s : σ) :
    m.advance observe (n.toNat - steps.toNat) steps s =
      match m.state with
      | .faulted fault => ⟨m, .error fault, s⟩
      | .halted => ⟨m, .ok ⟨.halted, steps⟩, s⟩
      | .running =>
        if (Watchdog.instructionBudget n).expired elapsed steps then ⟨m, .ok ⟨.timedOut, steps⟩, s⟩
        else
          match m.step.outcome with
          | .error fault => ⟨m.step.machine, .error fault, m.step.entries.foldl observe s⟩
          | .ok _ =>
            m.step.machine.advance observe (n.toNat - (steps + 1).toNat) (steps + 1)
              (m.step.entries.foldl observe s) := by
  have hle : steps.toNat ≤ n.toNat := UInt64.le_iff_toNat_le.1 h
  have hexp := expired_instructionBudget_iff hle elapsed
  rw [UInt64.ofNat_toNat] at hexp
  cases hm : m.state with
  | faulted fault => rw [advance_of_faulted observe _ _ _ hm]
  | halted => rw [advance_of_halted observe _ _ _ hm]
  | running =>
    show _ = if _ then _ else _
    by_cases heq : steps.toNat = n.toNat
    · rw [if_pos (hexp.2 heq), heq, Nat.sub_self, advance_zero observe _ _ hm]
    · rw [if_neg fun he => heq (hexp.1 he)]
      have hlt : steps.toNat < n.toNat := Nat.lt_of_le_of_ne hle heq
      have hsucc : (steps + 1).toNat = steps.toNat + 1 := by
        have hn := n.toNat_lt
        rw [UInt64.toNat_add]
        exact Nat.mod_eq_of_lt (show steps.toNat + 1 < 2 ^ 64 by omega)
      have hcount : n.toNat - steps.toNat = n.toNat - (steps + 1).toNat + 1 := by omega
      cases ho : m.step.outcome with
      | error fault => rw [hcount, advance_succ_of_error observe _ _ _ hm ho]
      | ok outcome => rw [hcount, advance_succ_of_ok observe _ _ _ hm ho]

/-- A run under a budget refines single steps. It makes `k` of them, the least of the budget, the
step that halts and the step that faults, and hands a sink their events. The result is the fault,
the halt with `k` steps or the expiry with `k` steps, as the machine is left faulted, halted or
running, and only the whole budget expires. When `j` steps are made, the loop stands at the machine
after `j` steps with `j` in its counter, which has not wrapped around, and the watchdog has expired
only if `j` is the budget. -/
theorem run_instructionBudget (m : Machine) (n : UInt64) :
    ∃ k, IsLeast {j | j = n.toNat ∨ m.HaltsAt j ∨ m.FaultsAt j} k ∧
      ∀ {σ : Type} (sink : σ → Event → σ) (s : σ),
        let run := m.run (Entry.toSink sink) (.instructionBudget n) s
        run.machine = m.after k ∧
        run.observed = (m.events k).foldl sink s ∧
        (∀ fault, run.result = .error fault ↔ run.machine.state = .faulted fault) ∧
        (run.result = .ok ⟨.halted, .ofNat k⟩ ↔ run.machine.state = .halted) ∧
        (run.result = .ok ⟨.timedOut, .ofNat k⟩ ↔ run.machine.state = .running) ∧
        (run.machine.state = .running → k = n.toNat) ∧
        ∀ j ≤ k, (UInt64.ofNat j).toNat = j ∧
          m.advance (Entry.toSink sink) n.toNat 0 s =
            (m.after j).advance (Entry.toSink sink) (n.toNat - j) (.ofNat j)
              ((m.events j).foldl sink s) ∧
          ∀ elapsed, (Watchdog.instructionBudget n).expired elapsed (.ofNat j) = true ↔
            j = n.toNat := by
  refine ⟨m.span n.toNat, isLeast_span m n.toNat, fun {σ} sink s => ?_⟩
  intro run
  have hmachine : run.machine = m.after (m.span n.toNat) := machine_run _ m _ s
  have hresult : run.result = (m.after (m.span n.toNat)).verdict (.ofNat (m.span n.toNat)) :=
    result_run _ m _ s
  rw [hmachine, hresult]
  refine ⟨rfl, observed_run_toSink sink m _ s, fun fault => verdict_eq_error_iff,
    verdict_eq_halted_iff, verdict_eq_timedOut_iff, span_eq_of_running, fun j hj => ?_⟩
  have hle : j ≤ n.toNat := Nat.le_trans hj (span_le m n.toNat)
  refine ⟨toNat_ofNat_of_le hle, ?_, expired_instructionBudget_iff hle⟩
  rw [advance_eq_advance_after (Entry.toSink sink) hj, Entry.foldl_toSink, UInt64.zero_add]
  rfl

end Machine

end Tomtel
