import Tomtel.Proofs.Loop
import Tomtel.Proofs.Observation

/-!
# What becomes of a machine

All runs of a machine follow one course, and the budget only says how far. So there are three ways
for the runs to go (`Fate`): the machine halts with one of its instructions, which is counted, or
one of them faults, which is not, or there is no budget that sees it stop. `budget_trichotomy` says
that a machine has one fate, and that a run without a budget meets the same.

All is read off the machine that the greatest budget leaves, after `Machine.reach` steps.
-/

namespace Tomtel

open Watchdog (greatestBudget le_greatestBudget)

inductive Fate where
  /-- The machine halts with its instruction number `steps`. -/
  | halts (steps : UInt64)
  /-- The machine faults after `steps` instructions. -/
  | faults (steps : UInt64) (fault : Fault)
  | endless

namespace Fate

variable {result : UInt64 → Except Fault RunOutcome} {a b : Fate}

/-- `result n` is what a run of a machine with this fate gives under a budget of `n`. -/
def Governs (result : UInt64 → Except Fault RunOutcome) : Fate → Prop
  | .halts steps =>
    1 ≤ steps ∧ (∀ n < steps, result n = .ok ⟨.timedOut, n⟩) ∧
      ∀ n, steps ≤ n → result n = .ok ⟨.halted, steps⟩
  | .faults steps fault =>
    steps < greatestBudget ∧ (∀ n ≤ steps, result n = .ok ⟨.timedOut, n⟩) ∧
      ∀ n, steps + 1 ≤ n → result n = .error fault
  | .endless => ∀ n, result n = .ok ⟨.timedOut, n⟩

/-- A budget of `n` sees the machine stop. -/
def Suffices (n : UInt64) : Fate → Prop
  | .halts steps => steps ≤ n
  | .faults steps _ => steps + 1 ≤ n
  | .endless => False

/-- What the greatest budget gives. -/
def utmost : Fate → Except Fault RunOutcome
  | .halts steps => .ok ⟨.halted, steps⟩
  | .faults _ fault => .error fault
  | .endless => .ok ⟨.timedOut, greatestBudget⟩

theorem Governs.utmost_eq (h : a.Governs result) : result greatestBudget = a.utmost := by
  cases a with
  | halts steps => exact h.2.2 _ (le_greatestBudget _)
  | faults steps fault => exact h.2.2 _ (le_greatestBudget _)
  | endless => exact h _

theorem Governs.le_of_faults {s t : UInt64} {f f' : Fault} (ha : (faults s f).Governs result)
    (hb : (faults t f').Governs result) : s ≤ t := by
  refine Decidable.byContradiction fun hst => ?_
  -- a budget of `t + 1` would both expire and give the fault
  have hts : t + 1 ≤ s := by grind
  have h := (ha.2.1 _ hts).symm.trans (hb.2.2 _ (UInt64.le_refl _))
  cases h

/-- A machine has one fate: what the greatest budget gives tells the three ways from each other. -/
theorem Governs.unique (ha : a.Governs result) (hb : b.Governs result) : a = b := by
  have h := ha.utmost_eq.symm.trans hb.utmost_eq
  cases a with
  | halts s => cases b <;> simp_all [utmost]
  | endless => cases b <;> simp_all [utmost]
  | faults s f =>
    cases b with
    | faults t f' =>
      have hst : s = t := UInt64.le_antisymm (ha.le_of_faults hb) (hb.le_of_faults ha)
      simp_all [utmost]
    | _ => simp_all [utmost]

end Fate

namespace Machine

variable {m : Machine} {σ : Type} (observe : σ → Entry → σ) {n : UInt64}

/-- How many steps the machine makes under the greatest budget. -/
def reach (m : Machine) : Nat := m.span greatestBudget.toNat

/-- The fate of a machine that is running, read off the machine that the greatest budget leaves. -/
def fate (m : Machine) : Fate :=
  match (m.after m.reach).state with
  | .running => .endless
  | .halted => .halts (.ofNat m.reach)
  | .faulted fault => .faults (.ofNat (m.reach - 1)) fault

theorem span_eq_min_reach (m : Machine) (n : UInt64) : m.span n.toNat = min n.toNat m.reach :=
  span_eq_min (UInt64.le_iff_toNat_le.1 (le_greatestBudget n))

theorem reach_le (m : Machine) : m.reach ≤ greatestBudget.toNat := m.span_le _

theorem reach_pos (hm : m.state = .running) (h : (m.after m.reach).state ≠ .running) :
    0 < m.reach := by
  refine Nat.pos_of_ne_zero fun h₀ => h ?_
  rw [h₀]
  exact hm

theorem result_run_of_running (h : (m.after n.toNat).state = .running) (s : σ) :
    (m.run observe (.instructionBudget n) s).result = .ok ⟨.timedOut, n⟩ := by
  have hspan : m.span n.toNat = n.toNat :=
    span_eq_of_running (running_of_running_after (m.span_le _) h)
  rw [result_run]
  simp only [Watchdog.allowance, hspan, UInt64.ofNat_toNat]
  exact verdict_eq_timedOut_iff.2 h

theorem result_run_of_ge (h : m.reach ≤ n.toNat) (s : σ) :
    (m.run observe (.instructionBudget n) s).result =
      (m.after m.reach).verdict (.ofNat m.reach) := by
  have hspan : m.span n.toNat = m.reach := by rw [span_eq_min_reach]; omega
  rw [result_run]
  simp only [Watchdog.allowance, hspan]

theorem toNat_ofNat_reach (m : Machine) : (UInt64.ofNat m.reach).toNat = m.reach :=
  toNat_ofNat_of_le m.reach_le

theorem toNat_ofNat_pred_reach (hm : m.state = .running)
    (h : (m.after m.reach).state ≠ .running) :
    (UInt64.ofNat (m.reach - 1)).toNat + 1 = m.reach ∧
      (UInt64.ofNat (m.reach - 1) + 1).toNat = m.reach := by
  have hpos := reach_pos hm h
  have hsub : m.reach - 1 + 1 = m.reach := by omega
  constructor
  · rw [toNat_ofNat_of_le (Nat.le_trans (Nat.sub_le _ _) m.reach_le), hsub]
  · rw [← ofNat_succ, hsub, toNat_ofNat_reach]

theorem fate_governs (hm : m.state = .running) (s : σ) :
    m.fate.Governs fun n => (m.run observe (.instructionBudget n) s).result := by
  unfold fate
  cases h : (m.after m.reach).state with
  | running =>
    intro n
    refine result_run_of_running observe (running_of_running_after ?_ h) s
    rw [reach, span_eq_of_running h]
    exact UInt64.le_iff_toNat_le.1 (le_greatestBudget n)
  | halted =>
    have hpos := reach_pos hm (by simp [h])
    refine ⟨?_, fun n hn => ?_, fun n hn => ?_⟩
    · rw [UInt64.le_iff_toNat_le, toNat_ofNat_reach]
      exact hpos
    · rw [UInt64.lt_iff_toNat_lt, toNat_ofNat_reach] at hn
      exact result_run_of_running observe (running_of_lt_span hn) s
    · rw [UInt64.le_iff_toNat_le, toNat_ofNat_reach] at hn
      exact (result_run_of_ge observe hn s).trans (verdict_eq_halted_iff.2 h)
  | faulted fault =>
    obtain ⟨hpred, hsucc⟩ := toNat_ofNat_pred_reach hm (by simp [h])
    refine ⟨?_, fun n hn => ?_, fun n hn => ?_⟩
    · have hle := m.reach_le
      rw [UInt64.lt_iff_toNat_lt]
      omega
    · rw [UInt64.le_iff_toNat_le] at hn
      exact result_run_of_running observe (running_of_lt_span (show n.toNat < m.reach by omega)) s
    · rw [UInt64.le_iff_toNat_le, hsucc] at hn
      exact (result_run_of_ge observe hn s).trans (verdict_eq_error_iff.2 h)

theorem fate_suffices_iff (hm : m.state = .running) :
    m.fate.Suffices n ↔ (m.after m.reach).state ≠ .running ∧ m.reach ≤ n.toNat := by
  unfold fate
  cases h : (m.after m.reach).state with
  | running => simp [Fate.Suffices]
  | halted =>
    rw [Fate.Suffices, UInt64.le_iff_toNat_le, toNat_ofNat_reach]
    simp
  | faulted fault =>
    obtain ⟨-, hsucc⟩ := toNat_ofNat_pred_reach hm (by simp [h])
    rw [Fate.Suffices, UInt64.le_iff_toNat_le, hsucc]
    simp

theorem span_of_suffices (hm : m.state = .running) (hn : m.fate.Suffices n) :
    m.span n.toNat = m.reach := by
  obtain ⟨-, hle⟩ := (fate_suffices_iff hm).1 hn
  rw [span_eq_min_reach]
  omega

/-- Without a budget the run ends as under one that suffices. -/
theorem timedRun_of_suffices (hm : m.state = .running) (hn : m.fate.Suffices n)
    {watchdog : Watchdog} {clock : UInt64 → Duration} (hw : watchdog.Lasts clock 0 n.toNat)
    {rounds : Nat} (hr : n.toNat < rounds) (sink : σ → Event → σ) (s : σ) :
    m.timedRun (Entry.toSink sink) watchdog clock rounds s =
      some (m.run (Entry.toSink sink) (.instructionBudget n) s) := by
  obtain ⟨hstop, hreach⟩ := (fate_suffices_iff hm).1 hn
  have hallowance := UInt64.le_iff_toNat_le.1 hw.le_allowance
  have hspan : m.span watchdog.allowance.toNat = m.reach := by
    rw [span_eq_min_reach]
    omega
  have hrun : m.run (Entry.toSink sink) watchdog s = m.run (Entry.toSink sink) _ s :=
    run_toSink_congr sink watchdog (.instructionBudget n)
      (hspan.trans (span_of_suffices hm hn).symm) s
  rw [← hrun]
  exact timedRun_eq_run _ (by rw [hspan]; exact hstop) (hw.mono (by omega)) (by omega) s

theorem running_of_fate_endless (h : m.fate = .endless) {j : Nat}
    (hj : j ≤ greatestBudget.toNat) : (m.after j).state = .running := by
  have hlast : (m.after m.reach).state = .running := by
    unfold fate at h
    split at h
    · assumption
    · cases h
    · cases h
  refine running_of_running_after ?_ hlast
  rw [reach, span_eq_of_running hlast]
  exact hj

/-- A running machine has exactly one fate. Either it halts with instruction number `steps`, at
least 1: budgets below expire and all others give the halt. Or it faults after `steps` instructions:
budgets up to `steps` expire and greater ones give the fault. Or every budget expires. All budgets
that suffice leave the same machine, and so does a run by the clock under any watchdog that does not
expire meanwhile, such as none at all, with the same result; if no budget suffices, such a run has
not left its loop after as many rounds as the greatest budget has steps. What a greater budget puts
out begins with what a smaller one does. -/
theorem budget_trichotomy (hm : m.state = .running) :
    ∃ fate : Fate, ∀ {σ : Type} (sink : σ → Event → σ) (s : σ),
      let run := fun n => m.run (Entry.toSink sink) (.instructionBudget n) s
      (∀ other : Fate, other.Governs (fun n => (run n).result) ↔ other = fate) ∧
      (∀ n, fate.Suffices n →
        (∀ n', fate.Suffices n' → (run n').machine = (run n).machine) ∧
        ∀ watchdog clock, watchdog.Lasts clock 0 n.toNat → ∀ rounds > n.toNat,
          m.timedRun (Entry.toSink sink) watchdog clock rounds s = some (run n)) ∧
      (fate = .endless → ∀ watchdog clock, watchdog.Lasts clock 0 greatestBudget.toNat →
        ∀ rounds ≤ greatestBudget.toNat,
          m.timedRun (Entry.toSink sink) watchdog clock rounds s = none) ∧
      ∀ n n', n ≤ n' →
        (run n).machine.output.bytes.toList <+: (run n').machine.output.bytes.toList := by
  refine ⟨m.fate, fun {σ} sink s => ?_⟩
  intro run
  have hgoverns : m.fate.Governs fun n => (run n).result := fate_governs _ hm s
  have hmachine : ∀ n, (run n).machine = m.after (m.span n.toNat) := fun n => machine_run _ m _ s
  refine ⟨fun other => ⟨fun h => h.unique hgoverns, fun h => h ▸ hgoverns⟩, fun n hn => ⟨?_, ?_⟩,
    ?_, fun n n' hle => ?_⟩
  · intro n' hn'
    rw [hmachine, hmachine, span_of_suffices hm hn, span_of_suffices hm hn']
  · exact fun watchdog clock hw rounds hr => timedRun_of_suffices hm hn hw hr sink s
  · intro hend watchdog clock hw rounds hr
    exact timedRun_eq_none _ (running_of_fate_endless hend hr) (hw.mono hr) s
  · rw [hmachine, hmachine]
    exact output_prefix (span_mono (UInt64.le_iff_toNat_le.1 hle))

/-- An `OUT` in front of a byte that is no instruction. -/
def outThenNothing : Machine where
  regs := { a := 7 }
  memory := ⟨#[0x02, 0x00]⟩

theorem budget_trichotomy_outThenNothing :
    let run := fun n => outThenNothing.run (Entry.toSink fun es e => es ++ [e])
      (.instructionBudget n) []
    outThenNothing.state = .running ∧
    (Fate.faults 1 (.unsupportedOpcode 1 0)).Governs (fun n => (run n).result) ∧
    (run 2).machine.output = ⟨#[7]⟩ ∧
    ∀ clock, ∀ rounds > 2,
      outThenNothing.timedRun (Entry.toSink fun es e => es ++ [e]) .unbounded clock rounds [] =
        some (run 2) := by
  intro run
  obtain ⟨fate, h⟩ := budget_trichotomy (m := outThenNothing) rfl
  obtain ⟨hfate, hsuffices, -⟩ := h (fun es e => es ++ [e]) []
  have hg : fate.Governs fun n => (run n).result := (hfate fate).2 rfl
  have h₁ : (run 1).result = .ok ⟨.timedOut, 1⟩ := rfl
  have h₂ : (run 2).result = .error (.unsupportedOpcode 1 0) := rfl
  obtain rfl : fate = .faults 1 (.unsupportedOpcode 1 0) := by
    cases fate with
    | endless => exact absurd (h₂.symm.trans (hg 2)) (by simp)
    | halts s =>
      rcases UInt64.lt_or_le 2 s with hs | hs
      · exact absurd (h₂.symm.trans (hg.2.1 2 hs)) (by simp)
      · exact absurd (h₂.symm.trans (hg.2.2 2 hs)) (by simp)
    | faults s f =>
      have hle : s ≤ 1 := Decidable.byContradiction fun hs =>
        absurd (h₂.symm.trans (hg.2.1 2 (by grind))) (by simp)
      have hs : s = 1 := Decidable.byContradiction fun hs =>
        absurd (h₁.symm.trans (hg.2.2 1 (by grind))) (by simp)
      have hf := (hg.2.2 2 (by grind)).symm.trans h₂
      simp_all
  exact ⟨rfl, hg, rfl, fun clock rounds hr =>
    (hsuffices 2 (UInt64.le_refl 2)).2 .unbounded clock Watchdog.lasts_unbounded rounds hr⟩

end Machine

end Tomtel
