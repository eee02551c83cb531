import Mathlib.Algebra.Ring.Nat
import Tomtel.Proofs.Budget
import Tomtel.Proofs.Replay

/-!
# Runs in slices

A run can be cut into runs under smaller budgets, each from the machine that the one before leaves:
`slices_join`. The cut may be anywhere, for a budget can be spent in parts (`span_add`), and a
machine that has stopped stays as it is under what is left of the budgets
(`slices_of_not_running`).
-/

namespace Tomtel

namespace Machine

variable {σ : Type}

/-- The runs under the budgets in turn, with one observer for all of them. -/
def slices (observe : σ → Entry → σ) (m : Machine) : (budgets : List UInt64) → σ → List (Run σ)
  | [], _ => []
  | n :: ns, observed =>
    let slice := m.run observe (.instructionBudget n) observed
    slice :: slice.machine.slices observe ns slice.observed

/-- The sum of the budgets, as a number. -/
def total (budgets : List UInt64) : Nat := (budgets.map UInt64.toNat).sum

variable {m : Machine} {budgets : List UInt64}

theorem total_cons (n : UInt64) (ns : List UInt64) : total (n :: ns) = n.toNat + total ns := by
  simp [total]

section

variable (observe : σ → Entry → σ)

/-- What comes after a slice are slices again. -/
theorem exists_slices_of_append {before after : List (Run σ)} {slice : Run σ} {s : σ}
    (h : m.slices observe budgets s = before ++ slice :: after) :
    (∃ steps, slice.result = slice.machine.verdict steps) ∧
      ∃ rest, after = slice.machine.slices observe rest slice.observed := by
  induction before generalizing m budgets s with
  | nil =>
    cases budgets with
    | nil => simp [slices] at h
    | cons n ns =>
      obtain ⟨rfl, rfl⟩ := List.cons.inj h
      exact ⟨⟨.ofNat (m.span n.toNat), by rw [machine_run, result_run]; rfl⟩, ns, rfl⟩
  | cons first before ih =>
    cases budgets with
    | nil => simp [slices] at h
    | cons n ns =>
      obtain ⟨-, htail⟩ := List.cons.inj h
      exact ih htail

end

section

variable (sink : σ → Event → σ)

theorem slices_of_not_running (hm : m.state ≠ .running) (budgets : List UInt64) (s : σ) :
    ∀ slice ∈ m.slices (Entry.toSink sink) budgets s, slice = ⟨m, m.verdict 0, s⟩ := by
  have hrun : ∀ n, m.run (Entry.toSink sink) (.instructionBudget n) s = ⟨m, m.verdict 0, s⟩ := by
    intro n
    rw [run_toSink, span_of_not_running hm]
    rfl
  induction budgets with
  | nil => simp [slices]
  | cons n ns ih =>
    intro slice hslice
    rw [slices, hrun] at hslice
    rcases List.mem_cons.1 hslice with rfl | hslice
    · rfl
    · exact ih slice hslice

/-- The last slice leaves what one run under the sum of the budgets leaves. -/
theorem getLast?_slices (m : Machine) (n : UInt64) (ns : List UInt64) (s : σ) :
    ∃ steps, (m.slices (Entry.toSink sink) (n :: ns) s).getLast? =
      some ⟨m.after (m.span (total (n :: ns))), (m.after (m.span (total (n :: ns)))).verdict steps,
        (m.events (m.span (total (n :: ns)))).foldl sink s⟩ := by
  induction ns generalizing m n s with
  | nil =>
    refine ⟨.ofNat (m.span n.toNat), ?_⟩
    simp [slices, total, run_toSink, Watchdog.allowance]
  | cons n' ns ih =>
    rw [slices, run_toSink]
    obtain ⟨steps, hlast⟩ := ih (m.after (m.span n.toNat)) n'
      ((m.events (m.span n.toNat)).foldl sink s)
    refine ⟨steps, ?_⟩
    rw [total_cons, span_add, after_add, events_add, List.foldl_append, ← hlast]
    rfl

/-- After a slice that has halted or faulted there is nothing left to do. -/
theorem slice_of_ended {before after : List (Run σ)} {ended : Run σ} {s : σ}
    (h : m.slices (Entry.toSink sink) budgets s = before ++ ended :: after) :
    ∀ slice ∈ after,
      (∀ steps, ended.result = .ok ⟨.halted, steps⟩ →
        slice = ⟨ended.machine, .ok ⟨.halted, 0⟩, ended.observed⟩) ∧
      ∀ fault, ended.result = .error fault →
        slice = ⟨ended.machine, .error fault, ended.observed⟩ := by
  intro slice hslice
  obtain ⟨⟨steps, hended⟩, rest, rfl⟩ := exists_slices_of_append _ h
  refine ⟨fun steps' hh => ?_, fun fault hf => ?_⟩
  · have hm : ended.machine.state = .halted :=
      verdict_eq_halted_iff.1 (verdict_of_ok (hended.symm.trans hh) steps)
    rw [slices_of_not_running sink (by simp [hm]) rest _ slice hslice,
      verdict_eq_halted_iff.2 hm]
  · have hm : ended.machine.state = .faulted fault :=
      verdict_eq_error_iff.1 (hended.symm.trans hf)
    rw [slices_of_not_running sink (by simp [hm]) rest _ slice hslice,
      verdict_eq_error_iff.2 hm]

theorem run_total (m : Machine) (h : total budgets < 2 ^ 64) (s : σ) :
    m.run (Entry.toSink sink) (.instructionBudget (.ofNat (total budgets))) s =
      ⟨m.after (m.span (total budgets)),
        (m.after (m.span (total budgets))).verdict (.ofNat (m.span (total budgets))),
        (m.events (m.span (total budgets))).foldl sink s⟩ := by
  have htotal : (UInt64.ofNat (total budgets)).toNat = total budgets :=
    UInt64.toNat_ofNat_of_lt' h
  rw [run_toSink]
  simp only [Watchdog.allowance, htotal]

theorem verdict_of_not_faulted (hm : ∀ fault, m.state ≠ .faulted fault) (steps : UInt64) :
    ∃ completion, m.verdict steps = .ok ⟨completion, steps⟩ := by
  unfold verdict
  cases h : m.state with
  | running => exact ⟨_, rfl⟩
  | halted => exact ⟨_, rfl⟩
  | faulted fault => exact absurd h (hm fault)

/-- Unless the last slice faults, none does, and their steps add up. -/
theorem results_slices (h : ∀ fault, (m.after (m.span (total budgets))).state ≠ .faulted fault)
    (s : σ) :
    ∃ outcomes : List RunOutcome,
      (m.slices (Entry.toSink sink) budgets s).map Run.result = outcomes.map .ok ∧
        (outcomes.map fun outcome => outcome.steps.toNat).sum = m.span (total budgets) := by
  induction budgets generalizing m s with
  | nil => exact ⟨[], rfl, rfl⟩
  | cons n ns ih =>
    rw [total_cons, span_add] at h ⊢
    rw [after_add] at h
    obtain ⟨outcomes, hresults, hsum⟩ := ih h ((m.events (m.span n.toNat)).foldl sink s)
    -- a machine that had faulted in this slice would still be so at the end
    have hslice : ∀ fault, (m.after (m.span n.toNat)).state ≠ .faulted fault := by
      intro fault hf
      refine h fault ?_
      rw [after_of_not_running (by simp [hf])]
      exact hf
    obtain ⟨completion, hc⟩ := verdict_of_not_faulted hslice (.ofNat (m.span n.toNat))
    refine ⟨⟨completion, .ofNat (m.span n.toNat)⟩ :: outcomes, ?_, ?_⟩
    · rw [slices, run_toSink, List.map_cons, List.map_cons, ← hresults, ← hc]
      rfl
    · rw [List.map_cons, List.sum_cons, hsum, toNat_ofNat_of_le (m.span_le n.toNat)]

end

/-- Cut a run into slices, under budgets of at least one in number that add up to its budget. The
last slice leaves the same machine, the sink has seen the same events by then, and the result is the
same fault or, if it is none, the same completion, with a count of steps that is the sum of those of
the slices. After a slice that has halted or faulted nothing happens: the others report the halt
with no steps, or the fault. -/
theorem slices_join (hne : budgets ≠ []) (hsum : total budgets < 2 ^ 64)
    (sink : σ → Event → σ) (s : σ) :
    let slices := m.slices (Entry.toSink sink) budgets s
    let whole := m.run (Entry.toSink sink) (.instructionBudget (.ofNat (total budgets))) s
    (∃ last, slices.getLast? = some last ∧
      last.machine = whole.machine ∧ last.observed = whole.observed ∧
      (∀ fault, last.result = .error fault ↔ whole.result = .error fault) ∧
      ∀ outcome, last.result = .ok outcome →
        ∃ (outcomes : List RunOutcome) (steps : UInt64),
          slices.map Run.result = outcomes.map .ok ∧
            whole.result = .ok ⟨outcome.completion, steps⟩ ∧
            (outcomes.map fun outcome => outcome.steps.toNat).sum = steps.toNat) ∧
    ∀ before ended after, slices = before ++ ended :: after → ∀ slice ∈ after,
      (∀ steps, ended.result = .ok ⟨.halted, steps⟩ →
        slice = ⟨ended.machine, .ok ⟨.halted, 0⟩, ended.observed⟩) ∧
      ∀ fault, ended.result = .error fault →
        slice = ⟨ended.machine, .error fault, ended.observed⟩ := by
  intro slices whole
  have hwhole : whole = _ := run_total sink m hsum s
  refine ⟨?_, fun before ended after h => slice_of_ended sink h⟩
  obtain ⟨n, ns, rfl⟩ := List.exists_cons_of_ne_nil hne
  obtain ⟨steps, hlast⟩ := getLast?_slices sink m n ns s
  rw [hwhole]
  refine ⟨_, hlast, rfl, rfl, fun fault => ?_, fun outcome ho => ?_⟩
  · rw [verdict_eq_error_iff, verdict_eq_error_iff]
  · have hok : ∀ fault, (m.after (m.span (total (n :: ns)))).state ≠ .faulted fault := by
      intro fault hf
      have he := ho.symm.trans (verdict_eq_error_iff.2 hf)
      cases he
    obtain ⟨outcomes, hresults, hsteps⟩ := results_slices sink hok s
    refine ⟨outcomes, .ofNat (m.span (total (n :: ns))), hresults, verdict_of_ok ho _, ?_⟩
    rw [hsteps]
    exact (UInt64.toNat_ofNat_of_lt' (Nat.lt_of_le_of_lt (m.span_le _) hsum)).symm

/-- Cuts between a store and the instruction that it writes, and behind the halt. -/
theorem slices_join_selfModifying :
    let slices := selfModifying.slices (Entry.toSink fun es e => es ++ [e]) [1, 0, 2, 5] []
    let whole := selfModifying.run (Entry.toSink fun es e => es ++ [e])
      (.instructionBudget (.ofNat (total [1, 0, 2, 5]))) []
    total [1, 0, 2, 5] < 2 ^ 64 ∧
    slices.map Run.result =
      [.ok ⟨.timedOut, 1⟩, .ok ⟨.timedOut, 0⟩, .ok ⟨.halted, 2⟩, .ok ⟨.halted, 0⟩] ∧
    whole.result = .ok ⟨.halted, 3⟩ ∧
    ∃ last, slices.getLast? = some last ∧ last.machine = whole.machine ∧
      last.observed = whole.observed := by
  intro slices whole
  have hne : [1, 0, 2, 5] ≠ ([] : List UInt64) := by simp
  have hsum : total [1, 0, 2, 5] < 2 ^ 64 := by decide
  obtain ⟨⟨last, hlast, hmachine, hobserved, -⟩, -⟩ :=
    slices_join (m := selfModifying) hne hsum (fun es e => es ++ [e]) []
  exact ⟨hsum, rfl, rfl, last, hlast, hmachine, hobserved⟩

end Machine

end Tomtel
