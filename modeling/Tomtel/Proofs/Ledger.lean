import Mathlib.Data.Finset.Card
import Tomtel.Proofs.Observation
import Tomtel.Proofs.Sessions

/-!
# What a machine spends

An instruction that retires changes one memory cell or puts out one byte, or neither, and nothing
else does: `Machine.Spends` keeps the account from one machine to a later one. So the instructions
that retire in a run bound what it changes and puts out, whether it halts, expires or faults. Of all
that a host can do to a machine, only a reset takes output back, and nothing touches the
configuration or the size of memory: `operations_ledger`.
-/

namespace Tomtel

/-- What a host does to a machine: it calls on it, or has it execute an instruction as if that had
been fetched from `addr`. -/
inductive Operation (σ : Type) where
  | call (call : Call σ)
  | execute (i : Instruction) (addr : UInt32) (sink : σ → Event → σ)

/-- The cells of `memory` that are different in `memory'`. -/
def Memory.changed (memory memory' : Memory) : Finset Nat :=
  (Finset.range memory.size).filter fun k => memory'.bytes[k]? ≠ memory.bytes[k]?

namespace Memory

variable {memory memory' memory'' : Memory}

theorem changed_self (memory : Memory) : memory.changed memory = ∅ := by
  simp [changed]

theorem changed_subset_union (hsize : memory'.size = memory.size) :
    memory.changed memory'' ⊆ memory.changed memory' ∪ memory'.changed memory'' := by
  intro k hk
  simp only [changed, Finset.mem_union, Finset.mem_filter, Finset.mem_range, hsize] at hk ⊢
  by_cases h : memory'.bytes[k]? = memory.bytes[k]?
  · exact .inr ⟨hk.1, h ▸ hk.2⟩
  · exact .inl ⟨hk.1, h⟩

theorem changed_store_subset (memory : Memory) (addr : Nat) (v : UInt8) :
    memory.changed ⟨memory.bytes.setIfInBounds addr v⟩ ⊆ {addr} := by
  intro k hk
  rw [changed, Finset.mem_filter] at hk
  refine Finset.mem_singleton.2 (Classical.byContradiction fun hne => hk.2 ?_)
  exact Array.getElem?_setIfInBounds_ne fun h => hne h.symm

end Memory

namespace Machine

variable {σ : Type} {m m' m'' : Machine} {rounds n n' : Nat}

/-- `m'` has come from `m` with at most `n` cells changed and bytes put out, counted together. -/
structure Spends (m m' : Machine) (n : Nat) : Prop where
  config : m'.config = m.config
  size : m'.memory.size = m.memory.size
  account : ∃ bytes, m'.output.bytes.toList = m.output.bytes.toList ++ bytes ∧
    (m.memory.changed m'.memory).card + bytes.length ≤ n

/-- A step of the machine retires an instruction. -/
def retires (m : Machine) : Bool := m.state = .running && m.step.outcome.isOk

/-- How many of `k` steps retire an instruction. -/
def retired (m : Machine) (k : Nat) : Nat := (List.range k).countP fun j => (m.after j).retires

/-- What the operation does, `none` if it is a run that takes more than `rounds` rounds. -/
def perform (rounds : Nat) (m : Machine) (s : σ) : Operation σ → Option (Reply σ)
  | .call call => m.respond rounds s call
  | .execute i addr sink =>
    let attempt := m.execute i addr
    some ⟨attempt.machine, .step attempt.outcome, attempt.entries.foldl (Entry.toSink sink) s⟩

/-- The machine and the state of its sinks after the operations in turn, `none` if one of them is a
run that takes more than `rounds` rounds. -/
def operate (rounds : Nat) (m : Machine) (s : σ) : List (Operation σ) → Option (Machine × σ)
  | [] => some (m, s)
  | op :: ops => do
    let reply ← m.perform rounds s op
    reply.machine.operate rounds reply.observed ops

/-! ### Accounts -/

namespace Spends

theorem of_eq (hconfig : m'.config = m.config) (hmemory : m'.memory = m.memory)
    (houtput : m'.output = m.output) : m.Spends m' 0 := by
  refine ⟨hconfig, by rw [hmemory], [], by simp [houtput], ?_⟩
  simp [hmemory, Memory.changed_self]

theorem refl (m : Machine) : m.Spends m 0 := of_eq rfl rfl rfl

theorem mono (h : m.Spends m' n) (hn : n ≤ n') : m.Spends m' n' := by
  obtain ⟨bytes, hbytes, hle⟩ := h.account
  exact ⟨h.config, h.size, bytes, hbytes, Nat.le_trans hle hn⟩

theorem trans (h : m.Spends m' n) (h' : m'.Spends m'' n') : m.Spends m'' (n + n') := by
  obtain ⟨bytes, hbytes, hle⟩ := h.account
  obtain ⟨bytes', hbytes', hle'⟩ := h'.account
  refine ⟨h'.config.trans h.config, h'.size.trans h.size, bytes ++ bytes', ?_, ?_⟩
  · rw [hbytes', hbytes, List.append_assoc]
  · have hcard := (Finset.card_le_card (Memory.changed_subset_union h.size)).trans
      (Finset.card_union_le (m.memory.changed m'.memory) (m'.memory.changed m''.memory))
    rw [List.length_append]
    omega

theorem apply (m : Machine) (effect : Effect) : m.Spends (m.apply effect) 1 := by
  refine ⟨config_apply m effect, size_apply m effect, effect.emitted, output_apply m effect, ?_⟩
  cases effect with
  | store addr v =>
    exact Finset.card_le_card (m.memory.changed_store_subset addr.toNat v)
  | emit v =>
    show (m.memory.changed m.memory).card + 1 ≤ 1
    simp [Memory.changed_self]
  | _ =>
    show (m.memory.changed m.memory).card + 0 ≤ 1
    simp [Memory.changed_self]

theorem execute (m : Machine) (i : Instruction) (addr : UInt32) :
    m.Spends (m.execute i addr).machine 1 := by
  rw [Machine.execute]
  cases i.effect m.regs m.memory with
  | error fault => exact (refl m).mono (Nat.zero_le 1)
  | ok effect => exact apply m effect

end Spends

/-! ### Steps -/

theorem retires_of_upcoming_error {fault : Fault} (h : m.upcoming = .error fault) :
    m.retires = false := by
  rw [retires]
  by_cases hm : m.state = .running
  · rw [step_of_upcoming_error hm h]
    exact Bool.and_false _
  · simp [hm]

theorem retires_of_upcoming_ok {i : Instruction} {effect : Effect} (hm : m.state = .running)
    (h : m.upcoming = .ok (i, effect)) : m.retires = true := by
  rw [retires, step_of_upcoming_ok hm h, hm]
  rfl

theorem retires_of_not_faulted (hm : m.state = .running)
    (h : ∀ fault, m.step.machine.state ≠ .faulted fault) : m.retires = true := by
  cases hu : m.upcoming with
  | error fault => exact absurd (outcome_eq_error_iff.1 ((step_error_iff hm).2 hu)) (h fault)
  | ok next => exact retires_of_upcoming_ok hm hu

theorem spends_step (m : Machine) : m.Spends m.step.machine m.retires.toNat := by
  by_cases hm : m.state = .running
  · cases h : m.upcoming with
    | error fault =>
      rw [retires_of_upcoming_error h, step_of_upcoming_error hm h]
      exact .of_eq rfl rfl rfl
    | ok next =>
      obtain ⟨i, effect⟩ := next
      have hpast : m.Spends (m.past i) 0 := .of_eq rfl rfl rfl
      rw [retires_of_upcoming_ok hm h, step_of_upcoming_ok hm h]
      exact (hpast.trans (.apply _ effect)).mono (Nat.le_refl 1)
  · rw [(step_of_not_running hm).1]
    exact (Spends.refl m).mono (Nat.zero_le _)

theorem retired_succ (m : Machine) (k : Nat) :
    m.retired (k + 1) = m.retired k + (m.after k).retires.toNat := by
  rw [retired, List.range_succ, List.countP_append]
  cases h : (m.after k).retires <;> simp [retired, h]

theorem spends_after (m : Machine) (k : Nat) : m.Spends (m.after k) (m.retired k) := by
  induction k with
  | zero => exact .refl m
  | succ k ih =>
    rw [after_succ, retired_succ]
    exact ih.trans (spends_step _)

/-! ### Runs -/

/-- As long as nothing faults, each step of a running machine retires an instruction. -/
theorem retired_eq {k : Nat} (hrun : ∀ j < k, (m.after j).state = .running)
    (h : ∀ fault, (m.after k).state ≠ .faulted fault) : m.retired k = k := by
  induction k with
  | zero => rfl
  | succ k ih =>
    have hk := hrun k (Nat.lt_succ_self k)
    have hprev := ih (fun j hj => hrun j (Nat.lt_succ_of_lt hj)) (by simp [hk])
    rw [after_succ] at h
    rw [retired_succ, hprev, retires_of_not_faulted hk h]
    rfl

/-- The step that faults retires nothing. -/
theorem retired_of_faulted {k : Nat} {fault : Fault}
    (hrun : ∀ j < k + 1, (m.after j).state = .running)
    (h : (m.after (k + 1)).state = .faulted fault) : m.retired (k + 1) = k := by
  have hk := hrun k (Nat.lt_succ_self k)
  have hprev : m.retired k = k :=
    retired_eq (fun j hj => hrun j (Nat.lt_succ_of_lt hj)) (by simp [hk])
  rw [after_succ, ← outcome_eq_error_iff, step_error_iff hk] at h
  rw [retired_succ, hprev, retires_of_upcoming_error h]
  rfl

variable (observe : σ → Entry → σ) (watchdog : Watchdog) (clock : UInt64 → Duration)

/-- What retires in a run pays for all that the run does, however it ends. -/
theorem spends_timedRun {s : σ} {run : Run σ}
    (h : m.timedRun observe watchdog clock rounds s = some run) :
    ∃ k ≤ rounds, run.machine = m.after k ∧ m.Spends run.machine (m.retired k) ∧
      (∀ outcome, run.result = .ok outcome →
        m.retired k = k ∧ outcome.steps = .ofNat (m.retired k)) ∧
      ∀ fault, run.result = .error fault → m.retired k = k - 1 := by
  obtain ⟨run', hloop, rfl⟩ := Option.map_eq_some_iff.1 h
  obtain ⟨k, hk, hrun, -, -, rfl⟩ := exists_after_of_loop observe watchdog clock hloop
  rw [machine_close, result_close, UInt64.zero_add]
  refine ⟨k, hk, rfl, spends_after m k, fun outcome hok => ?_, fun fault herr => ?_⟩
  · obtain ⟨hsteps, hnot⟩ := steps_of_verdict hok
    rw [retired_eq hrun hnot]
    exact ⟨rfl, hsteps⟩
  · cases k with
    | zero => rfl
    | succ k => exact retired_of_faulted hrun (verdict_eq_error_iff.1 herr)

/-! ### Operations -/

section

variable {s s' : σ} {op : Operation σ} {ops ops' : List (Operation σ)} {reply : Reply σ}

theorem exists_spends_of_perform (h : m.perform rounds s op = some reply)
    (hop : op ≠ .call .reset) : ∃ n, m.Spends reply.machine n := by
  cases op with
  | execute i addr sink =>
    cases h
    exact ⟨1, .execute m i addr⟩
  | call call =>
    cases call with
    | step sink =>
      cases h
      exact ⟨_, spends_step m⟩
    | run watchdog? clock sink =>
      obtain ⟨run, hrun, rfl⟩ := Option.map_eq_some_iff.1 h
      obtain ⟨k, -, -, hspends, -⟩ := spends_timedRun _ _ _ hrun
      exact ⟨_, hspends⟩
    | setPc v =>
      cases h
      exact ⟨0, .of_eq rfl rfl rfl⟩
    | setPtr v =>
      cases h
      exact ⟨0, .of_eq rfl rfl rfl⟩
    | reset => exact absurd rfl hop

theorem operate_append (m : Machine) (s : σ) (ops ops' : List (Operation σ)) :
    m.operate rounds s (ops ++ ops') =
      m.operate rounds s ops >>= fun p => p.1.operate rounds p.2 ops' := by
  induction ops generalizing m s with
  | nil => rfl
  | cons op ops ih =>
    rw [List.cons_append, operate, operate]
    cases m.perform rounds s op with
    | none => rfl
    | some reply => exact ih reply.machine reply.observed

theorem exists_spends_of_operate (h : m.operate rounds s ops = some (m', s'))
    (hops : .call .reset ∉ ops) : ∃ n, m.Spends m' n := by
  induction ops generalizing m s with
  | nil =>
    cases h
    exact ⟨0, .refl _⟩
  | cons op ops ih =>
    rw [List.mem_cons, not_or] at hops
    obtain ⟨reply, hreply, hrest⟩ := Option.bind_eq_some_iff.1 h
    obtain ⟨n, hfirst⟩ := exists_spends_of_perform hreply (Ne.symm hops.1)
    obtain ⟨n', hthen⟩ := ih hrest hops.2
    exact ⟨n + n', hfirst.trans hthen⟩

theorem config_size_of_perform (h : m.perform rounds s op = some reply) :
    reply.machine.config = m.config ∧ reply.machine.memory.size = m.memory.size := by
  by_cases hop : op = .call .reset
  · subst hop
    cases h
    exact ⟨rfl, rfl⟩
  · obtain ⟨n, hspends⟩ := exists_spends_of_perform h hop
    exact ⟨hspends.config, hspends.size⟩

theorem config_size_of_operate (h : m.operate rounds s ops = some (m', s')) :
    m'.config = m.config ∧ m'.memory.size = m.memory.size := by
  induction ops generalizing m s with
  | nil =>
    cases h
    exact ⟨rfl, rfl⟩
  | cons op ops ih =>
    obtain ⟨reply, hreply, hrest⟩ := Option.bind_eq_some_iff.1 h
    obtain ⟨hconfig, hsize⟩ := config_size_of_perform hreply
    obtain ⟨hconfig', hsize'⟩ := ih hrest
    exact ⟨hconfig'.trans hconfig, hsize'.trans hsize⟩

end

/-- Whatever is done to a machine, its configuration and the size of its memory stay, and what it has
put out stays up to the next reset. A step and an instruction executed by a host change one cell or
put out one byte, or neither. In a run, the instructions that retire are as many as its cells changed
and bytes put out together, at least; a step that faults is none of them. A reset leaves memory as it
is. -/
theorem operations_ledger (m : Machine) (rounds : Nat) (s : σ) :
    (∀ ops m' s', m.operate rounds s ops = some (m', s') →
      m'.config = m.config ∧ m'.memory.size = m.memory.size) ∧
    (∀ before between m₁ s₁ m₂ s₂, m.operate rounds s before = some (m₁, s₁) →
      m.operate rounds s (before ++ between) = some (m₂, s₂) → .call .reset ∉ between →
      m₁.output.bytes.toList <+: m₂.output.bytes.toList) ∧
    m.Spends m.step.machine 1 ∧
    (∀ i addr, m.Spends (m.execute i addr).machine 1) ∧
    (∀ observe watchdog clock run, m.timedRun observe watchdog clock rounds s = some run →
      ∃ k ≤ rounds, run.machine = m.after k ∧ m.Spends run.machine (m.retired k) ∧
        (∀ outcome, run.result = .ok outcome →
          m.retired k = k ∧ outcome.steps = .ofNat (m.retired k)) ∧
        ∀ fault, run.result = .error fault → m.retired k = k - 1) ∧
    m.reset.memory = m.memory := by
  refine ⟨fun ops m' s' h => config_size_of_operate h, ?_,
    (spends_step m).mono (Bool.toNat_le m.retires), fun i addr => .execute m i addr,
    fun observe watchdog clock run h => spends_timedRun observe watchdog clock h, rfl⟩
  intro before between m₁ s₁ m₂ s₂ hbefore hall hbetween
  rw [operate_append, hbefore] at hall
  obtain ⟨n, hspends⟩ := exists_spends_of_operate hall hbetween
  obtain ⟨bytes, hbytes, -⟩ := hspends.account
  rw [hbytes]
  exact List.prefix_append ..

/-- Another value for `a`, which a step then puts out. -/
def firstOperations : List (Operation (List Event)) :=
  [.execute (.mvi (.register .a) 7) 0 fun es e => es ++ [e], .call (.step fun es e => es ++ [e])]

/-- A run to the end. -/
def lastOperations : List (Operation (List Event)) :=
  [.call (.setPtr 3), .call (.run none (fun _ => .zero) fun es e => es ++ [e])]

theorem operations_ledger_outHaltTraced :
    (∃ m₁ s₁ m₂ s₂, outHaltTraced.operate 2 [] firstOperations = some (m₁, s₁) ∧
      outHaltTraced.operate 2 [] (firstOperations ++ lastOperations) = some (m₂, s₂) ∧
      .call .reset ∉ lastOperations ∧ m₁.output.bytes.toList = [7] ∧
      m₁.output.bytes.toList <+: m₂.output.bytes.toList ∧ m₂.config = outHaltTraced.config) ∧
    ∃ run, outHaltTraced.timedRun (Entry.toSink fun es e => es ++ [e]) .unbounded
        (fun _ => .zero) 3 [] = some run ∧
      run.result = .ok ⟨.halted, 2⟩ ∧ outHaltTraced.Spends run.machine 2 := by
  constructor
  · obtain ⟨hkept, hprefix, -⟩ := operations_ledger outHaltTraced 2 ([] : List Event)
    have hall : outHaltTraced.operate 2 [] (firstOperations ++ lastOperations) = some _ := rfl
    have hlast : .call .reset ∉ lastOperations := by simp [lastOperations]
    exact ⟨_, _, _, _, rfl, hall, hlast, rfl, hprefix _ _ _ _ _ _ rfl hall hlast,
      (hkept _ _ _ hall).1⟩
  · obtain ⟨-, -, -, -, hrun, -⟩ := operations_ledger outHaltTraced 3 ([] : List Event)
    obtain ⟨k, hk, -, hspends, hok, -⟩ :=
      hrun (Entry.toSink fun es e => es ++ [e]) .unbounded (fun _ => .zero) _ rfl
    obtain ⟨hretired, hsteps⟩ := hok ⟨.halted, 2⟩ rfl
    have hcount : 2 = outHaltTraced.retired k % 2 ^ 64 := congrArg UInt64.toNat hsteps
    rw [show outHaltTraced.retired k = 2 by omega] at hspends
    exact ⟨_, rfl, rfl, hspends⟩

end Machine

end Tomtel
