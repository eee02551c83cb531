import Tomtel.Proofs.Conformance
import Tomtel.Proofs.Reading
import Tomtel.Proofs.Sessions

/-!
# Why a machine has stopped

A machine that has stopped shows why, as long as nobody moves its `pc` or `ptr` after that
(`Machine.Leads`). A halted machine has the `HALT` right before `pc`, and a faulted one, if it could go
on, would meet its fault again. The invariant is `Machine.Explained`. One step makes it in
`Explained.step`, and `stop_explained` has it for every session from power-on.
-/

namespace Tomtel

namespace Machine

/-- The machine as it is, but running. -/
def resume (m : Machine) : Machine := { m with state := .running }

/-- Calls can make `m'` of `m`, where none of them places a register of a machine that has
stopped. -/
inductive Leads (m : Machine) : Machine → Prop
  | refl : m.Leads m
  | call {σ : Type} {m' : Machine} {call : Call σ} {rounds : Nat} {s : σ} {reply : Reply σ}
      (h : m.Leads m') (hplaced : call.placed?.isSome → m'.state = .running)
      (hreply : m'.respond rounds s call = some reply) : m.Leads reply.machine

/-- The machine shows why it has stopped, if it has. -/
structure Explained (m : Machine) : Prop where
  size_lt : m.memory.size < 2 ^ 32
  /-- A `HALT` stands right before `pc`. -/
  halted : m.state = .halted → 1 ≤ m.pc.toNat ∧ m.pc.toNat ≤ m.memory.size ∧
    m.memory.bytes[m.pc.toNat - 1]? = some 0x01
  /-- The fault would be met again, and would leave the same machine. -/
  faulted : ∀ fault, m.state = .faulted fault → m.resume.step.machine = m

variable {m m' : Machine} {σ : Type} {call : Call σ} {rounds : Nat} {s : σ} {reply : Reply σ}
  {fault : Fault}

theorem resume_of_running (hm : m.state = .running) : m.resume = m := by
  rw [resume, ← hm]

namespace Explained

theorem of_running (hm : m.state = .running) (hsize : m.memory.size < 2 ^ 32) : m.Explained where
  size_lt := hsize
  halted h := by rw [hm] at h; cases h
  faulted fault h := by rw [hm] at h; cases h

/-- A `HALT` that is executed stands right before `pc` then, since `pc` cannot wrap. -/
theorem of_halt (hsize : m.memory.size < 2 ^ 32)
    (hi : m.memory.instruction m.config.layout m.pc = .ok .halt) :
    ((m.past .halt).apply .halt).Explained := by
  obtain ⟨d, hd, -⟩ := Memory.exists_decode_of_instruction hi
  have hb := (Memory.getElem?_of_decode hd).1
  have hraw : Instruction.halt.lead = d.raw := Memory.lead_of_instruction hb hi
  have hlt := Memory.lt_size_of_getElem? hb
  have hpc : ((m.past .halt).apply .halt).pc.toNat = m.pc.toNat + 1 := by
    have hnext : (m.pc + Instruction.halt.length.toUInt32).toNat = (m.pc.toNat + 1) % 2 ^ 32 :=
      UInt32.toNat_add _ _
    exact hnext.trans (Nat.mod_eq_of_lt (by omega))
  refine ⟨hsize, fun _ => ?_, fun fault h => by cases h⟩
  rw [hpc]
  refine ⟨by omega, Nat.succ_le_of_lt hlt, ?_⟩
  rw [Nat.add_sub_cancel]
  exact hb.trans (congrArg some hraw.symm)

theorem step (h : m.Explained) : m.step.machine.Explained := by
  by_cases hm : m.state = .running
  · have hsize : m.step.machine.memory.size < 2 ^ 32 := by
      rw [size_step]
      exact h.size_lt
    cases hu : m.upcoming with
    | error fault =>
      have hstep : m.step.machine = { m with state := .faulted fault } := by
        rw [step_of_upcoming_error hm hu]
        rfl
      -- put back to running, the machine is the one that has just met the fault
      have hback : m.step.machine.resume = m := by
        rw [hstep]
        exact resume_of_running hm
      refine ⟨hsize, fun hs => ?_, fun fault' _ => by rw [hback]⟩
      rw [hstep] at hs
      cases hs
    | ok next =>
      obtain ⟨i, effect⟩ := next
      obtain ⟨hi, he⟩ := upcoming_eq_ok_iff.1 hu
      by_cases hhalt : effect = .halt
      · obtain rfl : i = .halt := (eq_halt_iff_of_effect (m := m.past i) he).1 hhalt
        rw [step_of_upcoming_ok hm hu, hhalt]
        exact of_halt h.size_lt hi
      · exact of_running ((state_step_of_upcoming_ok hm hu).trans (if_neg hhalt)) hsize
  · rwa [(step_of_not_running hm).1]

theorem after (h : m.Explained) (k : Nat) : (m.after k).Explained := by
  induction k with
  | zero => exact h
  | succ k ih =>
    rw [after_succ]
    exact ih.step

theorem respond (h : m.Explained) (hplaced : call.placed?.isSome → m.state = .running)
    (hreply : m.respond rounds s call = some reply) : reply.machine.Explained := by
  cases call with
  | step sink =>
    cases hreply
    exact h.step
  | run watchdog? clock sink =>
    obtain ⟨run, hrun, rfl⟩ := Option.map_eq_some_iff.1 hreply
    obtain ⟨run', hloop, rfl⟩ := Option.map_eq_some_iff.1 hrun
    obtain ⟨k, -, -, -, -, rfl⟩ := exists_after_of_loop _ _ _ hloop
    rw [close_toSink]
    exact h.after k
  | setPc v =>
    cases hreply
    exact of_running (hplaced rfl) h.size_lt
  | setPtr v =>
    cases hreply
    exact of_running (hplaced rfl) h.size_lt
  | reset =>
    cases hreply
    exact of_running rfl h.size_lt

end Explained

theorem Leads.explained (h : m.Leads m') (hm : m.Explained) : m'.Explained := by
  induction h with
  | refl => exact hm
  | call _ hplaced hreply ih => exact ih.respond hplaced hreply

/-- Let a machine be switched on over an image that its registers can address, and called on in any
way but to place a register once it has stopped. If it has halted, a `HALT` stands right before `pc`.
If it has faulted, then put back to running it meets the same fault with its next step and is again
as it was. -/
theorem stop_explained {config : Config} {image : Memory} (hsize : image.size < 2 ^ 32)
    (h : (boot config image).Leads m) :
    (m.state = .halted → 1 ≤ m.pc.toNat ∧ m.pc.toNat ≤ m.memory.size ∧
      m.memory.bytes[m.pc.toNat - 1]? = some 0x01) ∧
    ∀ fault, m.state = .faulted fault →
      m.resume.step.outcome = .error fault ∧ m.resume.step.machine = m := by
  have hm : m.Explained := h.explained (.of_running rfl hsize)
  refine ⟨hm.halted, fun fault hf => ?_⟩
  have hback := hm.faulted fault hf
  refine ⟨outcome_eq_error_iff.2 ?_, hback⟩
  rw [hback, hf]

/-- An `OUT`, a `HALT` and a store to the memory cell. -/
def haltThenStore : Memory := ⟨#[0x02, 0x01, 0x79]⟩

/-- A run from the start halts, and a step of the store faults once `ptr` is outside memory. -/
theorem stop_explained_haltThenStore :
    haltThenStore.size < 2 ^ 32 ∧
    (∃ m, (boot {} haltThenStore).Leads m ∧ m.state = .halted ∧
      1 ≤ m.pc.toNat ∧ m.pc.toNat ≤ m.memory.size ∧
      m.memory.bytes[m.pc.toNat - 1]? = some 0x01) ∧
    ∃ m, (boot {} haltThenStore).Leads m ∧ m.state = .faulted (.memoryOutOfBounds 15 3) ∧
      m.resume.step.outcome = .error (.memoryOutOfBounds 15 3) ∧ m.resume.step.machine = m := by
  have hsize : haltThenStore.size < 2 ^ 32 := by decide
  let sink : Unit → Event → Unit := fun s _ => s
  let run : Call Unit := .run (some (.instructionBudget 9)) (fun _ => .zero) sink
  have hrun : (boot {} haltThenStore).Leads ((boot {} haltThenStore).after 2) :=
    .call .refl (fun h => by cases h)
      (show Machine.respond 10 _ () run = some ⟨_, .run (.ok ⟨.halted, 2⟩), ()⟩ from rfl)
  have hptr : (boot {} haltThenStore).Leads ((boot {} haltThenStore).setPtr 15) :=
    .call .refl (fun _ => rfl)
      (show Machine.respond 1 _ () (.setPtr 15) = some ⟨_, .done, ()⟩ from rfl)
  have hpc : (boot {} haltThenStore).Leads (((boot {} haltThenStore).setPtr 15).setPc 2) :=
    .call hptr (fun _ => rfl)
      (show Machine.respond 1 _ () (.setPc 2) = some ⟨_, .done, ()⟩ from rfl)
  have hstep : (boot {} haltThenStore).Leads
      (((boot {} haltThenStore).setPtr 15).setPc 2).step.machine :=
    .call hpc (fun h => by cases h)
      (show Machine.respond 1 _ () (.step sink) = some ⟨_, .step _, ()⟩ from rfl)
  exact ⟨hsize, ⟨_, hrun, rfl, (stop_explained hsize hrun).1 rfl⟩,
    ⟨_, hstep, rfl, (stop_explained hsize hstep).2 _ rfl⟩⟩

end Machine

end Tomtel
