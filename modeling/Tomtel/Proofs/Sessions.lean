import Tomtel.Proofs.Loop

/-!
# Sessions

A host works on a machine by calls, and a session is any number of calls, one after the other. A run
need not end, so `Machine.respond` and `Machine.session` follow its loop for a number of rounds.

A machine that has halted or faulted does nothing in a session but say so again, whatever it is asked
to do and wherever `pc` and `ptr` are placed: `stopped_absorbs`. Only a reset gets it going.
-/

namespace Tomtel

/-- What a host asks of a machine. A step or a run hands its events to a sink of its own, and all
sinks work on one state. -/
inductive Call (σ : Type) where
  | step (sink : σ → Event → σ)
  /-- A run under a watchdog, which is the configured one if none is given. At `steps` retired
  instructions the clock shows `clock steps`. -/
  | run (watchdog? : Option Watchdog) (clock : UInt64 → Duration) (sink : σ → Event → σ)
  | setPc (v : UInt32)
  | setPtr (v : UInt32)
  | reset

/-- What a call gives back. -/
inductive Answer where
  | step (outcome : Except Fault StepOutcome)
  | run (result : Except Fault RunOutcome)
  | done

/-- What a call leaves behind, `observed` being the state of the sinks. -/
structure Reply (σ : Type) where
  machine : Machine
  answer : Answer
  observed : σ

/-- What a session leaves behind, with the answers to its calls. -/
structure Session (σ : Type) where
  machine : Machine
  answers : List Answer
  observed : σ

namespace Call

variable {σ : Type}

/-- The register that the call places, and where. -/
def placed? : Call σ → Option (WideRegister × UInt32)
  | .setPc v => some (.pc, v)
  | .setPtr v => some (.ptr, v)
  | _ => none

/-- The answer of a machine that has halted or faulted, which does not carry out the call. -/
def refrain (state : RunState) : Call σ → Answer
  | .step _ =>
    match state with
    | .faulted fault => .step (.error fault)
    | _ => .step (.ok .halted)
  | .run .. =>
    match state with
    | .faulted fault => .run (.error fault)
    | _ => .run (.ok ⟨.halted, 0⟩)
  | _ => .done

end Call

/-- The registers with these placed, the last of several values of one register. -/
def RegisterFile.place (regs : RegisterFile) (placed : List (WideRegister × UInt32)) :
    RegisterFile :=
  placed.foldl (fun regs p => regs.setWide p.1 p.2) regs

namespace RegisterFile

variable (regs : RegisterFile) {placed : List (WideRegister × UInt32)}

theorem byte_place (r : ByteRegister) : (regs.place placed).byte r = regs.byte r := by
  induction placed generalizing regs with
  | nil => rfl
  | cons p placed ih => exact (ih _).trans (regs.byte_setWide p.1 r p.2)

theorem wide_place {r : WideRegister} (h : ∀ v, (r, v) ∉ placed) :
    (regs.place placed).wide r = regs.wide r := by
  induction placed generalizing regs with
  | nil => rfl
  | cons p placed ih =>
    have hr : r ≠ p.1 := by
      rintro rfl
      exact h p.2 (List.mem_cons_self ..)
    refine (ih _ fun v hv => h v (List.mem_cons_of_mem _ hv)).trans ?_
    rw [wide_setWide, if_neg hr]

end RegisterFile

namespace Machine

variable {σ : Type} {m : Machine} {rounds : Nat} {call : Call σ} {calls : List (Call σ)}

/-- What the call does, `none` if it is a run that takes more than `rounds` rounds. -/
def respond (rounds : Nat) (m : Machine) (s : σ) : Call σ → Option (Reply σ)
  | .step sink =>
    let attempt := m.step
    some ⟨attempt.machine, .step attempt.outcome, attempt.entries.foldl (Entry.toSink sink) s⟩
  | .run watchdog? clock sink =>
    let watchdog := watchdog?.getD m.config.watchdog
    (m.timedRun (Entry.toSink sink) watchdog clock rounds s).map fun run =>
      ⟨run.machine, .run run.result, run.observed⟩
  | .setPc v => some ⟨m.setPc v, .done, s⟩
  | .setPtr v => some ⟨m.setPtr v, .done, s⟩
  | .reset => some ⟨m.reset, .done, s⟩

/-- The calls in turn, `none` if one of them is a run that takes more than `rounds` rounds. -/
def session (rounds : Nat) (m : Machine) (s : σ) : List (Call σ) → Option (Session σ)
  | [] => some ⟨m, [], s⟩
  | call :: calls =>
    match m.respond rounds s call with
    | none => none
    | some reply =>
      (reply.machine.session rounds reply.observed calls).map fun rest =>
        { rest with answers := reply.answer :: rest.answers }

/-! ### Machines that have stopped -/

theorem timedRun_of_not_running (hm : m.state ≠ .running) (hr : 0 < rounds) (watchdog : Watchdog)
    (clock : UInt64 → Duration) (sink : σ → Event → σ) (s : σ) :
    m.timedRun (Entry.toSink sink) watchdog clock rounds s = some ⟨m, m.verdict 0, s⟩ := by
  rw [timedRun, loop_of_not_running _ watchdog clock hm hr, Option.map_some, close_toSink]
  rfl

/-- A call is not carried out, unless it places a register or resets the machine. -/
theorem respond_of_not_running (hm : m.state ≠ .running) (hr : 0 < rounds) (s : σ)
    (hcall : call ≠ .reset) :
    m.respond rounds s call =
      some ⟨{ m with regs := m.regs.place call.placed?.toList }, call.refrain m.state, s⟩ := by
  cases call with
  | step sink =>
    obtain ⟨hmachine, hentries⟩ := step_of_not_running hm
    have hanswer : Answer.step m.step.outcome = (Call.step sink).refrain m.state := by
      cases h : m.state with
      | running => exact absurd h hm
      | halted => rw [step_of_halted h]; rfl
      | faulted fault => rw [step_of_faulted h]; rfl
    rw [respond, hmachine, hentries, hanswer]
    rfl
  | run watchdog? clock sink =>
    have hanswer : Answer.run (m.verdict 0) = (Call.run watchdog? clock sink).refrain m.state := by
      rw [verdict]
      cases h : m.state with
      | running => exact absurd h hm
      | halted => rfl
      | faulted fault => rfl
    rw [respond, timedRun_of_not_running hm hr, Option.map_some, hanswer]
    rfl
  | setPc v => rfl
  | setPtr v => rfl
  | reset => exact absurd rfl hcall

theorem session_of_not_running (hm : m.state ≠ .running) (hr : 0 < rounds) (s : σ)
    (hcalls : .reset ∉ calls) :
    m.session rounds s calls =
      some ⟨{ m with regs := m.regs.place (calls.filterMap Call.placed?) },
        calls.map (Call.refrain m.state), s⟩ := by
  induction calls generalizing m with
  | nil => rfl
  | cons call calls ih =>
    have hcall : call ≠ .reset := fun h => hcalls (h ▸ List.mem_cons_self ..)
    have hrest := ih (m := { m with regs := m.regs.place call.placed?.toList }) hm
      fun h => hcalls (List.mem_cons_of_mem _ h)
    rw [session, respond_of_not_running hm hr s hcall]
    simp only [hrest, Option.map_some, List.map_cons]
    cases h : call.placed? with
    | none => rw [List.filterMap_cons_none h]; rfl
    | some p => rw [List.filterMap_cons_some h]; rfl

/-- Let a machine have halted or faulted, and call on it in any way but to reset it. All that the
calls change is `pc` and `ptr`, where they place them. No sink receives an event. A step gives the
halt, or the fault again, and a run gives the halt with no step, or the fault again, whatever its
watchdog allows and its clock shows, as does the run that has no clock. No call but a reset makes
the machine run again, and after a reset it is as at power-on, over its memory and
configuration. -/
theorem stopped_absorbs (hm : m.state ≠ .running) (hr : 0 < rounds) (s : σ) :
    (∀ calls : List (Call σ), .reset ∉ calls →
      ∃ session, m.session rounds s calls = some session ∧
        session.answers = calls.map (Call.refrain m.state) ∧
        session.observed = s ∧
        session.machine.state = m.state ∧ session.machine.memory = m.memory ∧
        session.machine.output = m.output ∧ session.machine.config = m.config ∧
        (∀ r, session.machine.regs.byte r = m.regs.byte r) ∧
        ∀ r, (∀ v, (r, v) ∉ calls.filterMap Call.placed?) →
          session.machine.regs.wide r = m.regs.wide r) ∧
    (∀ sink watchdog clock, m.timedRun (Entry.toSink sink) watchdog clock rounds s =
      some (m.run (Entry.toSink sink) watchdog s)) ∧
    (∀ call reply, m.respond rounds s call = some reply → reply.machine.state ≠ m.state →
      call = .reset) ∧
    m.respond rounds s .reset = some ⟨boot m.config m.memory, .done, s⟩ := by
  refine ⟨fun calls hcalls => ?_, fun sink watchdog clock => ?_,
    fun call reply hreply hstate => ?_, rfl⟩
  · exact ⟨_, session_of_not_running hm hr s hcalls, rfl, rfl, rfl, rfl, rfl, rfl,
      fun r => m.regs.byte_place r, fun r h => m.regs.wide_place h⟩
  · rw [timedRun_of_not_running hm hr, run_toSink, span_of_not_running hm]
    rfl
  · refine Classical.byContradiction fun hcall => ?_
    rw [respond_of_not_running hm hr s hcall] at hreply
    cases hreply
    exact hstate rfl

/-- Has met a store outside memory behind a `HALT`. -/
def latched : Machine where
  config := { tracing := true }
  regs := { a := 7, ptr := 15, pc := 1 }
  memory := ⟨#[0x01, 0x79]⟩
  state := .faulted (.memoryOutOfBounds 15 2)

theorem stopped_absorbs_latched :
    let collect : List Event → Event → List Event := fun es e => es ++ [e]
    let clock : UInt64 → Duration := fun _ => .zero
    let calls : List (Call (List Event)) :=
      [.setPc 0, .step collect, .run none clock collect,
        .run (some (.instructionBudget 0)) clock collect]
    latched.state ≠ .running ∧ 0 < 1 ∧
    (∃ session, latched.session 1 [] calls = some session ∧
      session.answers = [.done, .step (.error (.memoryOutOfBounds 15 2)),
        .run (.error (.memoryOutOfBounds 15 2)), .run (.error (.memoryOutOfBounds 15 2))] ∧
      session.observed = [] ∧ session.machine.state = latched.state ∧
      session.machine.regs.a = 7 ∧ session.machine.regs.ptr = 15) ∧
    latched.respond 1 [] (.reset : Call (List Event)) =
      some ⟨boot latched.config latched.memory, .done, []⟩ := by
  intro collect clock calls
  have hm : latched.state ≠ .running := by decide
  obtain ⟨hcalls, -, -, hreset⟩ := stopped_absorbs hm Nat.one_pos ([] : List Event)
  obtain ⟨session, hsession, hanswers, hobserved, hstate, -, -, -, hbyte, hwide⟩ :=
    hcalls calls (by simp [calls])
  exact ⟨hm, Nat.one_pos, ⟨session, hsession, hanswers, hobserved, hstate, hbyte .a,
    hwide .ptr (by simp [calls, Call.placed?])⟩, hreset⟩

end Machine

end Tomtel
