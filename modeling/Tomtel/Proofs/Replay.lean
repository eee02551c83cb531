import Tomtel.Proofs.Effects
import Tomtel.Proofs.PreciseFault

/-!
# The trace replays the run

From the machine before a run and its events one can tell the memory and the output after it, and
each start event shows the byte that memory held at that time: `Machine.trace_replays_run`. The
invariant is `Replays`, for one step in `Machine.replays_step`, and events can be put one after the
other by `Replays.append`.
-/

namespace Tomtel

/-! ### Replaying events -/

namespace Event

/-- The byte of an output event. -/
def output? : Event → Option UInt8
  | .output byte => some byte
  | _ => none

/-- What becomes of memory with the event: a write is carried out, and nothing else matters. -/
def redo (memory : Memory) : Event → Except Fault Memory
  | .write addr v => memory.write addr v
  | _ => .ok memory

end Event

namespace Memory

/-- The memory that the events lead to, unless one of them writes outside memory. -/
def replay (memory : Memory) (events : List Event) : Except Fault Memory :=
  events.foldlM Event.redo memory

section

variable {memory memory' : Memory} {addr : UInt64} {v : UInt8}

theorem write_of_lt (h : addr.toNat < memory.bytes.size) :
    memory.write addr v = .ok ⟨memory.bytes.setIfInBounds addr.toNat v⟩ := by
  rw [write, index_of_lt h, Array.setIfInBounds, dif_pos h]

theorem lt_size_of_write (h : memory.write addr v = .ok memory') :
    addr.toNat < memory.bytes.size := by
  refine Nat.lt_of_not_le fun hge => ?_
  rw [write, index_of_ge hge] at h
  cases h

theorem size_of_redo {e : Event} (h : e.redo memory = .ok memory') :
    memory'.size = memory.size := by
  cases e with
  | write addr v =>
    have hlt := lt_size_of_write h
    rw [Event.redo, write_of_lt hlt] at h
    cases h
    exact Array.size_setIfInBounds
  | _ => cases h; rfl

theorem replay_append (xs ys : List Event) :
    memory.replay (xs ++ ys) = memory.replay xs >>= fun memory' => memory'.replay ys :=
  List.foldlM_append

theorem lt_size_of_replay {events : List Event} (h : memory.replay events = .ok memory')
    (hmem : .write addr v ∈ events) : addr.toNat < memory.size := by
  induction events generalizing memory with
  | nil => cases hmem
  | cons e events ih =>
    rw [replay, List.foldlM_cons] at h
    obtain ⟨next, hnext, hrest⟩ := bind_eq_ok.1 h
    rcases List.mem_cons.1 hmem with rfl | hmem
    · exact lt_size_of_write hnext
    · rw [← size_of_redo hnext]
      exact ih hrest hmem

end

end Memory

/-- The events tell how the machine `m` has become `m'`. -/
structure Replays (events : List Event) (m m' : Machine) : Prop where
  /-- The output has gained the bytes of the output events. -/
  output : m'.output.bytes.toList = m.output.bytes.toList ++ events.filterMap Event.output?
  /-- The write events make the memory of `m'`, each of them inside memory. -/
  memory : m.memory.replay events = .ok m'.memory
  /-- The byte of a start event is the one that memory held at that time. -/
  start : ∀ before pc raw rest, events = before ++ .start pc raw :: rest →
    ∃ memory, m.memory.replay before = .ok memory ∧ memory.bytes[pc.toNat]? = some raw

namespace Replays

variable {xs ys : List Event} {m m' m'' : Machine} {e : Event}

theorem nil (hout : m'.output = m.output) (hmem : m'.memory = m.memory) : Replays [] m m' where
  output := by rw [hout, List.filterMap_nil, List.append_nil]
  memory := by rw [hmem]; rfl
  start before pc raw rest h := by simp at h

theorem singleton (hout : m'.output.bytes.toList = m.output.bytes.toList ++ e.output?.toList)
    (hmem : e.redo m.memory = .ok m'.memory)
    (hstart : ∀ pc raw, e = .start pc raw → m.memory.bytes[pc.toNat]? = some raw) :
    Replays [e] m m' where
  output := by
    rw [hout]
    cases h : e.output? <;> simp [h]
  memory := by
    rw [Memory.replay, List.foldlM_cons, hmem]
    rfl
  start before pc raw rest h := by
    cases before with
    | nil =>
      obtain ⟨rfl, -⟩ := List.cons.inj h
      exact ⟨m.memory, rfl, hstart pc raw rfl⟩
    | cons x before => simp at h

theorem append (hxs : Replays xs m m') (hys : Replays ys m' m'') : Replays (xs ++ ys) m m'' where
  output := by rw [hys.output, hxs.output, List.filterMap_append, List.append_assoc]
  memory := by
    rw [Memory.replay_append, hxs.memory]
    exact hys.memory
  start before pc raw rest h := by
    rcases List.append_eq_append_iff.1 h with ⟨mid, rfl, hmid⟩ | ⟨mid, hxs', hmid⟩
    · -- the event is one of `ys`
      obtain ⟨memory, hmem, hraw⟩ := hys.start mid pc raw rest hmid
      refine ⟨memory, ?_, hraw⟩
      rw [Memory.replay_append, hxs.memory]
      exact hmem
    · -- the event is one of `xs`, unless it is the first of `ys`
      cases mid with
      | nil =>
        rw [List.append_nil] at hxs'
        subst hxs'
        obtain ⟨memory, hmem, hraw⟩ := hys.start [] pc raw rest hmid.symm
        cases hmem
        exact ⟨m'.memory, hxs.memory, hraw⟩
      | cons x mid =>
        obtain ⟨rfl, -⟩ := List.cons.inj hmid
        exact hxs.start before pc raw mid hxs'

end Replays

/-! ### Steps and runs -/

namespace Machine

variable {m : Machine} {i : Instruction} {effect : Effect} {fault : Fault}

theorem replays_startEntries (ht : m.config.tracing = true) :
    Replays (m.startEntries.filterMap Entry.event?) m m := by
  rcases m.filterMap_event?_startEntries with hs | ⟨raw, hraw, hs⟩
  · rw [hs]
    exact .nil rfl rfl
  · rw [hs, if_pos ht]
    refine .singleton (List.append_nil _).symm rfl fun pc raw' he => ?_
    cases he
    exact hraw

/-- An effect is told by its event: a store by a write, an emission by an output, and the others
change neither memory nor output. -/
theorem replays_effect (he : i.effect (m.past i).regs m.memory = .ok effect) :
    Replays (effect.event? m.pc).toList m ((m.past i).apply effect) := by
  cases effect with
  | nothing => exact .nil rfl rfl
  | setByte r v => exact .nil rfl rfl
  | setWide r v => exact .nil rfl rfl
  | store addr v =>
    refine .singleton (List.append_nil _).symm ?_ fun pc raw he => by cases he
    exact Memory.write_of_lt (Instruction.lt_size_of_effect he)
  | emit v =>
    refine .singleton ?_ rfl fun pc raw he => by cases he
    exact Array.toList_push
  | halt => exact .singleton (List.append_nil _).symm rfl fun pc raw he => by cases he

theorem replays_step (ht : m.config.tracing = true) : Replays m.step.events m m.step.machine := by
  by_cases hm : m.state = .running
  · have hstart := replays_startEntries ht
    cases h : m.upcoming with
    | error fault =>
      rw [step_of_upcoming_error hm h, filterMap_event?_latch, filterMap_event?_announcement,
        if_pos ht]
      exact hstart.append (.singleton (List.append_nil _).symm rfl fun pc raw he => by cases he)
    | ok next =>
      obtain ⟨i, effect⟩ := next
      rw [step_of_upcoming_ok hm h, Attempt.events, List.filterMap_append,
        filterMap_event?_announcement, filterMap_event?_effectEntries, if_pos ht]
      exact hstart.append (replays_effect (upcoming_eq_ok_iff.1 h).2)
  · obtain ⟨hmachine, hentries⟩ := step_of_not_running hm
    rw [Attempt.events, hmachine, hentries]
    exact .nil rfl rfl

/-- What any number of steps report tells what they do. -/
theorem replays_after (ht : m.config.tracing = true) (k : Nat) :
    Replays (m.events k) m (m.after k) := by
  induction k with
  | zero => exact .nil rfl rfl
  | succ k ih =>
    have htk : (m.after k).config.tracing = true := by rw [config_after, ht]
    rw [events_succ, after_succ]
    exact ih.append (replays_step htk)

/-- Let a machine that traces run under any watchdog, and take the events that a sink receives. The
output events are the bytes that the run has put out. The write events, which are all inside memory,
make the memory after the run of the one before it. And each start event shows the byte at its `pc`
in the memory that the write events before it make. -/
theorem trace_replays_run (ht : m.config.tracing = true) (watchdog : Watchdog) :
    ∃ events : List Event, ∀ {σ : Type} (sink : σ → Event → σ) (s : σ),
      let run := m.run (Entry.toSink sink) watchdog s
      run.observed = events.foldl sink s ∧
      run.machine.output.bytes.toList =
        m.output.bytes.toList ++ events.filterMap Event.output? ∧
      m.memory.replay events = .ok run.machine.memory ∧
      (∀ addr v, .write addr v ∈ events → addr.toNat < m.memory.size) ∧
      ∀ before pc raw rest, events = before ++ .start pc raw :: rest →
        ∃ memory, m.memory.replay before = .ok memory ∧ memory.bytes[pc.toNat]? = some raw := by
  refine ⟨m.events (m.span watchdog.allowance.toNat), fun {σ} sink s => ?_⟩
  intro run
  have hrun : run.machine = m.after (m.span watchdog.allowance.toNat) := machine_run _ m watchdog s
  obtain ⟨hout, hmem, hstart⟩ := replays_after ht (m.span watchdog.allowance.toNat)
  rw [hrun]
  exact ⟨observed_run_toSink sink m watchdog s, hout, hmem,
    fun addr v h => Memory.lt_size_of_replay hmem h, hstart⟩

/-- Stores an `OUT` over the first of two `HALT`s, and then runs into it. -/
def selfModifying : Machine where
  config := { tracing := true }
  regs := { a := 65, c := 2 }
  memory := ⟨#[0x78, 0x02, 0x01, 0x01]⟩

theorem trace_replays_run_selfModifying :
    selfModifying.config.tracing = true ∧
    ∃ events : List Event,
      let run := selfModifying.run (Entry.toSink fun es e => es ++ [e]) (.instructionBudget 9) []
      run.observed = events.foldl (fun es e => es ++ [e]) [] ∧
      run.observed =
        [.start 0 0x78, .write 2 0x02, .start 2 0x02, .output 65, .start 3 0x01, .halted 3] ∧
      run.machine.output.bytes.toList =
        selfModifying.output.bytes.toList ++ events.filterMap Event.output? ∧
      selfModifying.memory.replay events = .ok run.machine.memory ∧
      run.machine.memory = ⟨#[0x78, 0x02, 0x02, 0x01]⟩ := by
  obtain ⟨events, h⟩ := trace_replays_run (m := selfModifying) rfl (.instructionBudget 9)
  obtain ⟨hobserved, hout, hmem, -⟩ := h (fun es e => es ++ [e]) []
  exact ⟨rfl, events, hobserved, rfl, hout, hmem, rfl⟩

end Machine

end Tomtel
