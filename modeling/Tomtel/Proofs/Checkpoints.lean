import Mathlib.Data.Option.Basic
import Tomtel.Checkpoint.Machine
import Tomtel.Proofs.Sessions
import Tomtel.Proofs.Spelling

/-!
# Checkpoints of the machine are faithful

The spellings of each type that a machine is made of, up to the whole machine. A machine that has
been saved and restored is the machine it was, and goes on as that would: `checkpoint_faithful`.
-/

namespace Tomtel.Checkpoint

open Datum

/-! ### Registers -/

instance : Spelling RegisterFamily where
  Spells d
    | .byte => d.IsBare "Byte"
    | .wide => d.IsBare "Wide"
  restore?_eq_some_iff {d family} := by
    refine (restoreName?_eq_some_iff (by decide)).trans ?_
    cases family <;> simp
  spells_save family := by cases family <;> exact .inl rfl

instance : Spelling RegisterFile where
  Spells d regs := ∃ bytes words, d.IsStruct [("reg8", bytes), ("reg32", words)] ∧
    Spells bytes [regs.a, regs.b, regs.c, regs.d, regs.e, regs.f] ∧
    Spells words [regs.la, regs.lb, regs.lc, regs.ld, regs.ptr, regs.pc]
  restore?_eq_some_iff {d regs} := by
    refine struct?_bind_eq_some_iff.trans ?_
    simp only [List.length_cons, List.length_nil, exists_length_succ]
    constructor
    · rintro ⟨bytes, words, rest, hrest, hstruct, h⟩
      obtain rfl := List.eq_nil_of_length_eq_zero hrest
      obtain ⟨xs, hxs, h⟩ := Option.bind_eq_some_iff.1 h
      obtain ⟨ys, hys, h⟩ := Option.bind_eq_some_iff.1 h
      split at h
      · cases h
        exact ⟨bytes, words, hstruct, restore?_eq_some_iff.1 hxs, restore?_eq_some_iff.1 hys⟩
      · cases h
    · rintro ⟨bytes, words, hstruct, hbytes, hwords⟩
      refine ⟨bytes, words, [], rfl, hstruct, ?_⟩
      simp [restore?_eq_some_iff.2 hbytes, restore?_eq_some_iff.2 hwords]
  spells_save regs := ⟨_, _, isStruct_record (by simp), spells_save _, spells_save _⟩

/-! ### Faults -/

instance : Spelling Fault where
  Spells d
    | .unsupportedOpcode addr byte => ∃ payload a b, d = .variant "UnsupportedOpcode" payload ∧
        payload.HasFields [("addr", a), ("byte", b)] ∧ Spells a addr ∧ Spells b byte
    | .memoryOutOfBounds addr size => ∃ payload a n, d = .variant "MemoryOutOfBounds" payload ∧
        payload.HasFields [("addr", a), ("len", n)] ∧ Spells a addr ∧ Spells n size
    | .registerOutOfBounds family selector =>
      ∃ payload f s, d = .variant "RegisterOutOfBounds" payload ∧
        payload.HasFields [("family", f), ("selector", s)] ∧ Spells f family ∧ Spells s selector
  restore?_eq_some_iff {d fault} := by
    constructor
    · intro h
      obtain ⟨v, hv, h⟩ := Option.bind_eq_some_iff.1 h
      split at h
      case h_4 => cases h
      all_goals
        obtain ⟨payload, hpayload, h⟩ := Option.bind_eq_some_iff.1 h
        obtain ⟨x, y, hfields, _, _, hx, hy, rfl⟩ := record?_pair_eq_some_iff.1 h
        exact ⟨payload, x, y, eq_variant hv ‹_› hpayload, hfields, hx, hy⟩
    · cases fault <;> rintro ⟨payload, x, y, rfl, hfields, hx, hy⟩ <;>
        exact record?_pair_eq_some_iff.2 ⟨x, y, hfields, _, _, hx, hy, rfl⟩
  spells_save fault := by
    cases fault <;>
      exact ⟨_, _, _, rfl, hasFields_record (by simp), spells_save _, spells_save _⟩

/-! ### Configuration -/

instance : Spelling ImmediateLayout where
  Spells d
    | .littleEndian => d.IsBare "LittleEndian"
    | .legacyDuplicatedHighByte => d.IsBare "LegacyDuplicatedHighByte"
  restore?_eq_some_iff {d layout} := by
    refine (restoreName?_eq_some_iff (by decide)).trans ?_
    cases layout <;> simp
  spells_save layout := by cases layout <;> exact .inl rfl

theorem struct?_duration_eq_some_iff {d : Datum} {limit : Duration} :
    (do match ← d.struct? ["secs", "nanos"] with
      | [secs, nanos] => Duration.ofParts? (← restore? secs) (← restore? nanos)
      | _ => none) = some limit ↔
    ∃ secs nanos, d.IsStruct [("secs", secs), ("nanos", nanos)] ∧
      ∃ (s : UInt64) (n : UInt32), Spells secs s ∧ Spells nanos n ∧
        limit.totalNanos = s.toNat * 1000000000 + n.toNat := by
  refine struct?_bind_eq_some_iff.trans ?_
  simp [exists_length_succ, Option.bind_eq_some_iff, restore?_eq_some_iff,
    Duration.ofParts?_eq_some_iff]

instance : Spelling Duration where
  Spells d limit :=
    (∀ entries, d = .record entries → ∀ entry ∈ entries, entry.1 = "secs" ∨ entry.1 = "nanos") ∧
    ∃ secs nanos, d.IsStruct [("secs", secs), ("nanos", nanos)] ∧
      ∃ (s : UInt64) (n : UInt32), Spells secs s ∧ Spells nanos n ∧
        limit.totalNanos = s.toNat * 1000000000 + n.toNat
  restore?_eq_some_iff {d limit} := by
    rw [← struct?_duration_eq_some_iff]
    cases d with
    | record entries =>
      refine Option.bind_eq_some_iff.trans ⟨?_, ?_⟩
      · rintro ⟨_, hguard, h⟩
        rw [Option.guard_eq_some', List.all_eq_true] at hguard
        refine ⟨?_, h⟩
        rintro _ ⟨⟩ entry hentry
        exact of_decide_eq_true (hguard entry hentry)
      · rintro ⟨hnames, h⟩
        refine ⟨(), (Option.guard_eq_some' ()).2 (List.all_eq_true.2 ?_), h⟩
        exact fun entry hentry => decide_eq_true (hnames entries rfl entry hentry)
    | _ => exact (and_iff_right (by rintro _ ⟨⟩)).symm
  spells_save limit := by
    refine ⟨?_, _, _, isStruct_record (by simp), limit.secs, limit.nanos, spells_save _,
      spells_save _, rfl⟩
    rintro _ ⟨⟩
    simp

instance : Spelling Watchdog where
  Spells d
    | .wallClock limit => ∃ payload, d = .variant "WallClock" payload ∧ Spells payload limit
    | .instructionBudget count =>
      ∃ payload, d = .variant "InstructionBudget" payload ∧ Spells payload count
    | .unbounded => d.IsBare "Unbounded"
  restore?_eq_some_iff {d watchdog} := by
    constructor
    · intro h
      obtain ⟨v, hv, h⟩ := Option.bind_eq_some_iff.1 h
      split at h
      · obtain ⟨payload, limit, hpayload, hlimit, rfl⟩ := payload_bind_eq_some_iff.1 h
        exact ⟨payload, eq_variant hv ‹_› hpayload, hlimit⟩
      · obtain ⟨payload, count, hpayload, hcount, rfl⟩ := payload_bind_eq_some_iff.1 h
        exact ⟨payload, eq_variant hv ‹_› hpayload, hcount⟩
      · split_ifs at h with hbare
        cases h
        exact (isBare_iff hv ‹_›).1 hbare
      · cases h
    · intro h
      cases watchdog with
      | wallClock limit =>
        obtain ⟨payload, rfl, hlimit⟩ := h
        exact Option.bind_eq_some_iff.2 ⟨⟨"WallClock", some payload⟩, rfl,
          payload_bind_eq_some_iff.2 ⟨payload, limit, rfl, hlimit, rfl⟩⟩
      | instructionBudget count =>
        obtain ⟨payload, rfl, hcount⟩ := h
        exact Option.bind_eq_some_iff.2 ⟨⟨"InstructionBudget", some payload⟩, rfl,
          payload_bind_eq_some_iff.2 ⟨payload, count, rfl, hcount, rfl⟩⟩
      | unbounded => rcases h with rfl | rfl <;> rfl
  spells_save watchdog := by
    cases watchdog with
    | wallClock limit => exact ⟨_, rfl, spells_save limit⟩
    | instructionBudget count => exact ⟨_, rfl, spells_save count⟩
    | unbounded => exact .inl rfl

instance : Spelling Config where
  Spells d config := ∃ watchdog layout tracing,
    d.IsStruct [("watchdog", watchdog), ("immediate_layout", layout),
      ("tracing_enabled", tracing)] ∧
    Spells watchdog config.watchdog ∧ Spells layout config.layout ∧ Spells tracing config.tracing
  restore?_eq_some_iff {d config} := by
    refine struct?_bind_eq_some_iff.trans ?_
    cases config
    simp [-Bool.exists_bool, exists_length_succ, Option.bind_eq_some_iff, restore?_eq_some_iff]
  spells_save config :=
    ⟨_, _, _, isStruct_record (by simp), spells_save _, spells_save _, spells_save _⟩

/-! ### The machine -/

instance : Spelling RunState where
  Spells d
    | .running => d.IsBare "Running"
    | .halted => d.IsBare "Halted"
    | .faulted fault => ∃ payload, d = .variant "Faulted" payload ∧ Spells payload fault
  restore?_eq_some_iff {d state} := by
    constructor
    · intro h
      obtain ⟨v, hv, h⟩ := Option.bind_eq_some_iff.1 h
      split at h
      · split_ifs at h with hbare
        cases h
        exact (isBare_iff hv ‹_›).1 hbare
      · split_ifs at h with hbare
        cases h
        exact (isBare_iff hv ‹_›).1 hbare
      · obtain ⟨payload, fault, hpayload, hfault, rfl⟩ := payload_bind_eq_some_iff.1 h
        exact ⟨payload, eq_variant hv ‹_› hpayload, hfault⟩
      · cases h
    · intro h
      cases state with
      | running => rcases h with rfl | rfl <;> rfl
      | halted => rcases h with rfl | rfl <;> rfl
      | faulted fault =>
        obtain ⟨payload, rfl, hfault⟩ := h
        exact Option.bind_eq_some_iff.2 ⟨⟨"Faulted", some payload⟩, rfl,
          payload_bind_eq_some_iff.2 ⟨payload, fault, rfl, hfault, rfl⟩⟩
  spells_save state := by
    cases state with
    | running => exact .inl rfl
    | halted => exact .inl rfl
    | faulted fault => exact ⟨_, rfl, spells_save fault⟩

instance : Spelling Memory where
  Spells d memory := ∃ bytes, d.IsStruct [("bytes", bytes)] ∧ Spells bytes memory.bytes
  restore?_eq_some_iff {d memory} := by
    refine struct?_bind_eq_some_iff.trans ?_
    cases memory
    simp [exists_length_succ, Option.bind_eq_some_iff, restore?_eq_some_iff]
  spells_save memory := ⟨_, isStruct_record (by simp), spells_save _⟩

instance : Spelling Output where
  Spells d output := ∃ bytes, d.IsStruct [("bytes", bytes)] ∧ Spells bytes output.bytes
  restore?_eq_some_iff {d output} := by
    refine struct?_bind_eq_some_iff.trans ?_
    cases output
    simp [exists_length_succ, Option.bind_eq_some_iff, restore?_eq_some_iff]
  spells_save output := ⟨_, isStruct_record (by simp), spells_save _⟩

instance : Spelling Machine where
  Spells d m := ∃ config regs memory output state,
    d.IsStruct [("config", config), ("regs", regs), ("memory", memory), ("output", output),
      ("run_state", state)] ∧
    Spells config m.config ∧ Spells regs m.regs ∧ Spells memory m.memory ∧
    Spells output m.output ∧ Spells state m.state
  restore?_eq_some_iff {d m} := by
    refine struct?_bind_eq_some_iff.trans ?_
    cases m
    simp [exists_length_succ, Option.bind_eq_some_iff, restore?_eq_some_iff]
  spells_save m := ⟨_, _, _, _, _, isStruct_record (by simp), spells_save _, spells_save _,
    spells_save _, spells_save _, spells_save _⟩

/-- A machine that has been saved is restored as it was, so that whatever a host then does with it
has the answers and the effect that it would have had. What is accepted as a machine is exactly what
spells one, and the machine read from it is restored likewise when it is saved again. -/
theorem checkpoint_faithful :
    (∀ m : Machine, restore? (save m) = some m ∧
      ∀ {σ : Type} (rounds : Nat) (s : σ) (calls : List (Call σ)),
        (restore? (save m) >>= fun restored : Machine => restored.session rounds s calls) =
          m.session rounds s calls) ∧
    ∀ (d : Datum) (m : Machine), (restore? d = some m ↔ Spells d m) ∧
      (restore? d = some m → restore? (save m) = some m) := by
  refine ⟨fun m => ⟨restore?_save m, fun rounds s calls => ?_⟩,
    fun d m => ⟨restore?_eq_some_iff, fun _ => restore?_save m⟩⟩
  rw [restore?_save]
  rfl

/-- Lists for structs, a null behind a bare name, and fields out of order and among others. -/
example : restore? (.list [
      .record [("tracing_enabled", .bool true), ("watchdog", .variant "Unbounded" .null),
        ("comment", .null), ("immediate_layout", .text "LittleEndian")],
      .list [.list (.replicate 6 (.integer 0)), .list (.replicate 6 (.integer 1))],
      .list [.list [.integer 2, .integer 1]],
      .record [("bytes", .list [])],
      .variant "Running" .null]) =
    some {
      config := { watchdog := .unbounded, tracing := true }
      regs := ⟨0, 0, 0, 0, 0, 0, 1, 1, 1, 1, 1, 1⟩
      memory := ⟨#[2, 1]⟩ : Machine } := rfl

end Tomtel.Checkpoint
