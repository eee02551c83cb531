/-!
# Watchdogs

A watchdog bounds a run by the time it takes or by the number of instructions that retire.
`Watchdog.allowance` is the bound in instructions: the budget, or else the greatest count that a run
can report.
-/

namespace Tomtel

/-- A span of time in whole seconds and nanoseconds. -/
structure Duration where
  secs : UInt64
  nanos : UInt32
  nanos_lt : nanos < 1000000000 := by decide
  deriving DecidableEq, Repr

namespace Duration

def zero : Duration := ⟨0, 0, by decide⟩

def ofMillis (millis : UInt64) : Duration where
  secs := millis / 1000
  nanos := UInt32.ofNat (millis.toNat % 1000 * 1000000)
  nanos_lt := by
    have h := Nat.mod_lt millis.toNat (show 0 < 1000 by decide)
    rw [UInt32.lt_iff_toNat_lt, UInt32.toNat_ofNat', Nat.mod_eq_of_lt (by omega)]
    show _ < 1000000000
    omega

/-- The duration of `secs` seconds and any number of nanoseconds, if its whole seconds fit in 64
bits. -/
def ofParts? (secs : UInt64) (nanos : UInt32) : Option Duration :=
  let total := secs.toNat + nanos.toNat / 1000000000
  if total < UInt64.size then
    some {
      secs := UInt64.ofNat total
      nanos := nanos % 1000000000
      nanos_lt := by
        rw [UInt32.lt_iff_toNat_lt, UInt32.toNat_mod]
        exact Nat.mod_lt _ (by decide) }
  else none

def totalNanos (d : Duration) : Nat := d.secs.toNat * 1000000000 + d.nanos.toNat

section

variable {d e : Duration} {secs : UInt64} {nanos : UInt32}

theorem toNat_nanos_lt (d : Duration) : d.nanos.toNat < 1000000000 :=
  UInt32.lt_iff_toNat_lt.1 d.nanos_lt

theorem totalNanos_zero : zero.totalNanos = 0 := by decide

theorem totalNanos_inj : d.totalNanos = e.totalNanos ↔ d = e := by
  constructor
  · intro h
    have hd := d.toNat_nanos_lt
    have he := e.toNat_nanos_lt
    simp only [totalNanos] at h
    have hsecs : d.secs = e.secs := UInt64.toNat_inj.1 (by omega)
    have hnanos : d.nanos = e.nanos := UInt32.toNat_inj.1 (by omega)
    cases d
    cases e
    simp_all
  · rintro rfl
    rfl

theorem totalNanos_ofMillis (millis : UInt64) :
    (ofMillis millis).totalNanos = millis.toNat * 1000000 := by
  have hmod := Nat.mod_lt millis.toNat (show 0 < 1000 by decide)
  have hnanos : (ofMillis millis).nanos.toNat = millis.toNat % 1000 * 1000000 :=
    UInt32.toNat_ofNat_of_lt' (show _ < 2 ^ 32 by omega)
  have hsecs : (ofMillis millis).secs.toNat = millis.toNat / 1000 := UInt64.toNat_div millis 1000
  rw [totalNanos, hnanos, hsecs]
  omega

theorem ofParts?_eq_some_iff :
    ofParts? secs nanos = some d ↔ d.totalNanos = secs.toNat * 1000000000 + nanos.toNat := by
  have hd := d.toNat_nanos_lt
  have hsecs := d.secs.toNat_lt
  rw [ofParts?]
  split
  · rename_i hlt
    rw [Option.some.injEq, ← totalNanos_inj, eq_comm]
    have hcarried : (UInt64.ofNat (secs.toNat + nanos.toNat / 1000000000)).toNat =
        secs.toNat + nanos.toNat / 1000000000 := UInt64.toNat_ofNat_of_lt' hlt
    simp only [totalNanos, hcarried, UInt32.toNat_mod]
    show _ = _ * _ + nanos.toNat % 1000000000 ↔ _
    omega
  · rename_i hge
    have hge : 2 ^ 64 ≤ secs.toNat + nanos.toNat / 1000000000 := Nat.not_lt.1 hge
    simp only [totalNanos, reduceCtorEq, false_iff]
    omega

end

/-- `whole` with `places` decimals of `fraction`, less the zeros at the end. -/
def decimal (whole fraction places : Nat) : String :=
  let digits := fraction.repr.toList.leftpad places '0'
  let kept := (digits.reverse.dropWhile (· = '0')).reverse
  if kept.isEmpty then whole.repr else whole.repr ++ "." ++ String.ofList kept

/-- The duration in the largest unit of which it holds at least one. -/
def text (d : Duration) : String :=
  let nanos := d.nanos.toNat
  if 0 < d.secs then decimal d.secs.toNat nanos 9 ++ "s"
  else if 1000000 ≤ nanos then decimal (nanos / 1000000) (nanos % 1000000) 6 ++ "ms"
  else if 1000 ≤ nanos then decimal (nanos / 1000) (nanos % 1000) 3 ++ "µs"
  else nanos.repr ++ "ns"

end Duration

inductive Watchdog where
  /-- Stops a run that takes longer than `limit`. -/
  | wallClock (limit : Duration)
  /-- Stops a run once `count` instructions have retired. -/
  | instructionBudget (count : UInt64)
  | unbounded
  deriving DecidableEq, Repr

namespace Watchdog

def defaultTimeout : Duration := ⟨10, 0, by decide⟩

/-- What bounds a run when nothing else is said. -/
def default : Watchdog := .wallClock defaultTimeout

/-- Whether the bound is reached after `elapsed` time and `retired` instructions. -/
def expired (watchdog : Watchdog) (elapsed : Duration) (retired : UInt64) : Bool :=
  match watchdog with
  | .wallClock limit => limit.totalNanos < elapsed.totalNanos
  | .instructionBudget count => count ≤ retired
  | .unbounded => false

/-- How many instructions may retire in a run. -/
def allowance : Watchdog → UInt64
  | .instructionBudget count => count
  | .wallClock _ | .unbounded => 0xffffffffffffffff

def text : Watchdog → String
  | .wallClock limit => "WallClock(" ++ limit.text ++ ")"
  | .instructionBudget count => "InstructionBudget(" ++ count.toNat.repr ++ ")"
  | .unbounded => "Unbounded"

end Watchdog

end Tomtel
