import Tomtel.CommandLine.Command

/-!
# What a command leaves behind

A `World` says what becomes of the files and of standard output when a command reads and writes, and
what its clock shows. Every world is a host, on which a command leaves a `Report`: its exit status,
what it wrote to standard output and standard error, and the files behind it.
-/

namespace Tomtel

/-- Files in states `σ`, a standard output and a clock. -/
structure World (σ : Type) where
  read : σ → Argument → Except FileError (Array UInt8)
  /-- The answer to a write, and the files behind it even if it has failed. -/
  write : σ → Argument → Array UInt8 → Except FileError Unit × σ
  /-- Standard output takes all the bytes, or it takes some and says why not the others. -/
  print : Array UInt8 → Except (FileError × Array UInt8) Unit
  /-- What the clock of a run shows, by the number of instructions that have retired. -/
  clock : UInt64 → Duration

/-- What a command has done so far. -/
structure Effects (σ : Type) where
  files : σ
  stdout : Array UInt8 := #[]
  stderr : Array Notice := #[]

namespace World

variable {σ : Type} (world : World σ)

/-- The world by another clock. -/
def withClock (clock : UInt64 → Duration) : World σ := { world with clock := clock }

/-- The part of the bytes that standard output takes. -/
def taken (bytes : Array UInt8) : Array UInt8 :=
  match world.print bytes with
  | .ok () => bytes
  | .error (_, taken) => taken

/-- A command acts on a world by its effects. -/
def host : Host (StateM (Effects σ)) where
  read path effects := (world.read effects.files path, effects)
  write path bytes effects :=
    let (answer, files) := world.write effects.files path bytes
    (answer, { effects with files := files })
  print bytes effects :=
    ((world.print bytes).mapError Prod.fst,
      { effects with stdout := effects.stdout ++ world.taken bytes })
  tell notice effects := ((), { effects with stderr := effects.stderr.push notice })
  startClock := pure ()
  elapsed steps := pure (world.clock steps)

/-- The answer to bytes that are written to a file, or to standard output if none is named. -/
def answer (files : σ) (target : Option Argument) (bytes : Array UInt8) : Except FileError Unit :=
  match target with
  | none => (world.print bytes).mapError Prod.fst
  | some path => (world.write files path bytes).1

/-- The effects behind bytes that are written so. -/
def delivered (target : Option Argument) (bytes : Array UInt8) (effects : Effects σ) : Effects σ :=
  match target with
  | none => { effects with stdout := effects.stdout ++ world.taken bytes }
  | some path => { effects with files := (world.write effects.files path bytes).2 }

section

variable {effects : Effects σ} {verbosity : Verbosity} {image : Array UInt8} {e : FileError}

theorem taken_of_answer {files : σ} {bytes : Array UInt8}
    (h : world.answer files none bytes = .ok ()) : world.taken bytes = bytes := by
  rw [answer] at h
  rw [taken]
  cases hprint : world.print bytes with
  | error refusal =>
    rw [hprint] at h
    cases h
  | ok => rfl

/-- An action goes on with the effects of the one before it. -/
theorem bind_apply {α β : Type} (first : StateM (Effects σ) α) (next : α → StateM (Effects σ) β)
    (effects : Effects σ) : (first >>= next) effects = next (first effects).1 (first effects).2 :=
  rfl

theorem read_apply (path : Argument) (effects : Effects σ) :
    world.host.read path effects = (world.read effects.files path, effects) := rfl

theorem deliver_apply (target : Option Argument) (bytes : Array UInt8) (effects : Effects σ) :
    world.host.deliver target bytes effects =
      (world.answer effects.files target bytes, world.delivered target bytes effects) := by
  cases target <;> rfl

theorem tellAll_apply (notices : List Notice) (effects : Effects σ) :
    world.host.tellAll notices effects =
      ((), { effects with stderr := effects.stderr ++ notices }) := by
  induction notices generalizing effects with
  | nil => rfl
  | cons notice notices ih =>
    have hcons : world.host.tellAll (notice :: notices) effects =
        world.host.tellAll notices { effects with stderr := effects.stderr.push notice } := rfl
    rw [hcons, ih, Array.appendList_cons]

theorem tellEntry_apply (verbosity : Verbosity) (entry : Entry) (effects : Effects σ) :
    world.host.tellEntry verbosity entry effects =
      ((), { effects with stderr := RunRequest.watch verbosity effects.stderr entry }) :=
  world.tellAll_apply _ effects

theorem finish_apply (target : Option Argument) (run : Run Unit) (effects : Effects σ) :
    let bytes := run.machine.output.bytes
    let ending := run.ending (world.answer effects.files target bytes)
    let left := world.delivered target bytes effects
    world.host.finish target run effects =
      (ending.1, { left with stderr := left.stderr ++ ending.2 }) := by
  intro bytes ending left
  rw [Host.finish, bind_apply, deliver_apply]
  show (do
      world.host.tellAll ending.2
      return ending.1 : StateM (Effects σ) ExitStatus) left = _
  rw [bind_apply, tellAll_apply]
  rfl

theorem run_of_error {request : RunRequest}
    (h : world.read effects.files request.input = .error e) :
    world.host.run verbosity request effects =
      (.failure, { effects with
        stderr := effects.stderr.push (.failure (.readImage request.input e)) }) := by
  rw [Host.run, bind_apply, read_apply, h]
  rfl

theorem disasm_of_ok {request : DisasmRequest}
    (h : world.read effects.files request.input = .ok image) :
    let loaded := verbosity.logged (.loaded image.size.toUInt64 request.input)
    let bytes := (request.listingText image).toUTF8.data
    let left := world.delivered none bytes { effects with stderr := effects.stderr ++ loaded }
    world.host.disasm verbosity request effects =
      match world.answer effects.files none bytes with
      | .error e => world.host.fail (.writeOutput e) left
      | .ok () => (.success, left) := by
  intro loaded bytes left
  rw [Host.disasm, bind_apply, read_apply, h]
  show (do
      world.host.tellAll loaded
      match ← world.host.deliver none bytes with
      | .error e => world.host.fail (.writeOutput e)
      | .ok () => return .success : StateM (Effects σ) ExitStatus) effects = _
  rw [bind_apply, tellAll_apply, bind_apply, deliver_apply]
  cases world.answer effects.files none bytes <;> rfl

/-- A listing is shown as a whole unless the command fails. -/
theorem stdout_disasm {request : DisasmRequest}
    (h : world.read effects.files request.input = .ok image)
    (hstatus : (world.host.disasm verbosity request effects).1 = .success) :
    (world.host.disasm verbosity request effects).2.stdout =
      effects.stdout ++ (request.listingText image).toUTF8.data := by
  rw [world.disasm_of_ok h] at hstatus ⊢
  cases hanswer : world.answer effects.files none (request.listingText image).toUTF8.data with
  | error e =>
    rw [hanswer] at hstatus
    cases hstatus
  | ok => exact congrArg (effects.stdout ++ ·) (world.taken_of_answer hanswer)

end

end World

/-- What a command leaves behind. -/
structure Report (σ : Type) extends Effects σ where
  status : ExitStatus

namespace Report

variable {σ : Type}

/-- What an action leaves behind, started on these effects. -/
def ofAction (action : StateM (Effects σ) ExitStatus) (effects : Effects σ) : Report σ :=
  let (status, effects) := action effects
  { effects with status := status }

variable (world : World σ) (verbosity : Verbosity) (files : σ)

def ofRunRequest (request : RunRequest) : Report σ :=
  ofAction (world.host.run verbosity request) { files := files }

def ofDisasmRequest (request : DisasmRequest) : Report σ :=
  ofAction (world.host.disasm verbosity request) { files := files }

def ofArguments (args : List Argument) : Report σ :=
  ofAction (world.host.command verbosity args) { files := files }

/-- Standard error as text. -/
def stderrText (logLine : Record → String) (report : Report σ) : String :=
  report.stderr.foldl (fun text notice => text ++ notice.text logLine) ""

end Report

end Tomtel
