import Tomtel.Proofs.Files
import Tomtel.Proofs.HostRun
import Tomtel.Proofs.Observation

/-!
# The `run` command from end to end

What `run` leaves behind in a world hangs on three answers: whether its image can be read, how the
run of the machine over it ends, and whether the output of that run can be written. The first
failure is the one that is reported, and the ending only once the output is written: `run_command`.
-/

namespace Tomtel

/-- Nothing is logged unless more than errors are asked for. -/
theorem Verbosity.logged_error (record : Record) : Verbosity.error.logged record = [] := rfl

namespace Notice

variable (logLine : Record → String) (path : Argument) (e : FileError) (fault : Fault)

theorem text_readImage : (failure (.readImage path e)).text logLine =
    "error: failed to read " ++ path.text ++ ": " ++ e.message ++ "\n" := by
  show "error: " ++ ("failed to read " ++ path.text ++ ": " ++ e.message) ++ "\n" = _
  simp only [← String.append_assoc, String.reduceAppend]

theorem text_writeOutput : (failure (.writeOutput e)).text logLine =
    "error: failed to write output: " ++ e.message ++ "\n" := by
  show "error: " ++ ("failed to write output: " ++ e.message) ++ "\n" = _
  simp only [← String.append_assoc, String.reduceAppend]

theorem text_fault : (failure (.fault fault)).text logLine =
    "error: execution aborted: " ++ fault.message ++ "\n" := by
  show "error: " ++ ("execution aborted: " ++ fault.message) ++ "\n" = _
  simp only [← String.append_assoc, String.reduceAppend]

end Notice

namespace RunRequest

/-- Of what is reported, the events are shown and nothing else. -/
theorem toList_foldl_watch (entries : List Entry) (notices : Array Notice) :
    (entries.foldl (watch .error) notices).toList =
      notices.toList ++ (entries.filterMap Entry.event?).map Notice.event := by
  induction entries generalizing notices with
  | nil => simp
  | cons entry entries ih =>
    cases entry with
    | event e => simp [ih, watch, Verbosity.notices, Entry.event?]
    | message message =>
      simp [ih, watch, Verbosity.notices, Verbosity.logged_error, Entry.event?,
        List.filterMap_cons]

theorem toList_observed_run (m : Machine) (watchdog : Watchdog) :
    (m.run (watch .error) watchdog #[]).observed.toList =
      (m.events (m.span watchdog.allowance.toNat)).map Notice.event := by
  have hmessages : ∀ messages : List Message,
      (messages.map Entry.message).filterMap Entry.event? = [] := by
    intro messages
    simp [List.filterMap_map, Function.comp_def, Entry.event?]
  rw [Machine.run_eq, Machine.observed_close, toList_foldl_watch, toList_foldl_watch, hmessages]
  simp [watch, Verbosity.notices, Verbosity.logged_error, Machine.events]

theorem observed_run_of_not_trace {request : RunRequest} (h : request.trace = false)
    (image : Array UInt8) (watchdog : Watchdog) :
    ((request.machine image).run (watch .error) watchdog #[]).observed = #[] := by
  rw [← Array.toList_inj, toList_observed_run, Machine.events_eq_nil h]
  rfl

end RunRequest

/-- The clock of a file table stands still, so that it does not end a run. -/
theorem FileTable.inTime (watchdog : Watchdog) (m : Machine) : world.InTime watchdog m := by
  refine world.inTime_of_le fun limit _ _ => ?_
  show Duration.zero.totalNanos ≤ limit.totalNanos
  rw [Duration.totalNanos_zero]
  exact Nat.zero_le limit.totalNanos

/-! ### Endings -/

/-- The exit status says how the run has ended. -/
theorem Run.code_verdict {σ : Type} (run : Run σ) :
    (run.verdict.1.code = 0 ↔ ∃ steps, run.result = .ok ⟨.halted, steps⟩) ∧
    (run.verdict.1.code = 2 ↔ ∃ steps, run.result = .ok ⟨.timedOut, steps⟩) ∧
    (run.verdict.1.code = 1 ↔ ∃ fault, run.result = .error fault) := by
  rw [verdict]
  rcases run.result with fault | ⟨completion, steps⟩
  · simp [ExitStatus.code]
  · cases completion <;> simp [ExitStatus.code]

namespace Report

open Argument (ofString)

variable {σ : Type} {world : World σ} {files : σ} {report : Report σ} {notice : Notice}
  {target : Option Argument} {run : Run (Array Notice)} {image : Array UInt8} {e : FileError}
  {verbosity : Verbosity} {request : RunRequest} {args : List Argument} {logLine : Record → String}

theorem stderrText_singleton (h : report.stderr = #[notice]) :
    report.stderrText logLine = notice.text logLine := by
  simp [stderrText, h]

/-- Nothing is said of a halt. A run that ends in another way leaves one line. -/
theorem stderrText_of_verdict (logLine : Record → String)
    (h : report.stderr = run.verdict.2.toArray) :
    (∀ steps, run.result = .ok ⟨.halted, steps⟩ → report.stderrText logLine = "") ∧
    (∀ steps, run.result = .ok ⟨.timedOut, steps⟩ →
      report.stderrText logLine = "warning: watchdog expired after " ++ steps.toNat.repr ++
        " instructions at pc 0x" ++ Hex.word run.machine.pc ++ "\n") ∧
    ∀ fault, run.result = .error fault →
      report.stderrText logLine = "error: execution aborted: " ++ fault.message ++ "\n" := by
  refine ⟨fun steps hr => ?_, fun steps hr => ?_, fun fault hr => ?_⟩
  · rw [Run.verdict, hr] at h
    rw [stderrText, h]
    rfl
  · rw [Run.verdict, hr] at h
    exact stderrText_singleton h
  · rw [Run.verdict, hr] at h
    exact (stderrText_singleton h).trans (Notice.text_fault logLine fault)

theorem ofArguments_of_parse (h : Request.parse args = .ok (.run request)) :
    ofArguments world verbosity files args = ofRunRequest world verbosity files request := by
  rw [ofArguments, Host.command, h]
  rfl

/-- A command that cannot read its image reports that, and has done nothing else. -/
theorem ofRunRequest_of_error (h : world.read files request.input = .error e) :
    ofRunRequest world verbosity files request =
      { files := files
        stderr := #[.failure (.readImage request.input e)]
        status := .failure } := by
  rw [ofRunRequest, ofAction, world.run_of_error h]
  rfl

/-- What is left behind once a run has been made. -/
def ofRun (world : World σ) (files : σ) (target : Option Argument) (run : Run (Array Notice)) :
    Report σ :=
  ofAction (world.host.finish target { run with observed := () })
    { files := files, stderr := run.observed }

theorem ofRunRequest_of_ok (h : world.read files request.input = .ok image)
    (htime : world.InTime request.watchdog (request.machine image)) :
    ofRunRequest world .error files request =
      ofRun world files request.output
        ((request.machine image).run (RunRequest.watch .error) request.watchdog #[]) := by
  rw [ofRunRequest, ofAction, world.run_of_ok h htime]
  rfl

section

variable (world files target run)

theorem ofRun_eq : ofRun world files target run =
    let ending := run.ending (world.answer files target run.machine.output.bytes)
    { world.delivered target run.machine.output.bytes { files := files } with
      stderr := run.observed ++ ending.2
      status := ending.1 } := by
  rw [ofRun, ofAction, world.finish_apply]
  cases target <;> rfl

theorem status_ofRun : (ofRun world files target run).status =
    (run.ending (world.answer files target run.machine.output.bytes)).1 := by
  rw [ofRun_eq]

/-- The ending is all that is told behind the run. -/
theorem stderr_ofRun : (ofRun world files target run).stderr = run.observed ++
    (run.ending (world.answer files target run.machine.output.bytes)).2 := by
  rw [ofRun_eq]

/-- Output goes to standard output or into one file. -/
theorem delivered_ofRun :
    (target = none → (ofRun world files target run).files = files ∧
      (ofRun world files target run).stdout = world.taken run.machine.output.bytes) ∧
    ∀ path, target = some path → (ofRun world files target run).stdout = #[] ∧
      (ofRun world files target run).files =
        (world.write files path run.machine.output.bytes).2 := by
  rw [ofRun_eq]
  refine ⟨?_, ?_⟩
  · rintro rfl
    exact ⟨rfl, Array.empty_append⟩
  · rintro path rfl
    exact ⟨rfl, rfl⟩

variable {world files target run} (hobserved : run.observed = #[])

include hobserved

/-- If the output of a run could not be written, no more than that is told. -/
theorem ofRun_of_error (logLine : Record → String)
    (h : world.answer files target run.machine.output.bytes = .error e) :
    (ofRun world files target run).status.code = 1 ∧
      (ofRun world files target run).stderrText logLine =
        "error: failed to write output: " ++ e.message ++ "\n" := by
  have hstatus := status_ofRun world files target run
  have hstderr := stderr_ofRun world files target run
  rw [h] at hstatus hstderr
  have hfailure : (ofRun world files target run).stderr = #[.failure (.writeOutput e)] := by
    rw [hstderr, hobserved]
    rfl
  exact ⟨congrArg ExitStatus.code hstatus,
    (stderrText_singleton hfailure).trans (Notice.text_writeOutput logLine e)⟩

/-- Once the output of a run is written, its ending is all that is told. -/
theorem ofRun_of_ok (h : world.answer files target run.machine.output.bytes = .ok ()) :
    (ofRun world files target run).status = run.verdict.1 ∧
      (ofRun world files target run).stderr = run.verdict.2.toArray := by
  have hstatus := status_ofRun world files target run
  have hstderr := stderr_ofRun world files target run
  rw [h] at hstatus hstderr
  refine ⟨hstatus, ?_⟩
  rw [hstderr, hobserved]
  simp [Run.ending]

end

/-- Without a trace, the report is that of the run, whoever watches it. -/
theorem exists_ofRun (hread : world.read files request.input = .ok image)
    (htime : world.InTime request.watchdog (request.machine image))
    (htrace : request.trace = false) {τ : Type} (observe : τ → Entry → τ) (s : τ) :
    ∃ watched, ofRunRequest world .error files request =
        ofRun world files request.output watched ∧
      watched.observed = #[] ∧
      watched.machine = ((request.machine image).run observe request.watchdog s).machine ∧
      watched.result = ((request.machine image).run observe request.watchdog s).result := by
  refine ⟨(request.machine image).run (RunRequest.watch .error) request.watchdog #[],
    ofRunRequest_of_ok hread htime,
    RunRequest.observed_run_of_not_trace htrace image request.watchdog, ?_, ?_⟩
  · rw [Machine.machine_run, Machine.machine_run]
  · rw [Machine.result_run, Machine.result_run]

/-- Let a command line be a request to run without a trace, and let nothing be logged but errors. If
the image cannot be read, that is all that is reported, and no file has changed. If it can, and the
clock does not end the run, consider the run of the machine over it under the watchdog asked for; by
whatever clock the machine is run, it ends so, unless the clock ends it. However the run has ended,
its output is written, to the file asked for or else to standard output. If that fails, the failure
is all that is reported. If it succeeds, standard output has taken all of the output, or the file
holds it where files are read and written whole, and the exit status says how the run has ended: 0
if it has halted, with nothing else to say, 2 with a warning if it has expired, and 1 with the fault
if it has faulted. -/
theorem run_command (world : World σ) (files : σ) (logLine : Record → String)
    (hparse : Request.parse args = .ok (.run request)) (htrace : request.trace = false) :
    let report := ofArguments world .error files args
    let code := report.status.code
    let text := report.stderrText logLine
    (∀ e, world.read files request.input = .error e →
      code = 1 ∧ report.stdout = #[] ∧ report.files = files ∧
      text = "error: failed to read " ++ request.input.text ++ ": " ++ e.message ++ "\n") ∧
    ∀ image, world.read files request.input = .ok image →
      world.InTime request.watchdog (request.machine image) →
      ∀ {τ : Type} (observe : τ → Entry → τ) (s : τ),
      let m := request.machine image
      let run := m.run observe request.watchdog s
      let bytes := run.machine.output.bytes
      (∀ clock rounds timed, m.timedRun observe request.watchdog clock rounds s = some timed →
        rounds < UInt64.size →
        (∀ limit steps, request.watchdog = .wallClock limit →
          timed.result ≠ .ok ⟨.timedOut, steps⟩) → timed = run) ∧
      (request.output = none → report.files = files ∧ report.stdout = world.taken bytes) ∧
      (∀ path, request.output = some path →
        report.stdout = #[] ∧ report.files = (world.write files path bytes).2) ∧
      (∀ e, world.answer files request.output bytes = .error e →
        code = 1 ∧ text = "error: failed to write output: " ++ e.message ++ "\n") ∧
      (world.answer files request.output bytes = .ok () →
        (request.output = none → report.stdout = bytes) ∧
        (∀ path Same, request.output = some path → world.KeepsFiles Same →
          world.read report.files path = .ok bytes ∧
          ∀ other, ¬ Same files path other →
            world.read report.files other = world.read files other) ∧
        (code = 0 ↔ ∃ steps, run.result = .ok ⟨.halted, steps⟩) ∧
        (code = 2 ↔ ∃ steps, run.result = .ok ⟨.timedOut, steps⟩) ∧
        (code = 1 ↔ ∃ fault, run.result = .error fault) ∧
        (∀ steps, run.result = .ok ⟨.halted, steps⟩ → text = "") ∧
        (∀ steps, run.result = .ok ⟨.timedOut, steps⟩ →
          text = "warning: watchdog expired after " ++ steps.toNat.repr ++
            " instructions at pc 0x" ++ Hex.word run.machine.pc ++ "\n") ∧
        ∀ fault, run.result = .error fault →
          text = "error: execution aborted: " ++ fault.message ++ "\n") := by
  intro report code text
  have hreport : report = ofRunRequest world .error files request := ofArguments_of_parse hparse
  refine ⟨fun e hread => ?_, fun image hread htime => ?_⟩
  · rw [ofRunRequest_of_error hread] at hreport
    have htext : text = _ := stderrText_singleton (congrArg (·.stderr) hreport)
    exact ⟨congrArg (·.status.code) hreport, congrArg (·.stdout) hreport,
      congrArg (·.files) hreport, htext.trans (Notice.text_readImage ..)⟩
  · intro τ observe s m run bytes
    obtain ⟨watched, hended, hobserved, hmachine, hresult⟩ :=
      exists_ofRun hread htime htrace observe s
    have hbytes : watched.machine.output.bytes = bytes := by rw [hmachine]
    rw [hended] at hreport
    obtain ⟨hnone, hsome⟩ := delivered_ofRun world files request.output watched
    rw [← hreport, hbytes] at hnone hsome
    refine ⟨fun clock rounds timed h hr hclock => Machine.eq_run_of_timedRun observe h hr hclock,
      hnone, hsome, fun e hanswer => ?_, fun hanswer => ?_⟩
    · rw [← hbytes] at hanswer
      obtain ⟨hcode, htext⟩ := ofRun_of_error hobserved logLine hanswer
      rw [← hreport] at hcode htext
      exact ⟨hcode, htext⟩
    · have hprinted : request.output = none → report.stdout = bytes := by
        intro houtput
        rw [houtput] at hanswer
        exact (hnone houtput).2.trans (world.taken_of_answer hanswer)
      have hwritten : ∀ path Same, request.output = some path → world.KeepsFiles Same →
          world.read report.files path = .ok bytes ∧
          ∀ other, ¬ Same files path other →
            world.read report.files other = world.read files other := by
        intro path Same houtput hkeeps
        rw [houtput] at hanswer
        rw [(hsome path houtput).2]
        exact hkeeps.of_answer hanswer
      rw [← hbytes] at hanswer
      obtain ⟨hstatus, hstderr⟩ := ofRun_of_ok hobserved hanswer
      rw [← hreport] at hstatus hstderr
      have hcode : code = watched.verdict.1.code := congrArg ExitStatus.code hstatus
      obtain ⟨hzero, htwo, hone⟩ := watched.code_verdict
      obtain ⟨hhalted, htimed, hfault⟩ := stderrText_of_verdict logLine hstderr
      rw [hresult, ← hcode] at hzero htwo hone
      rw [hmachine] at htimed
      rw [hresult] at hhalted htimed hfault
      exact ⟨hprinted, hwritten, hzero, htwo, hone, hhalted, htimed, hfault⟩

/-- Asks to run `/images/a` with its output to a file. -/
def runTo (output : String) : List Argument :=
  ["run", "/images/a", "-o", output].map ofString

def runToRequest (output : String) : RunRequest where
  input := ofString "/images/a"
  output := some (ofString output)

/-- `/images/a` puts out a byte and then runs off its image. Nothing can be written to `/locked`. -/
def offImage : FileTable where
  files := [(ofString "/images/a", #[0x48, 0x41, 0x02])]
  barred := [(ofString "/locked", .other "Permission denied (os error 13)")]

theorem run_command_offImage :
    let world := FileTable.world
    let input := ofString "/images/a"
    let denied := FileError.other "Permission denied (os error 13)"
    let report := ofArguments world .error offImage (runTo "/out")
    let refused := ofArguments world .error offImage (runTo "/locked")
    let missing := ofArguments world .error {} (runTo "/out")
    Request.parse (runTo "/out") = .ok (.run (runToRequest "/out")) ∧
    Request.parse (runTo "/locked") = .ok (.run (runToRequest "/locked")) ∧
    (runToRequest "/out").trace = false ∧ (runToRequest "/locked").trace = false ∧
    world.read offImage input = .ok #[0x48, 0x41, 0x02] ∧
    world.InTime .default ((runToRequest "/out").machine #[0x48, 0x41, 0x02]) ∧
    world.answer offImage (runToRequest "/out").output #[0x41] = .ok () ∧
    report.status.code = 1 ∧ report.stdout = #[] ∧
    world.read report.files (ofString "/out") = .ok #[0x41] ∧
    world.read report.files input = .ok #[0x48, 0x41, 0x02] ∧
    report.stderrText Record.message =
      "error: execution aborted: " ++ (Fault.memoryOutOfBounds 3 3).message ++ "\n" ∧
    world.answer offImage (runToRequest "/locked").output #[0x41] = .error denied ∧
    refused.status.code = 1 ∧ refused.files = offImage ∧
    refused.stderrText Record.message =
      "error: failed to write output: " ++ denied.message ++ "\n" ∧
    world.read {} input = .error .notFound ∧ missing.status.code = 1 ∧ missing.files = {} := by
  intro world input denied
  have hread : world.read offImage input = .ok #[0x48, 0x41, 0x02] := rfl
  have hresult : (((runToRequest "/out").machine #[0x48, 0x41, 0x02]).run (fun (_ : Unit) _ => ())
      .default ()).result = .error (.memoryOutOfBounds 3 3) := rfl
  have hmissing : world.read {} input = .error .notFound := rfl
  have hanswer : world.answer offImage (runToRequest "/out").output #[0x41] = .ok () := rfl
  have hdenied : world.answer offImage (runToRequest "/locked").output #[0x41] =
      .error denied := rfl
  have hparse : Request.parse (runTo "/out") = .ok (.run (runToRequest "/out")) := rfl
  have hparse' : Request.parse (runTo "/locked") = .ok (.run (runToRequest "/locked")) := rfl
  obtain ⟨-, hrun⟩ := run_command world offImage Record.message hparse rfl
  obtain ⟨-, -, houtput, -, hended⟩ :=
    hrun _ hread (FileTable.inTime _ _) (fun (_ : Unit) _ => ()) ()
  obtain ⟨-, hwritten, -, -, hone, -, -, hfault⟩ := hended hanswer
  obtain ⟨hcontent, hothers⟩ := hwritten _ _ rfl FileTable.keepsFiles
  obtain ⟨-, hrun'⟩ := run_command world offImage Record.message hparse' rfl
  obtain ⟨-, -, hkept, hrefused, -⟩ :=
    hrun' _ hread (FileTable.inTime _ _) (fun (_ : Unit) _ => ()) ()
  obtain ⟨hcode, htext⟩ := hrefused _ hdenied
  obtain ⟨hunread, -⟩ := run_command world {} Record.message hparse rfl
  obtain ⟨hcode', -, hfiles, -⟩ := hunread _ hmissing
  exact ⟨hparse, hparse', rfl, rfl, hread, FileTable.inTime _ _, hanswer, hone.2 ⟨_, hresult⟩,
    (houtput _ rfl).1, hcontent, (hothers input (by decide)).trans hread, hfault _ hresult, hdenied,
    hcode, (hkept _ rfl).2, htext, hmissing, hcode', hfiles⟩

end Report

end Tomtel
