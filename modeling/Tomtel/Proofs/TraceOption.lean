import Tomtel.Proofs.Rows
import Tomtel.Proofs.RunCommand
import Tomtel.Proofs.RunGrammar

/-!
# The trace option

A run with a trace takes the course of the run without, so that the two commands read, deliver and
end alike. All that the option adds to what is told is a line for each event of the run, in front of
the rest: `trace_adds_lines`.
-/

namespace Tomtel

open Argument (ofString)

/-! ### The text of an event -/

theorem exists_digitChar_of_mem_toDigits {base n : Nat} {c : Char} (hbase : 1 < base)
    (h : c ∈ Nat.toDigits base n) : ∃ d, c = Nat.digitChar d := by
  induction n using Nat.strongRecOn with
  | ind n ih =>
    rw [Nat.toDigits_eq_if hbase] at h
    split_ifs at h with hn
    · exact ⟨n, List.mem_singleton.1 h⟩
    · rcases List.mem_append.1 h with h | h
      · exact ih (n / base) (Nat.div_lt_self (by omega) hbase) h
      · exact ⟨n % base, List.mem_singleton.1 h⟩

theorem newline_notMem_toDigits {base : Nat} (hbase : 1 < base) (n : Nat) :
    '\n' ∉ Nat.toDigits base n := by
  intro h
  obtain ⟨d, hd⟩ := exists_digitChar_of_mem_toDigits hbase h
  simp at hd

namespace Hex

theorem newline_notMem_minimal (n : Nat) : '\n' ∉ (minimal n).toList := by
  rw [minimal, String.toList_ofList]
  exact newline_notMem_toDigits (by decide) n

theorem newline_notMem_byte (b : UInt8) : '\n' ∉ (byte b).toList := by
  rw [byte, padded, String.toList_ofList]
  exact newline_notMem_digits 2 b.toNat

theorem newline_notMem_word (w : UInt32) : '\n' ∉ (word w).toList := by
  rw [word, padded, String.toList_ofList]
  exact newline_notMem_digits 8 w.toNat

end Hex

theorem Fault.newline_notMem_message (fault : Fault) : '\n' ∉ fault.message.toList := by
  cases fault with
  | unsupportedOpcode addr byte =>
    show '\n' ∉ ("unsupported opcode 0x" ++ Hex.byte byte ++ " at address 0x" ++
      Hex.word addr).toList
    simp [Hex.newline_notMem_byte, Hex.newline_notMem_word]
  | memoryOutOfBounds addr size =>
    show '\n' ∉ ("memory access at 0x" ++ Hex.minimal addr.toNat ++ " outside " ++
      size.toNat.repr ++ "-byte image").toList
    simp [Hex.newline_notMem_minimal, newline_notMem_toDigits]
  | registerOutOfBounds family selector =>
    have hname : '\n' ∉ family.name.toList := by cases family <;> decide
    show '\n' ∉ ("register selector " ++ selector.toNat.repr ++ " is invalid for " ++
      family.name ++ " registers").toList
    simp [hname, newline_notMem_toDigits]

/-- The text of an event is one line. -/
theorem Event.newline_notMem_text (e : Event) : '\n' ∉ e.text.toList := by
  cases e <;>
    simp [text, Hex.newline_notMem_byte, Hex.newline_notMem_word, Hex.newline_notMem_minimal,
      Fault.newline_notMem_message]

/-! ### One more option -/

theorem RunGroup.Asks.insert_trace {groups groups' : List RunGroup} {request : RunRequest}
    (h : Asks (groups ++ groups') request) :
    Asks (groups ++ .trace :: groups') { request with trace := true } where
  help := by simpa using h.help
  complete := by
    intro group hgroup
    rcases List.mem_append.1 hgroup with hmem | hmem
    · exact h.complete group (List.mem_append_left _ hmem)
    · rcases List.mem_cons.1 hmem with rfl | hmem
      · trivial
      · exact h.complete group (List.mem_append_right _ hmem)
  input := by simpa [positional?, List.filterMap_cons] using h.input
  dash := h.dash
  bounds := by simpa [bound?, List.filterMap_cons] using h.bounds
  output := by simpa [path?, List.filterMap_cons] using h.output
  legacy := by simpa using h.legacy
  trace := by simp

namespace RunRequest

open RunGroup

variable {before after : List Argument} {request : RunRequest}

/-- A trace may also be asked for between any two groups of an accepted line. -/
theorem parse_insert_trace (hparse : parse (before ++ after) = .ok request)
    (hcut : ∀ group ∈ ofArguments before, group.IsComplete) :
    parse (before ++ ofString "--trace" :: after) = .ok { request with trace := true } := by
  have hbefore := grouping_ofArguments before
  have hafter := grouping_ofArguments after
  have hline := grouping_iff.1 (hbefore.append hcut hafter)
  have htraced := grouping_iff.1 (hbefore.append hcut hafter.trace)
  rw [parse_eq_ok_iff, ← hline] at hparse
  rw [parse_eq_ok_iff, ← htraced]
  exact hparse.insert_trace

end RunRequest

theorem Request.parse_run_eq_ok_iff {args : List Argument} {request : RunRequest} :
    parse (ofString "run" :: args) = .ok (.run request) ↔ RunRequest.parse args = .ok request := by
  show ofReading .run (RunRequest.parse args) = .ok (.run request) ↔ _
  rcases RunRequest.parse args with (_ | _) | _ <;> simp [ofReading]

/-! ### Reports -/

namespace Report

variable {σ : Type} {world : World σ} {clock : UInt64 → Duration} {files : σ}
  {target : Option Argument} {run traced : Run (Array Notice)} {on : Bool}
  {logLine : Record → String}

theorem stderrText_eq_join (report : Report σ) :
    report.stderrText logLine =
      String.join (report.stderr.toList.map fun notice => notice.text logLine) := by
  rw [stderrText, ← Array.foldl_toList, String.join, List.foldl_map]

/-- Once a run has been made, nobody looks at the clock. -/
theorem ofRun_withClock (world : World σ) (clock : UInt64 → Duration) (files : σ)
    (target : Option Argument) (run : Run (Array Notice)) :
    ofRun (world.withClock clock) files target run = ofRun world files target run := by
  rw [ofRun_eq, ofRun_eq]
  rfl

/-- If a run has told nothing, what the same run with a trace has told comes before the rest of the
report, and that is all the difference. -/
theorem ofRun_setTracing (hmachine : traced.machine = run.machine.setTracing on)
    (hresult : traced.result = run.result) (hobserved : run.observed = #[]) :
    ofRun world files target traced =
      { ofRun world files target run with
        stderr := traced.observed ++ (ofRun world files target run).stderr } := by
  have houtput : traced.machine.output = run.machine.output := by
    rw [hmachine]
    rfl
  have hverdict : traced.verdict = run.verdict := by
    rw [Run.verdict, Run.verdict, hresult, hmachine]
    rfl
  have hending : traced.ending = run.ending := by
    funext answer
    cases answer with
    | error e => rfl
    | ok => exact hverdict
  have hnotices (notices : List Notice) :
      traced.observed ++ notices = traced.observed ++ (run.observed ++ notices) := by
    rw [hobserved, ← Array.toList_inj]
    simp
  rw [ofRun_eq, ofRun_eq, houtput, hending]
  simp only [hnotices]

variable {before after : List Argument} {request : RunRequest} {image : Array UInt8} {e : FileError}

theorem ofRunRequest_trace_of_error (h : world.read files request.input = .error e) :
    ofRunRequest (world.withClock clock) .error files { request with trace := true } =
      ofRunRequest world .error files request := by
  rw [ofRunRequest_of_error h]
  exact ofRunRequest_of_error h

/-- The events of the run come in front. -/
theorem ofRunRequest_trace (h : world.read files request.input = .ok image)
    (htime : world.InTime request.watchdog (request.machine image))
    (htime' : (world.withClock clock).InTime request.watchdog
      ((request.machine image).setTracing true)) (htrace : request.trace = false) :
    let m := (request.machine image).setTracing true
    let events := m.events (m.span request.watchdog.allowance.toNat)
    ofRunRequest (world.withClock clock) .error files { request with trace := true } =
      { ofRunRequest world .error files request with
        stderr := (events.map Notice.event).toArray ++
          (ofRunRequest world .error files request).stderr } := by
  intro m events
  have hobserved : (m.run (RunRequest.watch .error) request.watchdog #[]).observed =
      (events.map Notice.event).toArray := by
    rw [← Array.toList_inj]
    exact RunRequest.toList_observed_run m request.watchdog
  obtain ⟨hresult, hmachine⟩ := (request.machine image).run_setTracing true
    (RunRequest.watch .error) (RunRequest.watch .error) #[] #[] request.watchdog
  have hquiet := RunRequest.observed_run_of_not_trace htrace image request.watchdog
  rw [ofRunRequest_of_ok h htime, ← hobserved, ← ofRun_setTracing hmachine hresult hquiet,
    ← ofRun_withClock world clock]
  exact ofRunRequest_of_ok h htime'

theorem stderrText_ofRunRequest_trace (logLine : Record → String)
    (h : world.read files request.input = .ok image)
    (htime : world.InTime request.watchdog (request.machine image))
    (htime' : (world.withClock clock).InTime request.watchdog
      ((request.machine image).setTracing true)) (htrace : request.trace = false) :
    let m := (request.machine image).setTracing true
    let events := m.events (m.span request.watchdog.allowance.toNat)
    (ofRunRequest (world.withClock clock) .error files
        { request with trace := true }).stderrText logLine =
      String.join (events.map fun e => e.text ++ "\n") ++
        (ofRunRequest world .error files request).stderrText logLine := by
  intro m events
  have hlines : (events.map Notice.event).map (fun notice => notice.text logLine) =
      events.map fun e => e.text ++ "\n" := by
    rw [List.map_map]
    rfl
  rw [ofRunRequest_trace h htime htime' htrace, stderrText_eq_join, stderrText_eq_join,
    Array.toList_append, List.map_append, hlines, String.join_append]

/-- Let a command line be a request to run without a trace, let nothing be logged but errors, and
let the option for a trace be put somewhere between the groups of the line. The two commands may be
run by different clocks, but neither of these ends its run. Then in any world the command with the
option ends as the other, with the same on standard output and the same files. If the image cannot
be read, it reports the same as well. If it can, standard error has a line for each event of the run
with tracing, in order, and then what the other command has there. By whatever clock the machine is
run, traced or not, it ends so, unless the clock ends it. -/
theorem trace_adds_lines (world : World σ) (clock : UInt64 → Duration) (files : σ)
    (logLine : Record → String)
    (hparse : Request.parse (ofString "run" :: (before ++ after)) = .ok (.run request))
    (htrace : request.trace = false)
    (hcut : ∀ group ∈ RunGroup.ofArguments before, group.IsComplete)
    (htime : ∀ image, world.read files request.input = .ok image →
      let m := request.machine image
      world.InTime request.watchdog m ∧
        (world.withClock clock).InTime request.watchdog (m.setTracing true)) :
    let report := ofArguments world .error files (ofString "run" :: (before ++ after))
    let traced := ofArguments (world.withClock clock) .error files
      (ofString "run" :: (before ++ ofString "--trace" :: after))
    traced.status = report.status ∧ traced.stdout = report.stdout ∧ traced.files = report.files ∧
    (∀ e, world.read files request.input = .error e →
      traced.stderrText logLine = report.stderrText logLine) ∧
    ∀ image, world.read files request.input = .ok image →
      let m := request.machine image
      ∃ events : List Event,
        (∀ {τ : Type} (sink : τ → Event → τ) (s : τ),
          ((m.setTracing true).run (Entry.toSink sink) request.watchdog s).observed =
            events.foldl sink s) ∧
        (∀ e ∈ events, '\n' ∉ e.text.toList) ∧
        traced.stderrText logLine =
          String.join (events.map fun e => e.text ++ "\n") ++ report.stderrText logLine ∧
        ∀ (on : Bool) {τ : Type} (observe : τ → Entry → τ) (s : τ) clock rounds timed,
          (m.setTracing on).timedRun observe request.watchdog clock rounds s = some timed →
          rounds < UInt64.size →
          (∀ limit steps, request.watchdog = .wallClock limit →
            timed.result ≠ .ok ⟨.timedOut, steps⟩) →
          timed = (m.setTracing on).run observe request.watchdog s := by
  intro report traced
  have hreport : report = ofRunRequest world .error files request := ofArguments_of_parse hparse
  have htraced : traced =
      ofRunRequest (world.withClock clock) .error files { request with trace := true } :=
    ofArguments_of_parse (Request.parse_run_eq_ok_iff.2
      (RunRequest.parse_insert_trace (Request.parse_run_eq_ok_iff.1 hparse) hcut))
  rw [hreport, htraced]
  cases hread : world.read files request.input with
  | error e =>
    rw [ofRunRequest_trace_of_error hread]
    exact ⟨rfl, rfl, rfl, fun _ _ => rfl, fun image himage => by cases himage⟩
  | ok image =>
    obtain ⟨hin, hin'⟩ := htime image hread
    have htext := stderrText_ofRunRequest_trace logLine hread hin hin' htrace
    have hreport := ofRunRequest_trace hread hin hin' htrace
    refine ⟨by rw [hreport], by rw [hreport], by rw [hreport], fun e he => (by cases he), ?_⟩
    rintro _ ⟨⟩
    exact ⟨_, fun sink s => Machine.observed_run_toSink sink _ _ s,
      fun e _ => e.newline_notMem_text, htext,
      fun on τ observe s clock rounds timed h hr hclock =>
        Machine.eq_run_of_timedRun observe h hr hclock⟩

theorem trace_adds_lines_offImage :
    let world := FileTable.world
    let slow : UInt64 → Duration := fun _ => Watchdog.defaultTimeout
    let line := runTo "/out"
    let request := runToRequest "/out"
    let image : Array UInt8 := #[0x48, 0x41, 0x02]
    let m := request.machine image
    let events : List Event :=
      [.start 0 0x48, .start 2 0x02, .output 0x41, .faulted (.memoryOutOfBounds 3 3) 3]
    let report := ofArguments world .error offImage line
    let traced := ofArguments (world.withClock slow) .error offImage (line ++ [ofString "--trace"])
    let missing := ofArguments (world.withClock slow) .error {} (line ++ [ofString "--trace"])
    Request.parse line = .ok (.run request) ∧ request.trace = false ∧
    (∀ group ∈ RunGroup.ofArguments line.tail, group.IsComplete) ∧
    world.read offImage request.input = .ok image ∧
    world.InTime request.watchdog m ∧
    (world.withClock slow).InTime request.watchdog (m.setTracing true) ∧
    traced.status = .failure ∧ traced.stdout = #[] ∧
    world.read traced.files (ofString "/out") = .ok #[0x41] ∧
    traced.stderrText Record.message =
      String.join (events.map fun e => e.text ++ "\n") ++ report.stderrText Record.message ∧
    world.read {} request.input = .error .notFound ∧
    missing.stderrText Record.message =
      (ofArguments world .error {} line).stderrText Record.message := by
  intro world slow line
  have hparse : Request.parse (ofString "run" :: (line.tail ++ [])) =
      .ok (.run (runToRequest "/out")) := rfl
  have hread : world.read offImage (runToRequest "/out").input = .ok #[0x48, 0x41, 0x02] := rfl
  have hmissing : world.read {} (runToRequest "/out").input = .error .notFound := rfl
  have hcut : ∀ group ∈ RunGroup.ofArguments line.tail, group.IsComplete := by
    rintro group (_ | ⟨_, _ | ⟨_, _ | ⟨_, _ | _⟩⟩⟩) <;> trivial
  have hslow (m : Machine) : (world.withClock slow).InTime .default m := by
    refine (world.withClock slow).inTime_of_le ?_
    rintro limit steps ⟨⟩
    exact Nat.le_refl _
  have hline : ofString "run" :: (line.tail ++ []) = line := rfl
  have hline' : ofString "run" :: (line.tail ++ ofString "--trace" :: []) =
      line ++ [ofString "--trace"] := rfl
  have htraced := trace_adds_lines world slow offImage Record.message hparse rfl hcut
    fun _ _ => ⟨FileTable.inTime _ _, hslow _⟩
  have hunread := trace_adds_lines world slow {} Record.message hparse rfl hcut
    fun _ _ => ⟨FileTable.inTime _ _, hslow _⟩
  rw [hline, hline'] at htraced hunread
  obtain ⟨hstatus, hstdout, hfiles, -, hreads⟩ := htraced
  obtain ⟨events, hevents, -, htext, -⟩ := hreads _ hread
  have hlines : String.join (events.map fun e => e.text ++ "\n") =
      events.foldl (fun text e => text ++ (e.text ++ "\n")) "" := by
    rw [String.join, List.foldl_map]
  rw [hlines, ← hevents] at htext
  have hreport : ofArguments world .error offImage line = _ :=
    (ofArguments_of_parse hparse).trans (ofRunRequest_of_ok hread (FileTable.inTime _ _))
  rw [hreport] at hstatus hstdout hfiles
  have houtput := congrArg (world.read · (ofString "/out")) hfiles
  exact ⟨hparse, rfl, hcut, hread, FileTable.inTime _ _, hslow _, hstatus, hstdout, houtput,
    htext, hmissing, hunread.2.2.2.1 _ hmissing⟩

end Report

end Tomtel
