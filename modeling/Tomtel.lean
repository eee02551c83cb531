import Tomtel.Checkpoint.Machine
import Tomtel.CommandLine.Report
import Tomtel.Main
import Tomtel.Program
import Tomtel.Proofs.Ascii
import Tomtel.Proofs.Budget
import Tomtel.Proofs.Checkpoints
import Tomtel.Proofs.Conformance
import Tomtel.Proofs.Diagnosis
import Tomtel.Proofs.DisasmGrammar
import Tomtel.Proofs.Encoding
import Tomtel.Proofs.Fate
import Tomtel.Proofs.FaultCause
import Tomtel.Proofs.ForwardJumps
import Tomtel.Proofs.Groups
import Tomtel.Proofs.HostRun
import Tomtel.Proofs.InstructionText
import Tomtel.Proofs.Layouts
import Tomtel.Proofs.Ledger
import Tomtel.Proofs.ListingLayouts
import Tomtel.Proofs.Loop
import Tomtel.Proofs.Lossless
import Tomtel.Proofs.Numerals
import Tomtel.Proofs.Observation
import Tomtel.Proofs.Padding
import Tomtel.Proofs.Paging
import Tomtel.Proofs.PreciseFault
import Tomtel.Proofs.Replay
import Tomtel.Proofs.Rows
import Tomtel.Proofs.RunCommand
import Tomtel.Proofs.RunGrammar
import Tomtel.Proofs.RunLog
import Tomtel.Proofs.Slices
import Tomtel.Proofs.Spelling
import Tomtel.Proofs.StraightLine
import Tomtel.Proofs.StringPrinter
import Tomtel.Proofs.Sweep
import Tomtel.Proofs.Tiling
import Tomtel.Proofs.TraceOption
import Tomtel.Proofs.TraceShape
