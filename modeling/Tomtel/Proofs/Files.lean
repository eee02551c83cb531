import Tomtel.CommandLine.Report

/-!
# Whole files

A world keeps whole files if a write that succeeds makes its bytes what is read at its path, and
changes nothing at a path to another file: `World.KeepsFiles`. A `FileTable` is such a world, in
which every path leads to a file of its own.
-/

namespace Tomtel

namespace World

variable {σ : Type}

/-- Files are read and written whole. `Same files path other` says that in `files` the two paths
lead to one file. -/
structure KeepsFiles (world : World σ) (Same : σ → Argument → Argument → Prop) : Prop where
  read_write {files files' : σ} {path : Argument} {bytes : Array UInt8}
    (h : world.write files path bytes = (.ok (), files')) : world.read files' path = .ok bytes
  read_write_of_not_same {files files' : σ} {path other : Argument} {bytes : Array UInt8}
    (h : world.write files path bytes = (.ok (), files')) (hother : ¬ Same files path other) :
    world.read files' other = world.read files other

variable {world : World σ} {Same : σ → Argument → Argument → Prop} {files : σ} {path : Argument}
  {bytes : Array UInt8}

/-- What has been written to a file is all of it, and no other file has changed. -/
theorem KeepsFiles.of_answer (hkeeps : world.KeepsFiles Same)
    (h : world.answer files (some path) bytes = .ok ()) :
    let files' := (world.write files path bytes).2
    world.read files' path = .ok bytes ∧
      ∀ other, ¬ Same files path other → world.read files' other = world.read files other := by
  intro files'
  have hwrite : world.write files path bytes = (.ok (), files') := Prod.ext h rfl
  exact ⟨hkeeps.read_write hwrite, fun other => hkeeps.read_write_of_not_same hwrite⟩

end World

/-- Files by their paths, the latest first. -/
structure FileTable where
  files : List (Argument × Array UInt8) := []
  /-- Paths at which nothing can be read or written, with the reason. -/
  barred : List (Argument × FileError) := []
  deriving DecidableEq, Repr

namespace FileTable

variable {table table' : FileTable} {path other : Argument} {bytes : Array UInt8}

def read (table : FileTable) (path : Argument) : Except FileError (Array UInt8) :=
  match table.barred.lookup path, table.files.lookup path with
  | some e, _ => .error e
  | none, some bytes => .ok bytes
  | none, none => .error .notFound

def write (table : FileTable) (path : Argument) (bytes : Array UInt8) :
    Except FileError Unit × FileTable :=
  match table.barred.lookup path with
  | some e => (.error e, table)
  | none => (.ok (), { table with files := (path, bytes) :: table.files })

/-- The world of such files. Standard output takes everything, and the clock stands still. -/
def world : World FileTable where
  read := read
  write := write
  print _ := .ok ()
  clock _ := .zero

theorem write_eq_ok (h : table.write path bytes = (.ok (), table')) :
    table.barred.lookup path = none ∧
      table' = { table with files := (path, bytes) :: table.files } := by
  rw [write] at h
  cases hbarred : table.barred.lookup path with
  | some e =>
    rw [hbarred] at h
    cases h
  | none =>
    rw [hbarred] at h
    cases h
    exact ⟨rfl, rfl⟩

theorem keepsFiles : world.KeepsFiles fun _ path other => path = other where
  read_write h := by
    obtain ⟨hbarred, rfl⟩ := write_eq_ok h
    show read _ _ = _
    simp [read, hbarred, List.lookup_cons_self]
  read_write_of_not_same {table _ path other _} h hother := by
    obtain ⟨-, rfl⟩ := write_eq_ok h
    have hne : (other == path) = false := beq_eq_false_iff_ne.2 (Ne.symm hother)
    show read _ _ = read _ _
    rw [read, read, List.lookup_cons, hne]

end FileTable

end Tomtel
