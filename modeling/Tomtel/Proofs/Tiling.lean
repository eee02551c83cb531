import Tomtel.Proofs.Code
import Tomtel.Proofs.Rows

/-!
# Listings tile memory

A listing goes through memory without a gap and shows no byte twice, whatever the bytes are:
`Memory.listing_partitions`. A row has at least one byte and ends inside memory (`Memory.Shows`), so
that the address behind it fits in 32 bits and the sweep goes on from there. `Memory.Tiles` says the
same of several rows, one behind the other.
-/

namespace Tomtel

namespace Memory

variable {memory : Memory} {layout : ImmediateLayout} {start : UInt32} {addr stop : Nat}
  {row next : Row} {rows : List Row} {bytes : List UInt8}

/-! ### Bytes of memory -/

theorem Contains.add_length_le_of_pos (h : memory.Contains addr bytes) (hpos : 0 < bytes.length) :
    addr + bytes.length ≤ memory.size := by
  cases bytes with
  | nil => cases hpos
  | cons b bytes => exact h.add_length_le

/-- Bytes that reach the end of memory are all that stands there. -/
theorem Contains.eq_drop (h : memory.Contains addr bytes)
    (hend : memory.size ≤ addr + bytes.length) : bytes = memory.bytes.toList.drop addr := by
  refine h.eq_of_length_le ?_
  rw [List.length_drop, Array.length_toList]
  exact Nat.sub_le_iff_le_add'.2 hend

/-- The bytes from which an instruction is read, in full. -/
theorem contains_slice_of_instruction {i : Instruction}
    (hi : memory.instruction layout start = .ok i) :
    memory.Contains start.toNat (memory.slice start.toNat i.length.toNat) := by
  obtain ⟨j, hj, rfl⟩ := exists_encode_of_instruction hi
  rw [Instruction.length_mapWord, ← j.length_encode, hj.slice_eq]
  exact hj

/-! ### Rows -/

/-- The row shows bytes that stand at its address, one of them at least. -/
structure Shows (memory : Memory) (row : Row) : Prop where
  pos : 0 < row.bytes.length
  contains : memory.Contains row.addr.toNat row.bytes

theorem Shows.le_size (h : memory.Shows row) :
    row.addr.toNat + row.bytes.length ≤ memory.size :=
  h.contains.add_length_le_of_pos h.pos

/-- A row has the length of the instruction that it shows, if it shows one. -/
theorem shows_of_row? (h : memory.row? layout start = some row) :
    row.addr = start ∧ memory.Shows row ∧
      ∀ i, memory.instruction layout start = .ok i → row.bytes.length = i.length.toNat := by
  obtain ⟨b, hb⟩ := exists_getElem?_of_lt (lt_size_of_row? h)
  cases hi : memory.instruction layout start with
  | error fault =>
    rw [row?_of_error hb hi] at h
    cases h
    exact ⟨rfl, ⟨Nat.one_pos, contains_cons.2 ⟨hb, contains_nil⟩⟩, fun i hi => by cases hi⟩
  | ok i =>
    rw [row?_of_ok hi] at h
    cases h
    have hlen := length_slice_of_instruction hi
    have hpos := i.length_encode_pos
    rw [i.length_encode, ← hlen] at hpos
    refine ⟨rfl, ⟨hpos, contains_slice_of_instruction hi⟩, fun j hj => ?_⟩
    cases hj
    exact hlen

/-- The address behind a row inside memory does not overflow. -/
theorem Shows.exists_next (hsize : memory.size < 2 ^ 32) (h : memory.Shows row) :
    ∃ next, row.next? = some next ∧ next.toNat = row.addr.toNat + row.bytes.length := by
  have hlt : row.addr.toNat + row.bytes.length < UInt32.size := Nat.lt_of_le_of_lt h.le_size hsize
  exact ⟨_, if_pos hlt, UInt32.toNat_ofNat_of_lt' hlt⟩

/-! ### Rows one behind the other -/

/-- The rows show memory from `addr` to `stop`, each where the one before it ends. -/
def Tiles (memory : Memory) : (addr : Nat) → List Row → (stop : Nat) → Prop
  | addr, [], stop => addr = stop
  | addr, row :: rows, stop =>
    row.addr.toNat = addr ∧ memory.Shows row ∧ memory.Tiles (addr + row.bytes.length) rows stop

namespace Tiles

theorem shows (h : memory.Tiles addr rows stop) (hrow : row ∈ rows) : memory.Shows row := by
  induction rows generalizing addr with
  | nil => cases hrow
  | cons first rows ih =>
    obtain ⟨-, hfirst, hrows⟩ := h
    rcases List.mem_cons.1 hrow with rfl | hrow
    · exact hfirst
    · exact ih hrows hrow

theorem head_addr (h : memory.Tiles addr rows stop) (hrow : rows[0]? = some row) :
    row.addr.toNat = addr := by
  cases rows with
  | nil => cases hrow
  | cons first rows =>
    cases hrow
    exact h.1

theorem next_addr (h : memory.Tiles addr rows stop) {k : Nat} (hrow : rows[k]? = some row)
    (hnext : rows[k + 1]? = some next) :
    next.addr.toNat = row.addr.toNat + row.bytes.length := by
  induction rows generalizing addr k with
  | nil => cases hrow
  | cons first rows ih =>
    obtain ⟨haddr, -, hrows⟩ := h
    cases k with
    | zero =>
      cases hrow
      rw [haddr]
      exact hrows.head_addr hnext
    | succ k => exact ih hrows hrow hnext

theorem last_end (h : memory.Tiles addr rows stop) (hlast : rows.getLast? = some row) :
    row.addr.toNat + row.bytes.length = stop := by
  induction rows generalizing addr with
  | nil => cases hlast
  | cons first rows ih =>
    obtain ⟨rfl, -, hrows⟩ := h
    cases rows with
    | nil =>
      cases hlast
      exact hrows
    | cons second rows =>
      rw [List.getLast?_cons_cons] at hlast
      exact ih hrows hlast

/-- Every row takes a byte at least. -/
theorem add_length_le (h : memory.Tiles addr rows stop) : addr + rows.length ≤ stop := by
  induction rows generalizing addr with
  | nil => exact Nat.le_of_eq h
  | cons row rows ih =>
    obtain ⟨-, hrow, hrows⟩ := h
    have hpos := hrow.pos
    have hle := ih hrows
    rw [List.length_cons]
    omega

theorem stop_le (h : memory.Tiles addr rows stop) (hne : rows ≠ []) : stop ≤ memory.size := by
  have hlast := List.getLast?_eq_some_getLast hne
  rw [← h.last_end hlast]
  exact (h.shows (List.getLast_mem hne)).le_size

/-- The bytes of the rows, put together, are the bytes of memory from `addr` to `stop`. -/
theorem contains_flatMap (h : memory.Tiles addr rows stop) :
    memory.Contains addr (rows.flatMap Row.bytes) ∧
      addr + (rows.flatMap Row.bytes).length = stop := by
  induction rows generalizing addr with
  | nil => exact ⟨contains_nil, h⟩
  | cons row rows ih =>
    obtain ⟨rfl, hrow, hrows⟩ := h
    obtain ⟨hcontains, hstop⟩ := ih hrows
    rw [List.flatMap_cons, contains_append, List.length_append, ← Nat.add_assoc]
    exact ⟨⟨hrow.contains, hcontains⟩, hstop⟩

end Tiles

/-! ### The sweep -/

/-- The first row of a sweep, and the sweep behind it. -/
theorem listing_succ_of_row? (hsize : memory.size < 2 ^ 32)
    (hrow : memory.row? layout start = some row) :
    ∃ next : UInt32, next.toNat = start.toNat + row.bytes.length ∧
      ∀ count, (memory.listing layout start (count + 1)).toList =
        row :: (memory.listing layout next count).toList := by
  obtain ⟨rfl, hshows, -⟩ := shows_of_row? hrow
  obtain ⟨next, hnext, htoNat⟩ := hshows.exists_next hsize
  refine ⟨next, htoNat, fun count => ?_⟩
  rw [listing_succ, hrow]
  simp [hnext]

/-- A sweep ends when it has shown `count` rows, or else with memory. -/
theorem tiles_listing (hsize : memory.size < 2 ^ 32) (layout : ImmediateLayout) (start : UInt32)
    (count : Nat) :
    ∃ stop, memory.Tiles start.toNat (memory.listing layout start count).toList stop ∧
      (memory.listing layout start count).toList.length ≤ count ∧
      ((memory.listing layout start count).toList.length < count → memory.size ≤ stop) := by
  induction count generalizing start with
  | zero => exact ⟨start.toNat, rfl, Nat.le_refl 0, fun h => absurd h (Nat.not_lt_zero 0)⟩
  | succ count ih =>
    rcases hrow : memory.row? layout start with _ | row
    · rw [listing_succ, hrow]
      exact ⟨start.toNat, rfl, Nat.zero_le _, fun _ => row?_eq_none_iff.1 hrow⟩
    · obtain ⟨rfl, hshows, -⟩ := shows_of_row? hrow
      obtain ⟨next, htoNat, hlisting⟩ := listing_succ_of_row? hsize hrow
      obtain ⟨stop, htiles, hle, hstop⟩ := ih next
      rw [htoNat] at htiles
      rw [hlisting]
      exact ⟨stop, ⟨rfl, hshows, htiles⟩, Nat.succ_le_succ hle,
        fun hlt => hstop (Nat.lt_of_succ_lt_succ hlt)⟩

/-- Each row of a listing is the row at its address. -/
theorem row?_of_mem_listing (hsize : memory.size < 2 ^ 32) {count : Nat}
    (hrow : row ∈ (memory.listing layout start count).toList) :
    memory.row? layout row.addr = some row := by
  induction count generalizing start with
  | zero => cases hrow
  | succ count ih =>
    rcases hfirst : memory.row? layout start with _ | first
    · rw [listing_succ, hfirst] at hrow
      cases hrow
    · obtain ⟨rfl, -, -⟩ := shows_of_row? hfirst
      obtain ⟨next, -, hlisting⟩ := listing_succ_of_row? hsize hfirst
      rw [hlisting] at hrow
      rcases List.mem_cons.1 hrow with rfl | hrow
      · exact hfirst
      · exact ih hrow

/-- List rows from an address, in either layout. The first row starts there, each other row where
the one before it ends, and a row shows the bytes at its address, one at least and all of them
inside memory; the bytes of an instruction are as many as it has. There are at most `count` rows,
and if there are fewer, the last ends with memory, or there is none and no memory from the address
on. So the bytes of all rows are what stands in memory from the address on, and if memory has at
most `count` bytes, they are all that stands there. -/
theorem listing_partitions (hsize : memory.size < 2 ^ 32) (layout : ImmediateLayout)
    (start : UInt32) (count : Nat) :
    let rows := (memory.listing layout start count).toList
    (∀ row, rows[0]? = some row → row.addr = start) ∧
    (∀ k row next, rows[k]? = some row → rows[k + 1]? = some next →
      next.addr.toNat = row.addr.toNat + row.bytes.length) ∧
    (∀ row ∈ rows, 1 ≤ row.bytes.length ∧
      row.addr.toNat + row.bytes.length ≤ memory.size ∧
      row.bytes = memory.slice row.addr.toNat row.bytes.length ∧
      ∀ i, memory.instruction layout row.addr = .ok i → row.bytes.length = i.length.toNat) ∧
    rows.length ≤ count ∧
    (rows.length < count →
      (∃ last, rows.getLast? = some last ∧
        last.addr.toNat + last.bytes.length = memory.size) ∨
      rows = [] ∧ memory.size ≤ start.toNat) ∧
    rows.flatMap Row.bytes = memory.slice start.toNat (rows.flatMap Row.bytes).length ∧
    (memory.size ≤ count → rows.flatMap Row.bytes = memory.bytes.toList.drop start.toNat) := by
  intro rows
  obtain ⟨stop, htiles, hle, hstop⟩ := tiles_listing hsize layout start count
  obtain ⟨hbytes, hlength⟩ := htiles.contains_flatMap
  refine ⟨fun row h => UInt32.toNat_inj.1 (htiles.head_addr h), fun k row next => htiles.next_addr,
    fun row hrow => ?_, hle, fun hlt => ?_, hbytes.slice_eq.symm, fun hcount => ?_⟩
  · have hshows := htiles.shows hrow
    have hlen := (shows_of_row? (row?_of_mem_listing hsize hrow)).2.2
    exact ⟨hshows.pos, hshows.le_size, hshows.contains.slice_eq.symm, hlen⟩
  · by_cases hne : rows = []
    · refine .inr ⟨hne, ?_⟩
      have hnone : memory.Tiles start.toNat rows stop := htiles
      rw [hne] at hnone
      exact Nat.le_trans (hstop hlt) (Nat.le_of_eq hnone.symm)
    · have hlast := List.getLast?_eq_some_getLast hne
      have hend : stop = memory.size := Nat.le_antisymm (htiles.stop_le hne) (hstop hlt)
      exact .inl ⟨_, hlast, (htiles.last_end hlast).trans hend⟩
  · refine hbytes.eq_drop ?_
    rw [hlength]
    rcases Nat.lt_or_ge rows.length count with hlt | hge
    · exact hstop hlt
    · -- as many rows as memory has bytes, so that they reach its end
      have hrows := htiles.add_length_le
      omega

/-- An instruction, a byte that is none, and a jump without its target. -/
theorem listing_partitions_mixed :
    let memory : Memory := ⟨#[0x48, 0x41, 0xff, 0x21, 0x05]⟩
    let rows := (memory.listing .littleEndian 0 9).toList
    memory.size < 2 ^ 32 ∧ memory.size ≤ 9 ∧
      rows.map (fun row => (row.addr, row.bytes)) =
        [(0, [0x48, 0x41]), (2, [0xff]), (3, [0x21]), (4, [0x05])] ∧
      (∃ last, rows.getLast? = some last ∧
        last.addr.toNat + last.bytes.length = memory.size) ∧
      rows.flatMap Row.bytes = memory.bytes.toList := by
  intro memory rows
  have hsize : memory.size < 2 ^ 32 := by decide
  obtain ⟨-, -, -, -, hend, -, hall⟩ := listing_partitions hsize .littleEndian 0 9
  have hrows : rows.map (fun row => (row.addr, row.bytes)) =
      [(0, [0x48, 0x41]), (2, [0xff]), (3, [0x21]), (4, [0x05])] := by decide
  refine ⟨hsize, by decide, hrows, ?_, hall (by decide)⟩
  rcases hend (by decide) with hlast | ⟨hnone, -⟩
  · exact hlast
  · rw [show rows = [] from hnone] at hrows
    cases hrows

end Memory

end Tomtel
