import Mathlib.Data.List.TakeWhile
import Tomtel.Proofs.Files
import Tomtel.Proofs.Tiling

/-!
# Reading a listing back

The fields of a line stand in fixed columns: the address in the first eight characters, the bytes in
the fifteen from the eleventh on, and the text behind the twenty-sixth (`Row.toList_render`). So
`Row.ofLine` reads a row back from its line and `Report.rowsOf` the rows from the text of a listing,
whose bytes are the image: `listing_lossless`.
-/

namespace Tomtel

/-! ### Hexadecimal digits -/

namespace Hex

def digitValue (c : Char) : Nat := ((List.range 16).map Nat.digitChar).idxOf c

/-- The number with these digits, most significant first. -/
def value (cs : List Char) : Nat := cs.foldl (fun n c => 16 * n + digitValue c) 0

theorem digitValue_digitChar {d : Nat} (h : d < 16) : digitValue (Nat.digitChar d) = d := by
  revert d; decide

theorem value_digits (width n : Nat) : value (digits width n) = n % 16 ^ width := by
  induction width generalizing n with
  | zero => simp [digits, value, Nat.mod_one]
  | succ width ih =>
    have hd := digitValue_digitChar (Nat.mod_lt n (show 0 < 16 by decide))
    have ih := ih (n / 16)
    rw [value] at ih ⊢
    rw [digits, List.foldl_append, ih, Nat.pow_succ', Nat.mod_mul]
    simp [hd, Nat.add_comm]

theorem digits_two (n : Nat) :
    digits 2 n = [Nat.digitChar (n / 16 % 16), Nat.digitChar (n % 16)] := rfl

theorem digitChar_ne_space (n : Nat) : Nat.digitChar (n % 16) ≠ ' ' := by
  have h : ∀ d < 16, Nat.digitChar d ≠ ' ' := by decide
  exact h _ (Nat.mod_lt n (by decide))

end Hex

/-! ### Mnemonic and operands -/

namespace Instruction

variable {mnemonic : String}

theorem takeWhile_line (h : ' ' ∉ mnemonic.toList) (operands : String) :
    (line mnemonic operands).toList.takeWhile (· ≠ ' ') = mnemonic.toList := by
  have hm : ∀ c ∈ mnemonic.toList, decide (c ≠ ' ') = true := by
    intro c hc
    simpa using ne_of_mem_of_not_mem hc h
  rw [line]
  split_ifs
  · exact List.takeWhile_eq_self_iff.2 hm
  · rw [String.toList_append, String.toList_append, List.append_assoc,
      List.takeWhile_append_of_pos hm]
    simp

theorem drop_line (mnemonic operands : String) :
    (line mnemonic operands).toList.drop (mnemonic.toList.length + 1) = operands.toList := by
  rw [line]
  split_ifs with ho
  · simp [ho]
  · simp [List.drop_append]

end Instruction

/-! ### The columns of a line -/

namespace Row

/-- A row whose line can be read back. -/
structure Legible (row : Row) : Prop where
  pos : 1 ≤ row.bytes.length
  length_le : row.bytes.length ≤ 5
  mnemonic : ' ' ∉ row.mnemonic.toList
  illegal : row.illegal = decide (row.mnemonic = ".byte")
  text : '\n' ∉ row.text.toList

/-- The bytes, each with a space behind it. -/
def cells (bytes : List UInt8) : List Char :=
  bytes.flatMap fun b => Hex.digits 2 b.toNat ++ [' ']

/-- The bytes in front of the first blank cell. -/
def bytesOf : List Char → List UInt8
  | high :: low :: _ :: rest =>
    if high = ' ' then [] else .ofNat (Hex.value [high, low]) :: bytesOf rest
  | _ => []

/-- The number of characters in front of the text. -/
def textColumn : Nat := 26

/-- The row that a line shows. -/
def ofLine (line : String) : Row :=
  let text := line.toList.drop textColumn
  let mnemonic := text.takeWhile (· ≠ ' ')
  { addr := .ofNat (Hex.value (line.toList.take 8))
    bytes := bytesOf ((line.toList.drop 10).take hexWidth)
    mnemonic := .ofList mnemonic
    operands := .ofList (text.drop (mnemonic.length + 1))
    illegal := mnemonic = ".byte".toList }

variable {row : Row}

theorem cells_cons (b : UInt8) (bytes : List UInt8) :
    cells (b :: bytes) = Hex.digits 2 b.toNat ++ ' ' :: cells bytes := by
  simp [cells]

theorem length_cells (bytes : List UInt8) : (cells bytes).length = 3 * bytes.length := by
  induction bytes with
  | nil => rfl
  | cons b bytes ih => simp [cells_cons, Hex.length_digits, ih]; omega

theorem bytesOf_cells (bytes : List UInt8) (n : Nat) :
    bytesOf (cells bytes ++ List.replicate n ' ') = bytes := by
  induction bytes with
  | nil => rcases n with _ | _ | _ | n <;> rfl
  | cons b bytes ih =>
    have hb : Hex.value (Hex.digits 2 b.toNat) = b.toNat := by
      rw [Hex.value_digits]
      exact Nat.mod_eq_of_lt b.toNat_lt
    rw [Hex.digits_two] at hb
    rw [cells_cons, Hex.digits_two]
    simp [bytesOf, Hex.digitChar_ne_space, hb, ih]

theorem toList_hex (h : row.bytes ≠ []) : row.hex.toList ++ [' '] = cells row.bytes := by
  rw [hex, String.toList_intercalate]
  generalize row.bytes = bytes at h
  induction bytes with
  | nil => exact absurd rfl h
  | cons b bytes ih =>
    rcases bytes with _ | ⟨b', bytes⟩
    · simp [cells, Hex.byte, Hex.padded]
    · have ih := ih (by simp)
      rw [cells_cons, ← ih]
      simp [Hex.byte, Hex.padded, List.intercalate_cons_cons]

/-- The bytes never overflow their column. -/
theorem toList_hexColumn (h : row.Legible) : row.hexColumn.toList =
    cells row.bytes ++ List.replicate (hexWidth - 3 * row.bytes.length) ' ' := by
  have hpos := h.pos
  have hle := h.length_le
  have hne : row.bytes ≠ [] := by
    rintro he
    simp [he] at hpos
  have hhex := toList_hex hne
  have hlen := congrArg List.length hhex
  rw [length_cells, List.length_append, List.length_singleton] at hlen
  have hpad : hexWidth - row.hex.toList.length = hexWidth - 3 * row.bytes.length + 1 := by
    rw [hexWidth]; omega
  rw [hexColumn, String.toList_ofList, List.rightpad, hpad, ← hhex, List.replicate_succ]
  simp

theorem length_hexColumn (h : row.Legible) : row.hexColumn.toList.length = hexWidth := by
  have hle := h.length_le
  rw [toList_hexColumn h, List.length_append, length_cells, List.length_replicate, hexWidth]
  omega

theorem toList_render (row : Row) : row.render.toList = Hex.digits 8 row.addr.toNat ++
    ([':', ' '] ++ (row.hexColumn.toList ++ ' ' :: row.text.toList)) := by
  simp [render, Hex.word, Hex.padded]

theorem exists_front (h : row.Legible) :
    ∃ front, front.length = textColumn ∧ row.render.toList = front ++ row.text.toList := by
  have hlen := length_hexColumn h
  refine ⟨Hex.digits 8 row.addr.toNat ++ [':', ' '] ++ row.hexColumn.toList ++ [' '], ?_, ?_⟩
  · simp [Hex.length_digits, hlen, hexWidth, textColumn]
  · simp [toList_render]

theorem takeWhile_text (h : row.Legible) :
    row.text.toList.takeWhile (· ≠ ' ') = row.mnemonic.toList :=
  Instruction.takeWhile_line h.mnemonic row.operands

theorem drop_text (row : Row) :
    row.text.toList.drop (row.mnemonic.toList.length + 1) = row.operands.toList :=
  Instruction.drop_line row.mnemonic row.operands

theorem ofLine_render (h : row.Legible) : ofLine row.render = row := by
  have haddr : Hex.value (row.render.toList.take 8) = row.addr.toNat := by
    rw [toList_render, List.take_left' (Hex.length_digits ..), Hex.value_digits]
    exact Nat.mod_eq_of_lt row.addr.toNat_lt
  have hcolumn : (row.render.toList.drop 10).take hexWidth = row.hexColumn.toList := by
    have hlen : (Hex.digits 8 row.addr.toNat ++ [':', ' ']).length = 10 := by
      simp [Hex.length_digits]
    rw [toList_render, ← List.append_assoc, List.drop_left' hlen,
      List.take_left' (length_hexColumn h)]
  have hbytes : bytesOf ((row.render.toList.drop 10).take hexWidth) = row.bytes := by
    rw [hcolumn, toList_hexColumn h, bytesOf_cells]
  have htext : row.render.toList.drop textColumn = row.text.toList := by
    obtain ⟨front, hlen, hfront⟩ := exists_front h
    rw [hfront, List.drop_left' hlen]
  rw [ofLine, haddr, hbytes, htext]
  simp only [takeWhile_text h, drop_text, UInt32.ofNat_toNat, String.ofList_toList,
    String.toList_inj, ← h.illegal]

theorem newline_notMem_render (h : row.Legible) : '\n' ∉ row.render.toList := by
  have hdigits := Hex.newline_notMem_digits
  rw [toList_render, toList_hexColumn h]
  simp [h.text, hdigits, cells]

end Row

/-! ### The rows of an image -/

namespace Opcode

variable (opcode : Opcode)

theorem space_notMem_mnemonic : ' ' ∉ opcode.mnemonic.toList := by
  cases opcode <;> decide

theorem newline_notMem_mnemonic : '\n' ∉ opcode.mnemonic.toList := by
  cases opcode <;> decide

theorem mnemonic_ne_byte : opcode.mnemonic ≠ ".byte" := by
  cases opcode <;> decide

theorem length_pos : 1 ≤ opcode.length.toNat := by
  cases opcode <;> decide

theorem length_le : opcode.length.toNat ≤ 5 := by
  cases opcode <;> decide

end Opcode

theorem Instruction.newline_notMem_text (i : Instruction) : '\n' ∉ i.text.toList := by
  have hdigits := Hex.newline_notMem_digits
  have hbyte : ∀ r : ByteOperand, '\n' ∉ r.name.toList := by
    rintro (r | _)
    · cases r <;> decide
    · decide
  have hwide : ∀ r : WideRegister, '\n' ∉ r.name.toList := by
    intro r
    cases r <;> decide
  have hoperands : '\n' ∉ i.operands.toList := by
    cases i <;> simp [operands, Hex.byte, Hex.word, Hex.padded, hdigits, hbyte, hwide]
  have hmnemonic : '\n' ∉ i.mnemonic.toList := i.opcode.newline_notMem_mnemonic
  rw [text, line]
  split_ifs <;> simp [hmnemonic, hoperands]

namespace Memory

variable {memory : Memory} {layout : ImmediateLayout} {addr : UInt32} {row : Row}

theorem legible_ofByte (addr : UInt32) (raw : UInt8) : (Row.ofByte addr raw).Legible := by
  have hdigits := Hex.newline_notMem_digits
  constructor <;> simp [Row.ofByte, Row.text, Instruction.line, Hex.byte, Hex.padded, hdigits]

theorem legible_ofInstruction {bytes : List UInt8} {i : Instruction}
    (h : bytes.length = i.opcode.length.toNat) : (Row.ofInstruction addr bytes i).Legible where
  pos := h ▸ i.opcode.length_pos
  length_le := h ▸ i.opcode.length_le
  mnemonic := i.opcode.space_notMem_mnemonic
  illegal := (decide_eq_false i.opcode.mnemonic_ne_byte).symm
  text := i.newline_notMem_text

theorem legible_of_row? (h : memory.row? layout addr = some row) : row.Legible := by
  obtain ⟨b, hb⟩ := exists_getElem?_of_lt (lt_size_of_row? h)
  rcases hi : memory.instruction layout addr with fault | i
  · rw [row?_of_error hb hi] at h
    cases h
    exact legible_ofByte addr b
  · rw [row?_of_ok hi] at h
    cases h
    exact legible_ofInstruction (length_slice_of_instruction hi)

theorem legible_of_mem_listing {start : UInt32} {count : Nat}
    (hrow : row ∈ (memory.listing layout start count).toList) : row.Legible := by
  induction count generalizing start with
  | zero => cases hrow
  | succ count ih =>
    rw [listing_succ] at hrow
    rcases hfirst : memory.row? layout start with _ | first
    · simp [hfirst] at hrow
    · have hlegible := legible_of_row? hfirst
      rcases hnext : first.next? with _ | next
      · simp only [hfirst, hnext, List.mem_singleton] at hrow
        exact hrow ▸ hlegible
      · simp only [hfirst, hnext, Array.toList_append, List.mem_append] at hrow
        rcases hrow with hrow | hrow
        · exact List.mem_singleton.1 hrow ▸ hlegible
        · exact ih hrow

/-- As many rows as memory has bytes reach its end. -/
theorem flatMap_bytes_listing (hsize : memory.size < 2 ^ 32) (layout : ImmediateLayout)
    (start : UInt32) :
    (memory.listing layout start memory.size).toList.flatMap Row.bytes =
      memory.bytes.toList.drop start.toNat := by
  obtain ⟨stop, htiles, hle, hstop⟩ := tiles_listing hsize layout start memory.size
  obtain ⟨hbytes, hlength⟩ := htiles.contains_flatMap
  have hrows := htiles.add_length_le
  refine hbytes.eq_drop ?_
  omega

end Memory

/-! ### The text of a listing -/

namespace Report

/-- The rows that a text shows, one a line. -/
def rowsOf (text : String) : List Row :=
  (text.toList.splitOn '\n').dropLast.map fun line => Row.ofLine (.ofList line)

variable {rows : List Row}

theorem splitOn_lines (h : ∀ row ∈ rows, row.Legible) :
    (rows.flatMap fun row => row.render.toList ++ ['\n']).splitOn '\n' =
      rows.map (fun row => row.render.toList) ++ [[]] := by
  induction rows with
  | nil => simp
  | cons row rows ih =>
    have ih := ih fun row hrow => h row (List.mem_cons_of_mem _ hrow)
    have hline : ∀ c ∈ row.render.toList, (c == '\n') = false := by
      intro c hc
      simpa using ne_of_mem_of_not_mem hc (Row.newline_notMem_render (h row List.mem_cons_self))
    rw [List.flatMap_cons, List.append_assoc, List.singleton_append,
      List.splitOn_append_cons_of_forall_mem_beq_eq_false hline _ rfl, ih]
    rfl

theorem rowsOf_join (h : ∀ row ∈ rows, row.Legible) :
    rowsOf (String.join (rows.map fun row => row.render ++ "\n")) = rows := by
  have hlines : (String.join (rows.map fun row => row.render ++ "\n")).toList =
      rows.flatMap fun row => row.render.toList ++ ['\n'] := by
    simp [String.toList_join, List.flatMap_map]
  have hrows : ∀ row ∈ rows, Row.ofLine (.ofList row.render.toList) = row := by
    intro row hrow
    rw [String.ofList_toList, Row.ofLine_render (h row hrow)]
  rw [rowsOf, hlines, splitOn_lines h, List.dropLast_concat, List.map_map]
  exact List.map_congr_left hrows |>.trans (List.map_id rows)

/-- The request names no start and no count. -/
def IsWhole (request : DisasmRequest) : Prop :=
  request.start = 0 ∧ request.count = none

variable {request request' : DisasmRequest} {image image' : Array UInt8}

theorem listingText_of_isWhole (h : IsWhole request) : request.listingText image =
    String.join ((Memory.listing ⟨image⟩ request.layout 0 image.size).toList.map
      fun row => row.render ++ "\n") := by
  obtain ⟨hstart, hcount⟩ := h
  rw [DisasmRequest.listingText, hstart, hcount, ← Array.foldl_toList, String.join, List.foldl_map]
  simp only [String.append_assoc]

theorem rowsOf_listingText (h : IsWhole request) : rowsOf (request.listingText image) =
    (Memory.listing ⟨image⟩ request.layout 0 image.size).toList := by
  rw [listingText_of_isWhole h, rowsOf_join fun row => Memory.legible_of_mem_listing]

theorem flatMap_bytes_rowsOf (h : IsWhole request) (hsize : image.size < 2 ^ 32) :
    (rowsOf (request.listingText image)).flatMap Row.bytes = image.toList := by
  rw [rowsOf_listingText h]
  exact Memory.flatMap_bytes_listing hsize request.layout 0

theorem stdout_ofDisasmRequest {σ : Type} {world : World σ} {files : σ} {verbosity : Verbosity}
    (hread : world.read files request.input = .ok image)
    (hstatus : (ofDisasmRequest world verbosity files request).status = .success) :
    (ofDisasmRequest world verbosity files request).stdout =
      (request.listingText image).toByteArray.data :=
  (world.stdout_disasm hread hstatus).trans Array.empty_append

/-- A line shows one to five bytes, which do not overflow their column, and its text begins behind
26 characters, so that the row can be read back from it. The listing of a whole image, a line for
each row, can thus be read back too: its rows show all the bytes of the image. Two images that print
the same are equal, even if each is listed in a layout of its own. -/
theorem listing_lossless :
    (∀ (memory : Memory) (layout : ImmediateLayout) (addr : UInt32) (row : Row),
      memory.row? layout addr = some row →
        1 ≤ row.bytes.length ∧ row.bytes.length ≤ 5 ∧ row.hexColumn.toList.length = 15 ∧
        (∃ front, front.length = 26 ∧ row.render.toList = front ++ row.text.toList) ∧
        Row.ofLine row.render = row) ∧
    (∀ (request : DisasmRequest) (image : Array UInt8), IsWhole request → image.size < 2 ^ 32 →
      let rows := (Memory.listing ⟨image⟩ request.layout 0 image.size).toList
      request.listingText image = String.join (rows.map fun row => row.render ++ "\n") ∧
        rowsOf (request.listingText image) = rows ∧ rows.flatMap Row.bytes = image.toList) ∧
    ∀ {σ τ : Type} (world : World σ) (world' : World τ) (files : σ) (files' : τ)
      (verbosity verbosity' : Verbosity) (request request' : DisasmRequest)
      (image image' : Array UInt8),
      IsWhole request → IsWhole request' →
      world.read files request.input = .ok image → world'.read files' request'.input = .ok image' →
      image.size < 2 ^ 32 → image'.size < 2 ^ 32 →
      let report := ofDisasmRequest world verbosity files request
      let report' := ofDisasmRequest world' verbosity' files' request'
      report.status = .success → report'.status = .success → report.stdout = report'.stdout →
      image = image' := by
  refine ⟨fun memory layout addr row hrow => ?_, fun request image hwhole hsize => ?_, ?_⟩
  · have h := Memory.legible_of_row? hrow
    exact ⟨h.pos, h.length_le, Row.length_hexColumn h, Row.exists_front h, Row.ofLine_render h⟩
  · have hrows : rowsOf (request.listingText image) = _ := rowsOf_listingText hwhole
    exact ⟨listingText_of_isWhole hwhole, hrows, hrows ▸ flatMap_bytes_rowsOf hwhole hsize⟩
  · intro σ τ world world' files files' verbosity verbosity' request request' image image' hwhole
      hwhole' hread hread' hsize hsize' report report' hstatus hstatus' h
    rw [stdout_ofDisasmRequest hread hstatus, stdout_ofDisasmRequest hread' hstatus'] at h
    have htext : request.listingText image = request'.listingText image' :=
      String.toByteArray_inj.1 (ByteArray.ext h)
    have hbytes := flatMap_bytes_rowsOf hwhole hsize
    rw [htext, flatMap_bytes_rowsOf hwhole' hsize'] at hbytes
    exact (Array.toList_inj.1 hbytes).symm

/-- Two images that differ in the last byte alone, which is illegal in both. -/
theorem listing_lossless_lastByte :
    let world := FileTable.world
    let image : Array UInt8 := #[0x48, 0x41, 0xff, 0x21, 0x05]
    let image' : Array UInt8 := #[0x48, 0x41, 0xff, 0x21, 0x06]
    let request : DisasmRequest := { input := ⟨[0x61]⟩ }
    let request' : DisasmRequest := { input := ⟨[0x62]⟩ }
    let files : FileTable := { files := [(request.input, image), (request'.input, image')] }
    let report := ofDisasmRequest world .off files request
    let report' := ofDisasmRequest world .off files request'
    let row := Row.ofInstruction 0 [0x48, 0x41] (.mvi (.register .a) 0x41)
    Memory.row? ⟨image⟩ .littleEndian 0 = some row ∧ Row.ofLine row.render = row ∧
    IsWhole request ∧ IsWhole request' ∧
    world.read files request.input = .ok image ∧ world.read files request'.input = .ok image' ∧
    image.size < 2 ^ 32 ∧ image'.size < 2 ^ 32 ∧
    report.status = .success ∧ report'.status = .success ∧
    (rowsOf (request.listingText image)).map Row.bytes = [[0x48, 0x41], [0xff], [0x21], [0x05]] ∧
    report.stdout ≠ report'.stdout := by
  intro world image image' request request' files report report' row
  obtain ⟨hrow, hrows, hinj⟩ := listing_lossless
  have hfirst : Memory.row? ⟨image⟩ .littleEndian 0 = some row := by decide
  have hread : world.read files request.input = .ok image := rfl
  have hread' : world.read files request'.input = .ok image' := rfl
  have hwhole : IsWhole request := ⟨rfl, rfl⟩
  have hwhole' : IsWhole request' := ⟨rfl, rfl⟩
  have hsize : image.size < 2 ^ 32 := by decide
  have hsize' : image'.size < 2 ^ 32 := by decide
  obtain ⟨-, -, -, -, hline⟩ := hrow _ _ _ _ hfirst
  obtain ⟨-, htext, -⟩ := hrows request image hwhole hsize
  refine ⟨hfirst, hline, hwhole, hwhole', hread, hread', hsize, hsize', rfl, rfl, ?_, fun h => ?_⟩
  · rw [htext]
    decide
  · have he := hinj world world files files .off .off request request' image image' hwhole hwhole'
      hread hread' hsize hsize' rfl rfl h
    revert he
    decide

end Report

end Tomtel
