/-!
# Registers

The machine has six byte registers `a` to `f` and six wide (32-bit) registers `la` to `pc`. An
instruction names a register by a three-bit selector. Selector 7 of the byte family is the
memory cell at `ptr + c`; selector 0 names nothing in either family.

`RegisterFile` holds the contents; `get_set` lemmas say that writing a register changes that one
only.
-/

namespace Tomtel

inductive ByteRegister where
  | a | b | c | d | e | f
  deriving DecidableEq, Repr

inductive WideRegister where
  | la | lb | lc | ld | ptr | pc
  deriving DecidableEq, Repr

/-- Where an 8-bit move reads or writes: a register, or the memory cell at `ptr + c`. -/
inductive ByteOperand where
  | register (r : ByteRegister)
  | cell
  deriving DecidableEq, Repr

/-- The family that a selector is looked up in. -/
inductive RegisterFamily where
  | byte | wide
  deriving DecidableEq, Repr

def RegisterFamily.name : RegisterFamily → String
  | .byte => "8-bit"
  | .wide => "32-bit"

namespace ByteRegister

/-- In selector order. -/
def all : List ByteRegister := [.a, .b, .c, .d, .e, .f]

def index : ByteRegister → Nat
  | .a => 0
  | .b => 1
  | .c => 2
  | .d => 3
  | .e => 4
  | .f => 5

def selector (r : ByteRegister) : UInt8 := UInt8.ofNat (r.index + 1)

def name : ByteRegister → String
  | .a => "a"
  | .b => "b"
  | .c => "c"
  | .d => "d"
  | .e => "e"
  | .f => "f"

end ByteRegister

namespace WideRegister

/-- In selector order. -/
def all : List WideRegister := [.la, .lb, .lc, .ld, .ptr, .pc]

def index : WideRegister → Nat
  | .la => 0
  | .lb => 1
  | .lc => 2
  | .ld => 3
  | .ptr => 4
  | .pc => 5

def selector (r : WideRegister) : UInt8 := UInt8.ofNat (r.index + 1)

def name : WideRegister → String
  | .la => "la"
  | .lb => "lb"
  | .lc => "lc"
  | .ld => "ld"
  | .ptr => "ptr"
  | .pc => "pc"

def ofSelector? : UInt8 → Option WideRegister
  | 1 => some .la
  | 2 => some .lb
  | 3 => some .lc
  | 4 => some .ld
  | 5 => some .ptr
  | 6 => some .pc
  | _ => none

theorem ofSelector?_selector (r : WideRegister) : ofSelector? r.selector = some r := by
  cases r <;> rfl

theorem selector_of_ofSelector? {s : UInt8} {r : WideRegister} (h : ofSelector? s = some r) :
    r.selector = s := by
  unfold ofSelector? at h
  split at h <;> simp at h <;> subst h <;> rfl

end WideRegister

namespace ByteOperand

/-- The selector of the memory cell. -/
def cellSelector : UInt8 := 7

def selector : ByteOperand → UInt8
  | .register r => r.selector
  | .cell => cellSelector

def name : ByteOperand → String
  | .register r => r.name
  | .cell => "(ptr+c)"

def ofSelector? : UInt8 → Option ByteOperand
  | 1 => some (.register .a)
  | 2 => some (.register .b)
  | 3 => some (.register .c)
  | 4 => some (.register .d)
  | 5 => some (.register .e)
  | 6 => some (.register .f)
  | 7 => some .cell
  | _ => none

theorem ofSelector?_selector (o : ByteOperand) : ofSelector? o.selector = some o := by
  rcases o with r | _
  · cases r <;> rfl
  · rfl

theorem selector_of_ofSelector? {s : UInt8} {o : ByteOperand} (h : ofSelector? s = some o) :
    o.selector = s := by
  unfold ofSelector? at h
  split at h <;> simp at h <;> subst h <;> rfl

end ByteOperand

/-- The contents of the twelve registers, zero at power-on. -/
structure RegisterFile where
  a : UInt8 := 0
  b : UInt8 := 0
  c : UInt8 := 0
  d : UInt8 := 0
  e : UInt8 := 0
  f : UInt8 := 0
  la : UInt32 := 0
  lb : UInt32 := 0
  lc : UInt32 := 0
  ld : UInt32 := 0
  ptr : UInt32 := 0
  pc : UInt32 := 0
  deriving DecidableEq, Repr

namespace RegisterFile

def byte (regs : RegisterFile) : ByteRegister → UInt8
  | .a => regs.a
  | .b => regs.b
  | .c => regs.c
  | .d => regs.d
  | .e => regs.e
  | .f => regs.f

def setByte (regs : RegisterFile) (r : ByteRegister) (v : UInt8) : RegisterFile :=
  match r with
  | .a => { regs with a := v }
  | .b => { regs with b := v }
  | .c => { regs with c := v }
  | .d => { regs with d := v }
  | .e => { regs with e := v }
  | .f => { regs with f := v }

def wide (regs : RegisterFile) : WideRegister → UInt32
  | .la => regs.la
  | .lb => regs.lb
  | .lc => regs.lc
  | .ld => regs.ld
  | .ptr => regs.ptr
  | .pc => regs.pc

def setWide (regs : RegisterFile) (r : WideRegister) (v : UInt32) : RegisterFile :=
  match r with
  | .la => { regs with la := v }
  | .lb => { regs with lb := v }
  | .lc => { regs with lc := v }
  | .ld => { regs with ld := v }
  | .ptr => { regs with ptr := v }
  | .pc => { regs with pc := v }

/-- The address `ptr + c`, in 64 bits so that a sum of `2 ^ 32` or more does not wrap. -/
def cellAddress (regs : RegisterFile) : UInt64 :=
  regs.ptr.toUInt64 + regs.c.toUInt64

section

variable (regs : RegisterFile)

@[simp] theorem byte_setByte (r s : ByteRegister) (v : UInt8) :
    (regs.setByte r v).byte s = if s = r then v else regs.byte s := by
  cases r <;> cases s <;> rfl

@[simp] theorem wide_setWide (r s : WideRegister) (v : UInt32) :
    (regs.setWide r v).wide s = if s = r then v else regs.wide s := by
  cases r <;> cases s <;> rfl

@[simp] theorem byte_setWide (r : WideRegister) (s : ByteRegister) (v : UInt32) :
    (regs.setWide r v).byte s = regs.byte s := by
  cases r <;> cases s <;> rfl

@[simp] theorem wide_setByte (r : ByteRegister) (s : WideRegister) (v : UInt8) :
    (regs.setByte r v).wide s = regs.wide s := by
  cases r <;> cases s <;> rfl

theorem toNat_cellAddress : regs.cellAddress.toNat = regs.ptr.toNat + regs.c.toNat := by
  have h₁ := regs.ptr.toNat_lt
  have h₂ := regs.c.toNat_lt
  rw [cellAddress, UInt64.toNat_add, UInt32.toNat_toUInt64, UInt8.toNat_toUInt64]
  omega

end

/-- Two files that agree on every register are equal. -/
theorem ext_get {r s : RegisterFile} (hb : ∀ x, r.byte x = s.byte x)
    (hw : ∀ x, r.wide x = s.wide x) : r = s := by
  have ha := hb .a
  have hb' := hb .b
  have hc := hb .c
  have hd := hb .d
  have he := hb .e
  have hf := hb .f
  have hla := hw .la
  have hlb := hw .lb
  have hlc := hw .lc
  have hld := hw .ld
  have hptr := hw .ptr
  have hpc := hw .pc
  cases r
  cases s
  simp only [byte, wide] at ha hb' hc hd he hf hla hlb hlc hld hptr hpc
  simp [*]

end RegisterFile

end Tomtel
