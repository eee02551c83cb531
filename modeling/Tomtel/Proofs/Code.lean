import Tomtel.Program
import Tomtel.Proofs.Reading

/-!
# Code in memory

`Instruction.code is` is the bytes of a list of instructions, one encoding behind the other, which is
what a program that emits them consists of (`Program.toList_emitAll`). Where the code stands in
memory, each instruction stands behind those before it (`Memory.contains_code_cons`).
-/

namespace Tomtel

namespace Instruction

def code (is : List Instruction) : List UInt8 := is.flatMap encode

variable {is : List Instruction} {i : Instruction}

@[simp] theorem code_nil : code [] = [] := rfl

@[simp] theorem code_cons : code (i :: is) = i.encode ++ code is := rfl

@[simp] theorem code_append (is js : List Instruction) : code (is ++ js) = code is ++ code js := by
  simp [code]

theorem length_code (is : List Instruction) :
    (code is).length = (is.map fun i => i.encode.length).sum := by
  rw [code, List.length_flatMap]

theorem length_encode_pos (i : Instruction) : 0 < i.encode.length := by
  simp [encode]

theorem length_le_length_code (is : List Instruction) : is.length ≤ (code is).length := by
  induction is with
  | nil => simp
  | cons i is ih =>
    have hpos := i.length_encode_pos
    simp only [code_cons, List.length_append, List.length_cons]
    omega

theorem length_code_take_le (is : List Instruction) (k : Nat) :
    (code (is.take k)).length ≤ (code is).length := by
  have hsplit := congrArg (fun js => (code js).length) (List.take_append_drop k is)
  simp only [code_append, List.length_append] at hsplit
  omega

end Instruction

open Instruction

namespace Program

def emitAll (program : Program) (is : List Instruction) : Program := is.foldl emit program

variable (program : Program)

@[simp] theorem toList_data (bytes : List UInt8) :
    (program.data bytes).bytes.toList = program.bytes.toList ++ bytes := by
  simp [data]

@[simp] theorem toList_emit (i : Instruction) :
    (program.emit i).bytes.toList = program.bytes.toList ++ i.encode := program.toList_data _

@[simp] theorem toList_emitAll (is : List Instruction) :
    (program.emitAll is).bytes.toList = program.bytes.toList ++ code is := by
  induction is generalizing program with
  | nil => simp [emitAll]
  | cons i is ih =>
    have h := ih (program.emit i)
    rw [toList_emit, List.append_assoc] at h
    exact h

end Program

namespace Memory

variable {memory memory' : Memory} {addr : Nat} {xs ys : List UInt8} {is : List Instruction}
  {i : Instruction}

theorem contains_append : memory.Contains addr (xs ++ ys) ↔
    memory.Contains addr xs ∧ memory.Contains (addr + xs.length) ys := by
  induction xs generalizing addr with
  | nil => simp [contains_nil]
  | cons x xs ih =>
    rw [List.cons_append, contains_cons, contains_cons, ih, and_assoc, List.length_cons,
      Nat.add_right_comm, Nat.add_assoc]

theorem contains_code_cons : memory.Contains addr (code (i :: is)) ↔
    memory.Contains addr i.encode ∧ memory.Contains (addr + i.encode.length) (code is) :=
  contains_append

theorem contains_of_getElem?_code {j : Nat} (h : memory.Contains addr (code is))
    (hi : is[j]? = some i) : memory.Contains (addr + (code (is.take j)).length) i.encode := by
  obtain ⟨hj, rfl⟩ := List.getElem?_eq_some_iff.1 hi
  rw [← List.take_append_drop j is, code_append, contains_append, List.drop_eq_getElem_cons hj] at h
  exact (contains_code_cons.1 h.2).1

theorem contains_start (h : memory.bytes.toList = xs ++ ys) : memory.Contains 0 xs := by
  rw [Contains, h, List.drop_zero]
  exact List.prefix_append xs ys

theorem Contains.length_le_size (h : memory.Contains addr xs) : xs.length ≤ memory.size := by
  have hle := h.length_le
  rw [List.length_drop, Array.length_toList] at hle
  exact Nat.le_trans hle (Nat.sub_le _ _)

/-- Bytes stay where they stand if memory changes elsewhere only. -/
theorem Contains.congr (h : memory.Contains addr xs)
    (hsame : ∀ k < xs.length, memory'.bytes[addr + k]? = memory.bytes[addr + k]?) :
    memory'.Contains addr xs := by
  refine List.prefix_iff_getElem?.2 fun k hk => ?_
  rw [List.getElem?_drop, Array.getElem?_toList, hsame k hk, h.getElem? hk]
  exact List.getElem?_eq_getElem hk

end Memory

end Tomtel
