import Mathlib.Algebra.Group.Nat.Defs
import Mathlib.Logic.Function.Basic
import Tomtel.Program

/-!
# Forward jumps

A program under construction is taken through a list of edits, some of which put down forward jumps
and some of which patch them. The edits leave what they would if every forward jump had its last
target from the start (`Draft.applyAll_eq`), because each slot is the operand of its own jump
(`exists_operand`). So patching is filling in: `forwardJumps_patched`.
-/

namespace Tomtel

namespace Program

inductive ForwardJump where
  | jez | jnz
  deriving DecidableEq, Repr

namespace ForwardJump

def instruction : ForwardJump → UInt32 → Instruction
  | .jez => .jez
  | .jnz => .jnz

/-- Puts the jump down without its target. -/
def put : ForwardJump → Program → Program × JumpSlot
  | .jez => jezForward
  | .jnz => jnzForward

theorem encode_instruction (jump : ForwardJump) (target : UInt32) :
    (jump.instruction target).encode = (jump.instruction 0).lead :: Word.bytes target := by
  cases jump <;> rfl

theorem put_eq (jump : ForwardJump) (program : Program) :
    jump.put program = (program.emit (jump.instruction 0), ⟨program.bytes.size + 1⟩) := by
  cases jump <;> simp [put, jezForward, jnzForward, lastWord, emit, data, instruction,
    Instruction.encode, Instruction.immediate, Word.bytes]

end ForwardJump

/-- What is done to a program under construction. -/
inductive Edit where
  | emit (i : Instruction)
  | data (bytes : List UInt8)
  | forward (jump : ForwardJump)
  /-- Patches the slot of forward jump number `jump`, counted from zero. -/
  | patch (jump : Nat) (target : UInt32)
  deriving DecidableEq, Repr

/-- A program under construction, with the slots of its forward jumps. -/
structure Draft where
  program : Program := {}
  slots : List JumpSlot := []
  deriving DecidableEq, Repr

namespace Draft

/-- `none` if a patch is out of range. -/
def apply (draft : Draft) : Edit → Option Draft
  | .emit i => some { draft with program := draft.program.emit i }
  | .data bytes => some { draft with program := draft.program.data bytes }
  | .forward jump =>
    let (program, slot) := jump.put draft.program
    some ⟨program, draft.slots ++ [slot]⟩
  | .patch jump target => do
    let slot ← draft.slots[jump]?
    let program ← draft.program.patch? slot target
    return { draft with program := program }

def applyAll (draft : Draft) (edits : List Edit) : Option Draft := edits.foldlM apply draft

end Draft

namespace Edit

/-! ### Reading edits -/

/-- How many forward jumps it puts down. -/
def jumps : Edit → Nat
  | .forward _ => 1
  | _ => 0

/-- What it appends, were it a forward jump to `target`. -/
def bytes (target : UInt32) : Edit → List UInt8
  | .emit i => i.encode
  | .data bytes => bytes
  | .forward jump => (jump.instruction target).encode
  | .patch .. => []

/-- The target that it patches into forward jump number `jump`. -/
def target? (jump : Nat) : Edit → Option UInt32
  | .patch jump' target => if jump' = jump then some target else none
  | _ => none

/-- The edit with nothing to patch: a forward jump is emitted with its target, a patch is dropped. -/
def settle (target : UInt32) : Edit → Option Edit
  | .forward jump => some (.emit (jump.instruction target))
  | .patch .. => none
  | e => some e

def jumpsAll : List Edit → Nat
  | [] => 0
  | e :: es => e.jumps + jumpsAll es

/-- How many bytes are emitted. -/
def length : List Edit → Nat
  | [] => 0
  | e :: es => (e.bytes 0).length + length es

/-- The last target patched into forward jump number `jump`, or 0. -/
def lastTarget (edits : List Edit) (jump : Nat) : UInt32 :=
  (edits.filterMap (target? jump)).getLastD 0

/-- The edits with nothing to patch, where forward jump number `n` goes to `targets n` and the next
forward jump has number `n`. -/
def settleAll (targets : Nat → UInt32) : (n : Nat) → List Edit → List Edit
  | _, [] => []
  | n, e :: es => (e.settle (targets n)).toList ++ settleAll targets (n + e.jumps) es

/-- It patches a forward jump that is there, if `n` of them are. -/
def Reaches (n : Nat) : Edit → Prop
  | .patch jump _ => jump < n
  | _ => True

/-- Every patch is of a forward jump put down before it, the next of them having number `n`. -/
def Valid : (n : Nat) → List Edit → Prop
  | _, [] => True
  | n, e :: es => e.Reaches n ∧ Valid (n + e.jumps) es

/-- Forward jump number `jump` is put down at `addr`. -/
def PutAt (edits : List Edit) (jump addr : Nat) : Prop :=
  ∃ before j after, edits = before ++ .forward j :: after ∧ jumpsAll before = jump ∧
    length before = addr

/-! ### What edits leave -/

/-- The bytes of the program, if forward jump number `n` goes to `targets n` and the next forward
jump has number `n`. -/
def image (targets : Nat → UInt32) : (n : Nat) → List Edit → List UInt8
  | _, [] => []
  | n, e :: es => e.bytes (targets n) ++ image targets (n + e.jumps) es

/-- The slot that it leaves if it is made at `addr`. -/
def slot? (addr : Nat) : Edit → Option JumpSlot
  | .forward _ => some ⟨addr + 1⟩
  | _ => none

def slots : (addr : Nat) → List Edit → List JumpSlot
  | _, [] => []
  | addr, e :: es => (e.slot? addr).toList ++ slots (addr + (e.bytes 0).length) es

variable {targets targets' : Nat → UInt32} {n addr : Nat} {es fs : List Edit} {e : Edit}

@[simp] theorem jumpsAll_nil : jumpsAll [] = 0 := rfl

@[simp] theorem jumpsAll_cons (e : Edit) (es : List Edit) :
    jumpsAll (e :: es) = e.jumps + jumpsAll es := rfl

@[simp] theorem length_nil : length [] = 0 := rfl

@[simp] theorem length_cons (e : Edit) (es : List Edit) :
    length (e :: es) = (e.bytes 0).length + length es := rfl

@[simp] theorem length_append (es fs : List Edit) : length (es ++ fs) = length es + length fs := by
  induction es with
  | nil => simp
  | cons e es ih => simp [ih, Nat.add_assoc]

theorem length_bytes (e : Edit) (target : UInt32) :
    (e.bytes target).length = (e.bytes 0).length := by
  cases e with
  | forward jump => simp [bytes, ForwardJump.encode_instruction, Word.bytes]
  | _ => rfl

theorem bytes_of_jumps_eq_zero (h : e.jumps = 0) (target target' : UInt32) :
    e.bytes target = e.bytes target' := by
  cases e with
  | forward jump => cases h
  | _ => rfl

theorem valid_append :
    Valid n (es ++ fs) ↔ Valid n es ∧ Valid (n + jumpsAll es) fs := by
  induction es generalizing n with
  | nil => simp [Valid]
  | cons e es ih => simp [Valid, ih, and_assoc, Nat.add_assoc]

theorem image_append (targets : Nat → UInt32) (n : Nat) (es fs : List Edit) :
    image targets n (es ++ fs) = image targets n es ++ image targets (n + jumpsAll es) fs := by
  induction es generalizing n with
  | nil => simp [image]
  | cons e es ih => simp [image, ih, Nat.add_assoc]

theorem length_image (targets : Nat → UInt32) (n : Nat) (es : List Edit) :
    (image targets n es).length = length es := by
  induction es generalizing n with
  | nil => rfl
  | cons e es ih => simp [image, ih, length_bytes e (targets n)]

/-- The image depends on the targets of its own jumps only. -/
theorem image_congr (h : ∀ j, n ≤ j → j < n + jumpsAll es → targets j = targets' j) :
    image targets n es = image targets' n es := by
  induction es generalizing n with
  | nil => rfl
  | cons e es ih =>
    rw [jumpsAll_cons] at h
    have hbytes : e.bytes (targets n) = e.bytes (targets' n) := by
      rcases Nat.eq_zero_or_pos e.jumps with h₀ | hpos
      · exact bytes_of_jumps_eq_zero h₀ _ _
      · rw [h n (Nat.le_refl n) (by omega)]
    have hrest : image targets (n + e.jumps) es = image targets' (n + e.jumps) es :=
      ih fun j hj hlt => h j (by omega) (by omega)
    rw [image, image, hbytes, hrest]

theorem slots_append (addr : Nat) (es fs : List Edit) :
    slots addr (es ++ fs) = slots addr es ++ slots (addr + length es) fs := by
  induction es generalizing addr with
  | nil => simp [slots]
  | cons e es ih => simp [slots, ih, Nat.add_assoc]

theorem length_slots (addr : Nat) (es : List Edit) : (slots addr es).length = jumpsAll es := by
  induction es generalizing addr with
  | nil => rfl
  | cons e es ih => cases e <;> simp [slots, slot?, ih, jumps, Nat.add_comm]

/-! ### Targets -/

theorem lastTarget_append_of_ne_patch (h : ∀ jump target, e ≠ .patch jump target) :
    lastTarget (es ++ [e]) = lastTarget es := by
  funext jump
  have hnone : e.target? jump = none := by
    cases e with
    | patch jump' target => exact absurd rfl (h jump' target)
    | _ => rfl
  simp [lastTarget, hnone]

theorem lastTarget_append_patch (es : List Edit) (jump : Nat) (target : UInt32) :
    lastTarget (es ++ [.patch jump target]) =
      Function.update (lastTarget es) jump target := by
  funext jump'
  rcases eq_or_ne jump' jump with rfl | hne
  · simp [lastTarget, target?]
  · simp [lastTarget, target?, hne, hne.symm]

/-- A forward jump that is not there has no target. -/
theorem lastTarget_of_valid {jump : Nat} (h : Valid n es) (hjump : n + jumpsAll es ≤ jump) :
    lastTarget es jump = 0 := by
  have hnone : es.filterMap (target? jump) = [] := by
    induction es generalizing n with
    | nil => rfl
    | cons e es ih =>
      obtain ⟨hreach, hvalid⟩ := h
      rw [jumpsAll_cons] at hjump
      have he : e.target? jump = none := by
        cases e with
        | patch jump' target =>
          have hlt : jump' < n := hreach
          exact if_neg (by omega)
        | _ => rfl
      rw [List.filterMap_cons_none he]
      exact ih hvalid (by omega)
  rw [lastTarget, hnone]
  rfl

/-! ### The operand of a forward jump -/

theorem PutAt.cons {jump : Nat} (h : PutAt es jump addr) (e : Edit) :
    PutAt (e :: es) (e.jumps + jump) ((e.bytes 0).length + addr) := by
  obtain ⟨before, j, after, rfl, rfl, rfl⟩ := h
  exact ⟨e :: before, j, after, rfl, jumpsAll_cons .., length_cons ..⟩

theorem exists_putAt {jump : Nat} (h : jump < jumpsAll es) : ∃ addr, PutAt es jump addr := by
  induction es generalizing jump with
  | nil => cases h
  | cons e es ih =>
    rw [jumpsAll_cons] at h
    rcases Nat.lt_or_ge jump e.jumps with hlt | hge
    · cases e with
      | forward j =>
        have hjump : jump = 0 := Nat.lt_one_iff.1 hlt
        exact ⟨0, [], j, es, rfl, hjump.symm, rfl⟩
      | _ => cases hlt
    · obtain ⟨later, rfl⟩ := Nat.exists_eq_add_of_le hge
      obtain ⟨addr, hput⟩ := ih (show later < jumpsAll es by omega)
      exact ⟨_, hput.cons e⟩

/-- A slot is the operand of its own jump, and no part of the image hangs on the target there but
the operand. -/
theorem exists_operand {jump : Nat} (h : PutAt es jump addr) (targets : Nat → UInt32) :
    (slots 0 es)[jump]? = some ⟨addr + 1⟩ ∧
    ∃ front back, front.length = addr + 1 ∧
      image targets 0 es = front ++ Word.bytes (targets jump) ++ back ∧
      ∀ target, image (Function.update targets jump target) 0 es =
        front ++ Word.bytes target ++ back := by
  obtain ⟨before, j, after, rfl, rfl, rfl⟩ := h
  constructor
  · have hlen := length_slots 0 before
    rw [slots_append, List.getElem?_append_right (Nat.le_of_eq hlen), hlen, Nat.sub_self,
      Nat.zero_add]
    rfl
  · have hoperand : ∀ target, image (Function.update targets (jumpsAll before) target) 0
        (before ++ .forward j :: after) =
        image targets 0 before ++ [(j.instruction 0).lead] ++ Word.bytes target ++
          image targets (jumpsAll before + 1) after := by
      intro target
      have hbefore : image (Function.update targets (jumpsAll before) target) 0 before =
          image targets 0 before :=
        image_congr fun n _ hn => Function.update_of_ne (by omega) _ _
      have hafter : image (Function.update targets (jumpsAll before) target)
          (jumpsAll before + 1) after = image targets (jumpsAll before + 1) after :=
        image_congr fun n hn _ => Function.update_of_ne (by omega) _ _
      rw [image_append, hbefore, Nat.zero_add, image, Function.update_self]
      show _ ++ ((j.instruction target).encode ++ image _ (jumpsAll before + 1) after) = _
      rw [hafter, ForwardJump.encode_instruction]
      simp
    have hself := hoperand (targets (jumpsAll before))
    rw [Function.update_eq_self] at hself
    exact ⟨_, _, by simp [length_image], hself, hoperand⟩

/-- Words of different value in the same place differ nowhere else. -/
theorem getElem?_around_word {front back : List UInt8} (v w : UInt32) {k : Nat}
    (hk : ¬ (front.length ≤ k ∧ k < front.length + 4)) :
    (front ++ Word.bytes v ++ back)[k]? = (front ++ Word.bytes w ++ back)[k]? := by
  have hlen : ∀ word, (front ++ Word.bytes word).length = front.length + 4 := by
    intro word
    rw [List.length_append]
    rfl
  rcases Nat.lt_or_ge k front.length with hlt | hge
  · rw [List.append_assoc, List.append_assoc, List.getElem?_append_left hlt,
      List.getElem?_append_left hlt]
  · have hbehind : front.length + 4 ≤ k := by omega
    rw [List.getElem?_append_right (by rw [hlen]; exact hbehind),
      List.getElem?_append_right (by rw [hlen]; exact hbehind), hlen, hlen]

end Edit

theorem data_data (program : Program) (xs ys : List UInt8) :
    (program.data xs).data ys = program.data (xs ++ ys) :=
  congrArg Program.mk (Array.toList_inj.1 (by simp [data]))

/-- A patch replaces four bytes. -/
theorem patch?_eq (program : Program) {front back : List UInt8} {old : UInt32}
    (h : program.bytes.toList = front ++ Word.bytes old ++ back) (target : UInt32) :
    program.patch? ⟨front.length⟩ target = some ⟨(front ++ Word.bytes target ++ back).toArray⟩ := by
  have hword : (Word.bytes old).length = 4 := rfl
  have hsize : program.bytes.size = front.length + 4 + back.length := by
    rw [← Array.length_toList, h, List.length_append, List.length_append, hword]
  have hfront : program.bytes.toList.take front.length = front := by
    rw [h, List.append_assoc, List.take_left]
  have hback : program.bytes.toList.drop (front.length + 4) = back := by
    rw [h, List.drop_left' (by rw [List.length_append, hword])]
  have hrest : back.take (program.bytes.size - (front.length + 4)) = back :=
    List.take_of_length_le (by omega)
  rw [patch?, if_pos (show front.length + 4 ≤ program.bytes.size by omega)]
  refine congrArg (fun bytes => some (Program.mk bytes)) (Array.toList_inj.1 ?_)
  simp [hfront, hback, hrest]

namespace Draft

open Edit

/-- What edits leave of an empty draft. -/
def result (edits : List Edit) : Draft where
  program := ⟨(image (lastTarget edits) 0 edits).toArray⟩
  slots := Edit.slots 0 edits

theorem apply_result {edits : List Edit} {e : Edit} (h : Valid 0 edits)
    (he : e.Reaches (jumpsAll edits)) :
    (result edits).apply e = some (result (edits ++ [e])) := by
  have himage : ∀ targets, image targets 0 (edits ++ [e]) =
      image targets 0 edits ++ e.bytes (targets (jumpsAll edits)) := by
    intro targets
    rw [image_append, Nat.zero_add, image, image, List.append_nil]
  have hslots : Edit.slots 0 (edits ++ [e]) =
      Edit.slots 0 edits ++ (e.slot? (Edit.length edits)).toList := by
    rw [slots_append, Nat.zero_add, Edit.slots, Edit.slots, List.append_nil]
  rw [result, result, himage, hslots]
  cases e with
  | emit i =>
    rw [lastTarget_append_of_ne_patch (by simp)]
    simp [apply, Program.emit, Program.data, Edit.bytes, slot?]
  | data bytes =>
    rw [lastTarget_append_of_ne_patch (by simp)]
    simp [apply, Program.data, Edit.bytes, slot?]
  | forward jump =>
    -- nothing can have patched this jump yet, so that its target is the 0 it is put down with
    rw [lastTarget_append_of_ne_patch (by simp), lastTarget_of_valid h (by omega)]
    simp [apply, ForwardJump.put_eq, Program.emit, Program.data, Edit.bytes, slot?, length_image]
  | patch jump target =>
    -- the slot frames the operand, where the last target gives way to the new one
    obtain ⟨addr, hput⟩ := exists_putAt he
    obtain ⟨hslot, front, back, hfront, hold, hoperand⟩ := exists_operand hput (lastTarget edits)
    have hpatch := patch?_eq ⟨(image (lastTarget edits) 0 edits).toArray⟩ hold target
    rw [lastTarget_append_patch, hoperand target]
    simp [apply, hslot, ← hfront, hpatch, Edit.bytes, slot?]

theorem applyAll_result (before : List Edit) {edits : List Edit}
    (h : Valid 0 (before ++ edits)) :
    (result before).applyAll edits = some (result (before ++ edits)) := by
  induction edits generalizing before with
  | nil => rw [List.append_nil]; rfl
  | cons e es ih =>
    obtain ⟨hbefore, he, -⟩ := valid_append.1 h
    rw [Nat.zero_add] at he
    rw [List.append_cons] at h ⊢
    have hrest := ih _ h
    rw [applyAll, List.foldlM_cons, apply_result hbefore he]
    exact hrest

theorem applyAll_append (draft : Draft) (es fs : List Edit) :
    draft.applyAll (es ++ fs) = draft.applyAll es >>= fun draft => draft.applyAll fs :=
  List.foldlM_append

theorem applyAll_settle (draft : Draft) (e : Edit) (target : UInt32) :
    draft.applyAll (e.settle target).toList =
      some { draft with program := draft.program.data (e.bytes target) } := by
  cases e with
  | patch jump target' => simp [settle, applyAll, Program.data, Edit.bytes]
  | _ => rfl

/-- Edits with nothing to patch append what they emit. -/
theorem applyAll_settleAll (targets : Nat → UInt32) (n : Nat) (edits : List Edit)
    (draft : Draft) : draft.applyAll (settleAll targets n edits) =
      some { draft with program := draft.program.data (image targets n edits) } := by
  induction edits generalizing n draft with
  | nil => simp [settleAll, image, applyAll, Program.data]
  | cons e es ih =>
    rw [settleAll, applyAll_append, applyAll_settle]
    show applyAll _ _ = _
    rw [ih, data_data]
    rfl

variable {edits before after : List Edit} {jump jump' : Nat} {target target' : UInt32}

theorem applyAll_eq (h : Valid 0 edits) : applyAll {} edits = some (result edits) :=
  applyAll_result [] h

theorem toNat_here_result (h : Edit.length edits < 2 ^ 32) :
    (result edits).program.here.toNat = Edit.length edits := by
  have hsize : (result edits).program.bytes.size = Edit.length edits := by
    simp [result, length_image]
  have hlt : Edit.length edits < UInt32.size := h
  rw [here, hsize, if_pos hlt]
  exact UInt32.toNat_ofNat_of_lt' hlt

section

variable (edits) (jump) (target)

theorem image_append_patch (targets : Nat → UInt32) :
    image targets 0 (edits ++ [.patch jump target]) = image targets 0 edits := by
  simp [image_append, image, Edit.bytes]

theorem slots_append_patch :
    Edit.slots 0 (edits ++ [.patch jump target]) = Edit.slots 0 edits := by
  simp [slots_append, Edit.slots, slot?]

theorem result_append_patch :
    result (edits ++ [.patch jump target]) =
      ⟨⟨(image (Function.update (lastTarget edits) jump target) 0 edits).toArray⟩,
        Edit.slots 0 edits⟩ := by
  rw [result, lastTarget_append_patch, image_append_patch, slots_append_patch]

end

theorem result_patch_comm (edits : List Edit) (hjump : jump ≠ jump') (target target' : UInt32) :
    result (edits ++ [.patch jump target] ++ [.patch jump' target']) =
      result (edits ++ [.patch jump' target'] ++ [.patch jump target]) := by
  rw [result_append_patch, result_append_patch, lastTarget_append_patch, lastTarget_append_patch,
    image_append_patch, image_append_patch, slots_append_patch, slots_append_patch,
    Function.update_comm hjump]

/-- Patches of different jumps can change places. -/
theorem applyAll_patch_comm (hjump : jump ≠ jump')
    (h : Valid 0 (before ++ .patch jump target :: .patch jump' target' :: after)) :
    applyAll {} (before ++ .patch jump' target' :: .patch jump target :: after) =
      applyAll {} (before ++ .patch jump target :: .patch jump' target' :: after) := by
  have hsplit : ∀ p q : Edit, before ++ p :: q :: after = before ++ [p] ++ [q] ++ after := by simp
  obtain ⟨hbefore, hreach, hreach', hafter⟩ := valid_append.1 h
  have hswapped : Valid 0 (before ++ .patch jump' target' :: .patch jump target :: after) :=
    valid_append.2 ⟨hbefore, hreach', hreach, hafter⟩
  rw [hsplit] at h hswapped
  rw [hsplit, hsplit, applyAll_append, applyAll_append _ _ after,
    applyAll_eq (valid_append.1 h).1, applyAll_eq (valid_append.1 hswapped).1,
    result_patch_comm before hjump]

theorem apply_patch_result (h : Valid 0 edits) (hjump : jump < jumpsAll edits) :
    ∃ addr draft, PutAt edits jump addr ∧
      (result edits).apply (.patch jump target) = some draft ∧
      draft.program.bytes.size = (result edits).program.bytes.size ∧
      ∀ k, ¬ (addr + 1 ≤ k ∧ k < addr + 5) →
        draft.program.bytes[k]? = (result edits).program.bytes[k]? := by
  obtain ⟨addr, hput⟩ := exists_putAt hjump
  obtain ⟨-, front, back, hfront, hold, hoperand⟩ := exists_operand hput (lastTarget edits)
  refine ⟨addr, _, hput, apply_result (e := .patch jump target) h hjump, ?_, fun k hk => ?_⟩
  · simp [result, length_image, Edit.bytes]
  · rw [result_append_patch, hoperand, result, hold, List.getElem?_toArray, List.getElem?_toArray]
    exact getElem?_around_word _ _ (by omega)

end Draft

open Edit

/-- Take an empty program through edits that emit less than `2 ^ 32` bytes and patch only forward
jumps that are there. No patch is out of range, and at each point the address of the next byte is
the number of bytes emitted so far. The program comes out as if every forward jump had been emitted
with the last target patched into it, or 0. So two patches of different jumps can change places, and
a patch changes no byte but in the operand of its own jump. -/
theorem forwardJumps_patched (edits : List Edit) (hvalid : Valid 0 edits)
    (hlength : Edit.length edits < 2 ^ 32) :
    (∀ k, ∃ draft, Draft.applyAll {} (edits.take k) = some draft ∧
      draft.program.here.toNat = Edit.length (edits.take k)) ∧
    (∃ draft settled, Draft.applyAll {} edits = some draft ∧
      Draft.applyAll {} (settleAll (lastTarget edits) 0 edits) = some settled ∧
      draft.program.bytes = settled.program.bytes) ∧
    (∀ before jump jump' target target' after,
      edits = before ++ .patch jump target :: .patch jump' target' :: after → jump ≠ jump' →
      Draft.applyAll {} (before ++ .patch jump' target' :: .patch jump target :: after) =
        Draft.applyAll {} edits) ∧
    ∀ before jump target after, edits = before ++ .patch jump target :: after →
      ∃ addr draft draft', PutAt before jump addr ∧ Draft.applyAll {} before = some draft ∧
        draft.apply (.patch jump target) = some draft' ∧
        draft'.program.bytes.size = draft.program.bytes.size ∧
        ∀ k, ¬ (addr + 1 ≤ k ∧ k < addr + 5) →
          draft'.program.bytes[k]? = draft.program.bytes[k]? := by
  refine ⟨fun k => ?_, ?_, ?_, ?_⟩
  · have hsplit := List.take_append_drop k edits
    rw [← hsplit] at hvalid hlength
    rw [length_append] at hlength
    exact ⟨_, Draft.applyAll_eq (valid_append.1 hvalid).1, Draft.toNat_here_result (by omega)⟩
  · exact ⟨_, _, Draft.applyAll_eq hvalid, Draft.applyAll_settleAll .., by
      simp [Draft.result, Program.data]⟩
  · intro before jump jump' target target' after hedits hjump
    subst hedits
    exact Draft.applyAll_patch_comm hjump hvalid
  · intro before jump target after hedits
    subst hedits
    obtain ⟨hbefore, hjump, -⟩ := valid_append.1 hvalid
    have hlt : jump < 0 + jumpsAll before := hjump
    rw [Nat.zero_add] at hlt
    obtain ⟨addr, draft', hput, hdraft⟩ := Draft.apply_patch_result hbefore hlt
    exact ⟨addr, _, draft', hput, Draft.applyAll_eq hbefore, hdraft⟩

/-- Two forward jumps to the same end, one of them patched twice. -/
def skipTwice : List Edit :=
  [.forward .jez, .emit .out, .forward .jnz, .data [0xff], .patch 1 12, .patch 0 5, .emit .halt,
    .patch 0 12]

theorem forwardJumps_patched_skipTwice :
    Valid 0 skipTwice ∧ Edit.length skipTwice < 2 ^ 32 ∧
    (∃ draft, Draft.applyAll {} (skipTwice.take 4) = some draft ∧ draft.program.here.toNat = 12) ∧
    (∃ draft settled, Draft.applyAll {} skipTwice = some draft ∧
      Draft.applyAll {} [.emit (.jez 12), .emit .out, .emit (.jnz 12), .data [0xff], .emit .halt] =
        some settled ∧
      draft.program.bytes = settled.program.bytes) ∧
    Draft.applyAll {} [.forward .jez, .emit .out, .forward .jnz, .data [0xff], .patch 0 5,
      .patch 1 12, .emit .halt, .patch 0 12] = Draft.applyAll {} skipTwice := by
  have hvalid : Valid 0 skipTwice := by simp [skipTwice, Valid, Reaches, jumps]
  obtain ⟨hhere, hsettled, hcomm, -⟩ := forwardJumps_patched skipTwice hvalid (by decide)
  exact ⟨hvalid, by decide, hhere 4, hsettled,
    hcomm [.forward .jez, .emit .out, .forward .jnz, .data [0xff]] 1 0 12 5 _ rfl (by decide)⟩

end Program

end Tomtel
