import Mathlib.Data.String.Basic
import Mathlib.Tactic.GCongr
import Mathlib.Tactic.Ring
import Mathlib.Tactic.SplitIfs
import Tomtel.CommandLine.Argument

/-!
# ASCII arguments

An ASCII character is one byte and no other bytes are decoded to it: where bytes are malformed, or
stand for another character, what is shown is no ASCII character (`Utf8.le_toNat_next`). So an
argument shows a text of ASCII characters exactly if it holds it: `Argument.text_eq_iff`.
-/

namespace Tomtel

/-- All characters are below `0x80`. -/
def IsAscii (text : List Char) : Prop := ∀ c ∈ text, c.toNat < 0x80

/-- Characters as bytes, one byte each. -/
def asciiBytes (text : List Char) : List UInt8 := text.map Char.toUInt8

theorem isAscii_cons {c : Char} {text : List Char} :
    IsAscii (c :: text) ↔ c.toNat < 0x80 ∧ IsAscii text := by
  simp [IsAscii]

@[simp] theorem asciiBytes_nil : asciiBytes [] = [] := rfl

@[simp] theorem asciiBytes_cons (c : Char) (text : List Char) :
    asciiBytes (c :: text) = c.toUInt8 :: asciiBytes text := rfl

@[simp] theorem asciiBytes_append (text text' : List Char) :
    asciiBytes (text ++ text') = asciiBytes text ++ asciiBytes text' :=
  List.map_append

theorem asciiBytes_subset {text text' : List Char} (h : text ⊆ text') :
    asciiBytes text ⊆ asciiBytes text' :=
  List.map_subset _ h

namespace Utf8

variable {bytes rest : List UInt8} {b low high : UInt8} {extra value result : Nat} {lead : Lead}
  {text : String} {c : Char} {cs : List Char}

/-! ### One character -/

theorem exists_of_follow_succ (h : (follow (extra + 1) low high value bytes).1 = some result) :
    ∃ b rest, low ≤ b ∧ b ≤ high ∧
      (follow extra 0x80 0xbf (value * 64 + (b.toNat - 0x80)) rest).1 = some result := by
  rcases bytes with _ | ⟨b, rest⟩
  · cases h
  · rw [follow] at h
    split_ifs at h with hb
    exact ⟨b, rest, hb.1, hb.2, h⟩

/-- What following bytes make of a value lies between what the bounds of the first of them make of
it. -/
theorem bounds_of_follow (hlow : 0x80 ≤ low.toNat) (hhigh : high.toNat ≤ 0xbf)
    (h : (follow (extra + 1) low high value bytes).1 = some result) :
    (value * 64 + (low.toNat - 0x80)) * 64 ^ extra ≤ result ∧
      result < (value * 64 + (high.toNat - 0x80) + 1) * 64 ^ extra := by
  induction extra generalizing low high value bytes with
  | zero =>
    obtain ⟨b, rest, hle, hge, hb⟩ := exists_of_follow_succ h
    simp only [UInt8.le_iff_toNat_le] at hle hge
    simp only [follow, Option.some.injEq] at hb
    omega
  | succ extra ih =>
    obtain ⟨b, rest, hle, hge, hb⟩ := exists_of_follow_succ h
    simp only [UInt8.le_iff_toNat_le] at hle hge
    obtain ⟨hmin, hmax⟩ := ih (by decide) (by decide) hb
    simp only [UInt8.reduceToNat] at hmin hmax
    constructor
    · calc (value * 64 + (low.toNat - 0x80)) * 64 ^ (extra + 1)
          ≤ (value * 64 + (b.toNat - 0x80)) * 64 ^ (extra + 1) := by gcongr
        _ = ((value * 64 + (b.toNat - 0x80)) * 64 + (0x80 - 0x80)) * 64 ^ extra := by ring
        _ ≤ result := hmin
    · calc result
          < ((value * 64 + (b.toNat - 0x80)) * 64 + (0xbf - 0x80) + 1) * 64 ^ extra := hmax
        _ = (value * 64 + (b.toNat - 0x80) + 1) * 64 ^ (extra + 1) := by ring
        _ ≤ (value * 64 + (high.toNat - 0x80) + 1) * 64 ^ (extra + 1) := by gcongr

/-- Whatever follows a byte that starts a longer sequence, the sequence stands for a character, and
for none of ASCII. -/
theorem scalar_of_lead (hb : 0x80 ≤ b) (hlead : Lead.ofByte? b = some lead)
    (h : (follow lead.extra lead.low lead.high lead.bits rest).1 = some result) :
    result.isValidChar ∧ 0x80 ≤ result := by
  revert hlead
  fun_cases Lead.ofByte? b
  case case1 hlt => exact absurd hlt (UInt8.not_lt.2 hb)
  case case2 | case10 => rintro ⟨⟩
  -- the kinds of longer sequences, for each of which the bounds are numbers
  all_goals
    intro hlead
    cases hlead
    dsimp only at h
    obtain ⟨hmin, hmax⟩ := bounds_of_follow (by decide) (by decide) h
    simp only [UInt8.reduceToNat, UInt8.lt_iff_toNat_lt, UInt8.le_iff_toNat_le,
      ← UInt8.toNat_inj] at *
    rw [Nat.isValidChar]
    omega

/-- A byte from `0x80` on shows no ASCII character. -/
theorem le_toNat_next (hb : 0x80 ≤ b) : 0x80 ≤ (next b rest).1.toNat := by
  unfold next
  split
  · decide
  · rename_i lead hlead
    split
    · rename_i value read hfollow
      obtain ⟨hvalid, hle⟩ := scalar_of_lead hb hlead (congrArg Prod.fst hfollow)
      show 0x80 ≤ (Char.ofNat value).toNat
      rw [Char.ofNat, dif_pos hvalid]
      exact hle
    · show 0x80 ≤ replacement.toNat
      decide

theorem toNat_toUInt8 (hc : c.toNat < 0x80) : c.toUInt8.toNat = c.toNat := by
  show c.toNat % 256 = c.toNat
  omega

theorem exists_toUInt8_of_lt (hb : b < 0x80) : ∃ c : Char, c.toNat < 0x80 ∧ c.toUInt8 = b := by
  have hchar : ∀ n < 0x80, (Char.ofNat n).toNat < 0x80 ∧ (Char.ofNat n).toUInt8 = .ofNat n := by
    decide
  obtain ⟨hlt, hbyte⟩ := hchar b.toNat hb
  exact ⟨_, hlt, hbyte.trans UInt8.ofNat_toNat⟩

theorem next_toUInt8 (hc : c.toNat < 0x80) : next c.toUInt8 rest = (c, 0) := by
  have hb : c.toUInt8 < 0x80 := by
    rw [UInt8.lt_iff_toNat_lt, toNat_toUInt8 hc]
    exact hc
  simp [next, Lead.ofByte?, hb, follow, toNat_toUInt8 hc]

/-- A byte shows an ASCII character only if it is that character. -/
theorem next_eq_iff (hc : c.toNat < 0x80) : (next b rest).1 = c ↔ b = c.toUInt8 := by
  constructor
  · rintro rfl
    have hb : b < 0x80 := by
      by_contra hb
      have hle : 0x80 ≤ (next b rest).1.toNat := le_toNat_next (UInt8.not_lt.1 hb)
      omega
    obtain ⟨c, hc', rfl⟩ := exists_toUInt8_of_lt hb
    rw [next_toUInt8 hc']
  · rintro rfl
    rw [next_toUInt8 hc]

/-! ### Text -/

/-- Text stays as it is when more is decoded. -/
theorem exists_toList_appendLossy (text : String) (bytes : List UInt8) :
    ∃ more, (appendLossy text bytes).toList = text.toList ++ more := by
  fun_induction appendLossy text bytes with
  | case1 text => exact ⟨[], (List.append_nil _).symm⟩
  | case2 text b rest ih =>
    obtain ⟨more, hmore⟩ := ih
    exact ⟨(next b rest).1 :: more, by simp [hmore]⟩

theorem toList_appendLossy_cons_eq_iff :
    (appendLossy text (b :: rest)).toList = text.toList ++ c :: cs ↔
      (next b rest).1 = c ∧ (appendLossy (text.push c) (rest.drop (next b rest).2)).toList =
        (text.push c).toList ++ cs := by
  rw [appendLossy]
  constructor
  · intro h
    obtain ⟨more, hmore⟩ :=
      exists_toList_appendLossy (text.push (next b rest).1) (rest.drop (next b rest).2)
    obtain ⟨rfl, rfl⟩ : (next b rest).1 = c ∧ more = cs := by
      simpa [hmore] using h
    exact ⟨rfl, hmore⟩
  · rintro ⟨rfl, h⟩
    simp [h]

theorem toList_appendLossy_eq_iff (hcs : IsAscii cs) :
    (appendLossy text bytes).toList = text.toList ++ cs ↔ bytes = asciiBytes cs := by
  induction cs generalizing text bytes with
  | nil =>
    rcases bytes with _ | ⟨b, rest⟩
    · simp [appendLossy]
    · obtain ⟨more, hmore⟩ :=
        exists_toList_appendLossy (text.push (next b rest).1) (rest.drop (next b rest).2)
      simp [appendLossy, hmore]
  | cons c cs ih =>
    obtain ⟨hc, hcs⟩ := isAscii_cons.1 hcs
    rcases bytes with _ | ⟨b, rest⟩
    · simp [appendLossy]
    · rw [toList_appendLossy_cons_eq_iff, ih hcs, next_eq_iff hc, asciiBytes_cons,
        List.cons.injEq]
      refine and_congr_right ?_
      rintro rfl
      rw [next_toUInt8 hc, List.drop_zero]

/-- Bytes are decoded to a text of ASCII characters exactly if they are those characters. -/
theorem decodeLossy_eq_iff (h : IsAscii text.toList) :
    decodeLossy bytes = text ↔ bytes = asciiBytes text.toList := by
  have happend : (appendLossy "" bytes).toList = "".toList ++ text.toList ↔ _ :=
    toList_appendLossy_eq_iff h
  rw [← happend, ← String.toList_inj]
  rfl

end Utf8

namespace Argument

variable {arg : Argument} {text : String}

theorem bytes_ofString (h : IsAscii text.toList) :
    (ofString text).bytes = asciiBytes text.toList := by
  have hflat : text.toList.flatMap String.utf8EncodeChar = asciiBytes text.toList := by
    rw [asciiBytes, List.map_eq_flatMap]
    refine List.flatMap_congr fun c hc => ?_
    have hle : c.val.toNat ≤ 127 := Nat.le_of_lt_succ (h c hc)
    rw [String.utf8EncodeChar, if_pos hle]
    rfl
  rw [← hflat, ofString, String.toUTF8_eq_toByteArray, ← String.utf8Encode_toList, List.utf8Encode]
  simp

/-- An argument shows a text of ASCII characters exactly if it is that text. -/
theorem text_eq_iff (h : IsAscii text.toList) : arg.text = text ↔ arg = ofString text := by
  rw [Argument.text, Utf8.decodeLossy_eq_iff h, ← bytes_ofString h]
  exact ⟨congrArg Argument.mk, congrArg Argument.bytes⟩

end Argument

end Tomtel
