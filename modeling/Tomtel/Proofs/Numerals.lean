import Mathlib.Data.Nat.Digits.Defs
import Tomtel.Proofs.Ascii
import Tomtel.Proofs.Groups

/-!
# Numerals

A numeral is a number as it may be written: a mark, which names the base, a plus sign or none, and
at least one digit. A numeral is read as its value if that is below `2 ^ 64`
(`Numeral.parse?_asciiBytes_text`), and only numerals are read as numbers
(`Numeral.exists_of_parse?`). So it is known which arguments are accepted, and as what:
`Numeral.number_grammar`.
-/

namespace Tomtel

open Argument (ofString)

namespace Numeral

/-- What stands in front of a number and names its base. -/
inductive Mark where
  | decimal
  | hex
  | upperHex
  deriving DecidableEq, Repr

def Mark.text : Mark → String
  | .decimal => ""
  | .hex => "0x"
  | .upperHex => "0X"

def Mark.base : Mark → Nat
  | .decimal => 10
  | .hex => 16
  | .upperHex => 16

def sign (plus : Bool) : String := if plus then "+" else ""

/-- A letter in the case asked for. -/
def letter (upper : Bool) (c : Char) : Char := if upper then c.toUpper else c

/-- A digit, with the case in which it is written if it is a letter. -/
structure Digit (base : Nat) where
  value : Fin base
  upper : Bool
  deriving DecidableEq, Repr

def Digit.char {base : Nat} (d : Digit base) : Char := letter d.upper (Nat.digitChar d.value)

/-- The value of digits, the most significant one first. -/
def valueOf {base : Nat} (digits : List (Digit base)) : Nat :=
  Nat.ofDigits base (digits.map fun d => d.value.val).reverse

end Numeral

/-- A number as it may be written. -/
structure Numeral where
  mark : Numeral.Mark
  plus : Bool
  digits : List (Numeral.Digit mark.base)
  digits_ne_nil : digits ≠ []

namespace Numeral

def text (m : Numeral) : String :=
  m.mark.text ++ sign m.plus ++ .ofList (m.digits.map Digit.char)

def value (m : Numeral) : Nat := valueOf m.digits

variable {mark : Mark} {base start v : Nat} {b : UInt8} {bytes rest : List UInt8}

theorem Mark.one_lt_base (mark : Mark) : 1 < mark.base := by
  cases mark <;> decide

theorem Mark.base_le (mark : Mark) : mark.base ≤ 16 := by
  cases mark <;> decide

/-! ### Digits -/

def hexDigits : List Char :=
  ['0', '1', '2', '3', '4', '5', '6', '7', '8', '9', 'A', 'B', 'C', 'D', 'E', 'F',
    'a', 'b', 'c', 'd', 'e', 'f']

theorem Digit.char_mem_hexDigits (d : Digit mark.base) : d.char ∈ hexDigits := by
  have hdigits : ∀ v < 16, ∀ upper, letter upper (Nat.digitChar v) ∈ hexDigits := by decide
  exact hdigits d.value (d.value.isLt.trans_le mark.base_le) d.upper

theorem Digit.digit?_char (d : Digit mark.base) :
    Number.digit? mark.base d.char.toUInt8 = some d.value.val := by
  have hdigits : ∀ value : Fin mark.base, ∀ upper,
      Number.digit? mark.base (Digit.mk value upper).char.toUInt8 = some value.val := by
    cases mark <;> decide
  exact hdigits d.value d.upper

theorem Digit.exists_of_digit? (h : Number.digit? mark.base b = some v) :
    ∃ d : Digit mark.base, b = d.char.toUInt8 := by
  have hbytes : ∀ n < 256, (Number.digit? mark.base (.ofNat n)).isSome →
      ∃ value : Fin mark.base, ∃ upper, UInt8.ofNat n = (Digit.mk value upper).char.toUInt8 := by
    cases mark <;> decide +kernel
  obtain ⟨value, upper, hb⟩ := hbytes b.toNat b.toNat_lt (by simp [h])
  exact ⟨⟨value, upper⟩, by rw [← hb, UInt8.ofNat_toNat]⟩

theorem valueOf_cons (d : Digit base) (digits : List (Digit base)) :
    valueOf (d :: digits) = d.value * base ^ digits.length + valueOf digits := by
  simp [valueOf, Nat.ofDigits_append]
  ring

theorem valueOf_concat (digits : List (Digit base)) (d : Digit base) :
    valueOf (digits ++ [d]) = base * valueOf digits + d.value := by
  simp [valueOf, Nat.ofDigits_cons, Nat.add_comm]

/-- Digits behind others of value `start`. -/
theorem digits?_asciiBytes (start : Nat) (digits : List (Digit mark.base)) :
    Number.digits? mark.base start (asciiBytes (digits.map Digit.char)) =
      some (start * mark.base ^ digits.length + valueOf digits) := by
  induction digits generalizing start with
  | nil => simp [Number.digits?, valueOf]
  | cons d digits ih =>
    rw [List.map_cons, asciiBytes_cons, Number.digits?, d.digit?_char]
    refine (ih (start * mark.base + d.value)).trans ?_
    rw [valueOf_cons, List.length_cons]
    congr 1
    ring

/-- Bytes that are read to their end are digits. -/
theorem exists_of_digits? (h : (Number.digits? mark.base start bytes).isSome) :
    ∃ digits : List (Digit mark.base), bytes = asciiBytes (digits.map Digit.char) := by
  induction bytes generalizing start with
  | nil => exact ⟨[], rfl⟩
  | cons b bytes ih =>
    rw [Number.digits?] at h
    split at h
    · rename_i v hv
      obtain ⟨d, rfl⟩ := Digit.exists_of_digit? hv
      obtain ⟨digits, rfl⟩ := ih h
      exact ⟨d :: digits, rfl⟩
    · cases h

/-! ### Marks and signs -/

theorem base_of_notMem (hx : 0x78 ∉ bytes) (hX : 0x58 ∉ bytes) :
    Number.base bytes = (10, bytes) := by
  unfold Number.base
  split
  · simp at hx
  · simp at hX
  · rfl

theorem dropSign_of_notMem (h : 0x2b ∉ bytes) : Number.dropSign bytes = bytes := by
  unfold Number.dropSign
  split
  · simp at h
  · rfl

theorem base_mark (mark : Mark) (hx : 0x78 ∉ rest) (hX : 0x58 ∉ rest) :
    Number.base (asciiBytes mark.text.toList ++ rest) = (mark.base, rest) := by
  cases mark with
  | decimal => exact base_of_notMem hx hX
  | hex => rfl
  | upperHex => rfl

theorem dropSign_sign (plus : Bool) (h : 0x2b ∉ rest) :
    Number.dropSign (asciiBytes (sign plus).toList ++ rest) = rest := by
  cases plus with
  | false => exact dropSign_of_notMem h
  | true => rfl

/-- Behind its mark, if any, stands what is read in the base. -/
theorem exists_mark (bytes : List UInt8) : ∃ mark : Mark, (Number.base bytes).1 = mark.base ∧
    bytes = asciiBytes mark.text.toList ++ (Number.base bytes).2 := by
  unfold Number.base
  split
  · exact ⟨.hex, rfl, rfl⟩
  · exact ⟨.upperHex, rfl, rfl⟩
  · exact ⟨.decimal, rfl, rfl⟩

theorem exists_sign (bytes : List UInt8) :
    ∃ plus, bytes = asciiBytes (sign plus).toList ++ Number.dropSign bytes := by
  unfold Number.dropSign
  split
  · exact ⟨true, rfl⟩
  · exact ⟨false, rfl⟩

/-! ### The characters of a numeral -/

variable {m : Numeral}

/-- What stands behind the mark. -/
def tail (m : Numeral) : List Char := (sign m.plus).toList ++ m.digits.map Digit.char

theorem toList_text (m : Numeral) : m.text.toList = m.mark.text.toList ++ m.tail := by
  simp [text, tail]

theorem chars_subset (m : Numeral) : m.digits.map Digit.char ⊆ hexDigits := by
  intro c hc
  obtain ⟨d, -, rfl⟩ := List.mem_map.1 hc
  exact d.char_mem_hexDigits

theorem tail_subset (m : Numeral) : m.tail ⊆ '+' :: hexDigits := by
  have hsign : ∀ plus, (sign plus).toList ⊆ '+' :: hexDigits := by decide
  exact List.append_subset.2 ⟨hsign m.plus, List.subset_cons_of_subset _ m.chars_subset⟩

/-- The characters of numerals. -/
def alphabet : List Char := 'X' :: 'x' :: '+' :: hexDigits

theorem text_subset (m : Numeral) : m.text.toList ⊆ alphabet := by
  have hmark : m.mark.text.toList ⊆ alphabet := by
    cases m.mark <;> decide
  rw [toList_text]
  exact List.append_subset.2
    ⟨hmark, List.subset_cons_of_subset _ (List.subset_cons_of_subset _ m.tail_subset)⟩

theorem isAscii_text (m : Numeral) : IsAscii m.text.toList := by
  have halphabet : IsAscii alphabet := by
    simp [IsAscii, alphabet, hexDigits]
  exact fun c hc => halphabet c (m.text_subset hc)

/-- Behind its second character a numeral has no letter of a mark. -/
theorem drop_text_subset (m : Numeral) : m.text.toList.drop 2 ⊆ '+' :: hexDigits := by
  have hlength : m.mark.text.toList.length ≤ 2 := by
    cases m.mark <;> decide
  rw [toList_text, List.drop_append, List.drop_eq_nil_of_le hlength, List.nil_append]
  exact fun c hc => m.tail_subset (List.mem_of_mem_drop hc)

/-! ### Reading -/

variable {n : UInt64}

/-- There are digits behind the mark and the sign, and their value fits. -/
theorem parse?_eq_some_iff : Number.parse? bytes = some n ↔
    Number.dropSign (Number.base bytes).2 ≠ [] ∧
      Number.digits? (Number.base bytes).1 0 (Number.dropSign (Number.base bytes).2) =
        some n.toNat := by
  unfold Number.parse?
  simp only
  split
  · rename_i hnil
    simp [hnil]
  · rename_i hne
    rw [and_iff_right fun hnil => hne hnil]
    split
    · rename_i v hv
      rw [hv]
      constructor
      · intro h
        split_ifs at h with hlt
        cases h
        rw [UInt64.toNat_ofNat_of_lt' hlt]
      · rintro ⟨⟩
        rw [if_pos n.toNat_lt, UInt64.ofNat_toNat]
    · rename_i hnone
      simp [hnone]

theorem base_text (m : Numeral) :
    Number.base (asciiBytes m.text.toList) = (m.mark.base, asciiBytes m.tail) := by
  have htail := asciiBytes_subset m.tail_subset
  rw [toList_text, asciiBytes_append]
  exact base_mark m.mark (fun hx => absurd (htail hx) (by decide))
    fun hX => absurd (htail hX) (by decide)

theorem dropSign_tail (m : Numeral) :
    Number.dropSign (asciiBytes m.tail) = asciiBytes (m.digits.map Digit.char) := by
  rw [tail, asciiBytes_append]
  exact dropSign_sign m.plus fun hplus =>
    absurd (asciiBytes_subset m.chars_subset hplus) (by decide)

/-- A numeral is read as its value. -/
theorem parse?_asciiBytes_text (m : Numeral) :
    Number.parse? (asciiBytes m.text.toList) = some n ↔ m.value = n.toNat := by
  have hne : asciiBytes (m.digits.map Digit.char) ≠ [] := by
    simp [asciiBytes, m.digits_ne_nil]
  rw [parse?_eq_some_iff, base_text, dropSign_tail, digits?_asciiBytes, and_iff_right hne]
  simp [value]

/-- Nothing else is read as a number. -/
theorem exists_of_parse? (h : Number.parse? bytes = some n) :
    ∃ m : Numeral, bytes = asciiBytes m.text.toList := by
  obtain ⟨hne, hdigits⟩ := parse?_eq_some_iff.1 h
  obtain ⟨mark, hbase, hmark⟩ := exists_mark bytes
  obtain ⟨plus, hsign⟩ := exists_sign (Number.base bytes).2
  rw [hbase] at hdigits
  obtain ⟨digits, hchars⟩ := exists_of_digits? (Option.isSome_of_eq_some hdigits)
  rw [hchars] at hne hsign
  have hdigits_ne : digits ≠ [] := by
    rintro rfl
    exact hne rfl
  refine ⟨⟨mark, plus, digits, hdigits_ne⟩, ?_⟩
  rw [toList_text, tail, asciiBytes_append, asciiBytes_append, ← hsign]
  exact hmark

/-! ### Renderings -/

/-- `n` written in the base of the mark, behind zeros. -/
def Mark.render (mark : Mark) (plus upper : Bool) (zeros n : Nat) : String :=
  mark.text ++ sign plus ++
    .ofList (List.replicate zeros '0' ++ (Nat.toDigits mark.base n).map (letter upper))

theorem exists_toDigits (hbase : 1 < base) (upper : Bool) (n : Nat) :
    ∃ digits : List (Digit base), digits ≠ [] ∧
      digits.map Digit.char = (Nat.toDigits base n).map (letter upper) ∧ valueOf digits = n := by
  induction n using Nat.strongRecOn with
  | ind n ih =>
    rw [Nat.toDigits_eq_if hbase]
    split_ifs with hn
    · exact ⟨[⟨⟨n, hn⟩, upper⟩], by simp, rfl, by simp [valueOf]⟩
    · obtain ⟨digits, -, hchars, hvalue⟩ :=
        ih (n / base) (Nat.div_lt_self (by omega) hbase)
      have hmod : n % base < base := Nat.mod_lt n (by omega)
      refine ⟨digits ++ [⟨⟨n % base, hmod⟩, upper⟩], by simp, ?_, ?_⟩
      · rw [List.map_append, List.map_append, hchars]
        rfl
      · rw [valueOf_concat, hvalue]
        exact Nat.div_add_mod n base

/-- A rendering is a numeral. -/
theorem exists_render (mark : Mark) (plus upper : Bool) (zeros n : Nat) :
    ∃ m : Numeral, m.text = mark.render plus upper zeros n ∧ m.value = n := by
  obtain ⟨digits, hne, hchars, hvalue⟩ := exists_toDigits mark.one_lt_base upper n
  let zero : Digit mark.base := ⟨⟨0, Nat.zero_lt_of_lt mark.one_lt_base⟩, false⟩
  have hzero : zero.char = '0' := rfl
  refine ⟨⟨mark, plus, List.replicate zeros zero ++ digits, by simp [hne]⟩, ?_, ?_⟩
  · simp [text, Mark.render, hchars, hzero]
  · rw [← hvalue]
    simp [value, valueOf, zero, Nat.ofDigits_append_replicate_zero]

/-! ### Arguments -/

/-- Arguments that are no numbers, each kind for one reason. -/
inductive Refused (arg : Argument) : Prop
  /-- There is no digit. -/
  | noDigit (mark : Mark) (plus : Bool) (h : arg.text = mark.text ++ sign plus)
  /-- There is a separator, a minus sign or another character that no numeral has. -/
  | stray {c : Char} (hc : c ∉ alphabet) (h : c ∈ arg.text.toList)
  /-- There is a mark behind the mark. -/
  | secondMark {mark mark' : Mark} {rest : String} (hmark : mark.base = 16)
      (hmark' : mark'.base = 16) (h : arg.text = mark.text ++ mark'.text ++ rest)
  | tooLarge {m : Numeral} (hm : 2 ^ 64 ≤ m.value) (h : arg.text = m.text)
  /-- The bytes are not those of a text. -/
  | undecodable (h : ∀ text, arg ≠ ofString text)

variable {flag : String} {arg : Argument}

theorem parse?_eq_some_iff_exists : Number.parse? arg.bytes = some n ↔
    ∃ m : Numeral, arg.text = m.text ∧ m.value = n.toNat := by
  have hbytes : ∀ m : Numeral, arg.text = m.text ↔ arg.bytes = asciiBytes m.text.toList :=
    fun m => Utf8.decodeLossy_eq_iff m.isAscii_text
  constructor
  · intro h
    obtain ⟨m, hm⟩ := exists_of_parse? h
    rw [hm, parse?_asciiBytes_text] at h
    exact ⟨m, (hbytes m).2 hm, h⟩
  · rintro ⟨m, htext, hvalue⟩
    rwa [(hbytes m).1 htext, parse?_asciiBytes_text]

theorem numberFor_eq_ok_iff_exists : numberFor flag (some arg) = .ok n ↔
    ∃ m : Numeral, arg.text = m.text ∧ m.value = n.toNat := by
  rw [← parse?_eq_some_iff_exists, numberFor_eq_ok_iff]
  simp

theorem numberFor_eq_error_iff_forall :
    numberFor flag (some arg) = .error (.invalidValue flag arg) ↔
      ∀ m : Numeral, arg.text = m.text → 2 ^ 64 ≤ m.value := by
  have hnone : numberFor flag (some arg) = .error (.invalidValue flag arg) ↔
      Number.parse? arg.bytes = none := by
    simp [numberFor_eq_error_iff]
  rw [hnone, Option.eq_none_iff_forall_ne_some]
  constructor
  · intro h m htext
    by_contra hle
    have hlt : m.value < 2 ^ 64 := Nat.lt_of_not_le hle
    refine h (.ofNat m.value) (parse?_eq_some_iff_exists.2 ⟨m, htext, ?_⟩)
    rw [UInt64.toNat_ofNat_of_lt' hlt]
  · intro h n hn
    obtain ⟨m, htext, hvalue⟩ := parse?_eq_some_iff_exists.1 hn
    have hle := h m htext
    have hlt := n.toNat_lt
    omega

/-- What is refused shows no numeral of a value below `2 ^ 64`. -/
theorem Refused.le_value (h : Refused arg) (htext : arg.text = m.text) : 2 ^ 64 ≤ m.value := by
  by_contra hle
  have hlt : m.value < 2 ^ 64 := Nat.lt_of_not_le hle
  have hparse : Number.parse? (asciiBytes m.text.toList) = some (.ofNat m.value) := by
    rw [parse?_asciiBytes_text, UInt64.toNat_ofNat_of_lt' hlt]
  cases h with
  | noDigit mark plus h =>
    rw [← htext, h] at hparse
    cases mark <;> cases plus <;> cases hparse
  | stray hc h =>
    rw [htext] at h
    exact hc (m.text_subset h)
  | @secondMark mark mark' rest hmark hmark' h =>
    have hletter : ∃ c, c ∈ m.text.toList.drop 2 ∧ c ∉ '+' :: hexDigits := by
      rw [← htext, h]
      cases mark <;> cases hmark <;> cases mark' <;> cases hmark'
      · exact ⟨'x', by simp [Mark.text], by decide⟩
      · exact ⟨'X', by simp [Mark.text], by decide⟩
      · exact ⟨'x', by simp [Mark.text], by decide⟩
      · exact ⟨'X', by simp [Mark.text], by decide⟩
    obtain ⟨c, hmem, hnot⟩ := hletter
    exact hnot (m.drop_text_subset hmem)
  | @tooLarge m' hm h =>
    -- the same text cannot have two values
    rw [← htext, h, parse?_asciiBytes_text, UInt64.toNat_ofNat_of_lt' hlt] at hparse
    omega
  | undecodable h => exact h m.text ((Argument.text_eq_iff m.isAscii_text).1 htext)

/-- An argument is read as a number exactly if it shows a numeral of a value below `2 ^ 64`, and
then as that value; any other argument is invalid. So is one without a digit, one with a character
that no numeral has, one with a mark behind its mark, one that shows a numeral of a larger value and
one that is not UTF-8. A number is read back from every rendering of it, decimal or hexadecimal, in
letters of either case and behind any count of zeros. -/
theorem number_grammar (flag : String) (arg : Argument) :
    (∀ n : UInt64, numberFor flag (some arg) = .ok n ↔
      ∃ m : Numeral, arg.text = m.text ∧ m.value = n.toNat) ∧
    (numberFor flag (some arg) = .error (.invalidValue flag arg) ↔
      ∀ m : Numeral, arg.text = m.text → 2 ^ 64 ≤ m.value) ∧
    (Refused arg → numberFor flag (some arg) = .error (.invalidValue flag arg)) ∧
    ∀ (mark : Mark) (plus upper : Bool) (zeros : Nat) (n : UInt64),
      numberFor flag (some (ofString (mark.render plus upper zeros n.toNat))) = .ok n := by
  refine ⟨fun n => numberFor_eq_ok_iff_exists, numberFor_eq_error_iff_forall,
    fun h => numberFor_eq_error_iff_forall.2 fun m htext => h.le_value htext, ?_⟩
  intro mark plus upper zeros n
  obtain ⟨m, htext, hvalue⟩ := exists_render mark plus upper zeros n.toNat
  refine numberFor_eq_ok_iff_exists.2 ⟨m, ?_, hvalue⟩
  rw [← htext, Argument.text_eq_iff m.isAscii_text]

/-- A sign behind the mark, a zero and letters of both cases; and a number that is too large. -/
theorem number_grammar_signed :
    let arg := ofString "0X+0fF"
    let large := ofString "18446744073709551616"
    numberFor "--count" (some arg) = .ok 255 ∧ Refused large ∧
      numberFor "--count" (some large) = .error (.invalidValue "--count" large) := by
  intro arg large
  let m : Numeral :=
    { mark := .upperHex
      plus := true
      digits := [⟨⟨0, by decide⟩, false⟩, ⟨⟨15, by decide⟩, false⟩, ⟨⟨15, by decide⟩, true⟩]
      digits_ne_nil := by decide }
  have hm : m.text = "0X+0fF" := by decide
  have htext : arg.text = m.text := by
    rw [Argument.text_eq_iff m.isAscii_text, hm]
  obtain ⟨m', htext', hvalue'⟩ := exists_render .decimal false false 0 (2 ^ 64)
  have hlarge : large.text = m'.text := by
    rw [Argument.text_eq_iff m'.isAscii_text, htext']
    rfl
  have hrefused : Refused large := .tooLarge hvalue'.ge hlarge
  exact ⟨((number_grammar "--count" arg).1 255).2 ⟨m, htext, by decide⟩, hrefused,
    (number_grammar "--count" large).2.2.1 hrefused⟩

/-- A sign does not stand in front of a mark. -/
example : numberFor "--count" (some (ofString "+0x1")) =
    .error (.invalidValue "--count" (ofString "+0x1")) := rfl

end Numeral

end Tomtel
