import Mathlib.Algebra.Group.Nat.Defs
import Tomtel.CommandLine.Command
import Tomtel.Proofs.Groups

/-!
# The grammar of `disasm` lines

The arguments behind `disasm` are read as groups in one way (`grouping_iff`). A line is accepted
exactly if its groups ask for a request (`DisasmGroup.Asks`), for which the last of several starts
and of several counts is of account, but each of them must be a number. Otherwise the first group
that offends decides what is said of the line: `listing_line_grammar`.
-/

namespace Tomtel

open Argument (ofString)

namespace DisasmGroup

/-- The words of a line that are not taken for an input path. -/
def words : List String := ["-h", "--help", "--start", "--count", "--legacy-imm32"]

/-- How a line is read as groups, from left to right. A flag that takes a value takes the argument
behind it, whatever that is, and goes without at the end of the line. -/
inductive Grouping : List Argument → List DisasmGroup → Prop
  | nil : Grouping [] []
  | help {word : String} {rest : List Argument} {groups : List DisasmGroup}
      (hword : word = "-h" ∨ word = "--help") (h : Grouping rest groups) :
      Grouping (ofString word :: rest) (.help :: groups)
  | start {rest : List Argument} {groups : List DisasmGroup} (value : Argument)
      (h : Grouping rest groups) :
      Grouping (ofString "--start" :: value :: rest) (.start (some value) :: groups)
  | startAtEnd : Grouping [ofString "--start"] [.start none]
  | count {rest : List Argument} {groups : List DisasmGroup} (value : Argument)
      (h : Grouping rest groups) :
      Grouping (ofString "--count" :: value :: rest) (.count (some value) :: groups)
  | countAtEnd : Grouping [ofString "--count"] [.count none]
  | legacy {rest : List Argument} {groups : List DisasmGroup} (h : Grouping rest groups) :
      Grouping (ofString "--legacy-imm32" :: rest) (.legacy :: groups)
  | positional {arg : Argument} {rest : List Argument} {groups : List DisasmGroup}
      (harg : ∀ word ∈ words, arg ≠ ofString word) (h : Grouping rest groups) :
      Grouping (arg :: rest) (.positional arg :: groups)

/-- The number that the value of a flag names. -/
def number? (value : Option Argument) : Option UInt64 :=
  value.bind fun arg => Number.parse? arg.bytes

def start? : DisasmGroup → Option UInt64
  | .start value => number? value
  | _ => none

def count? : DisasmGroup → Option UInt64
  | .count value => number? value
  | _ => none

def positional? : DisasmGroup → Option Argument
  | .positional arg => some arg
  | _ => none

/-- A flag that takes a number has one, and a start is below `2 ^ 32`. -/
def IsValid : DisasmGroup → Prop
  | .start value => ∃ n, number? value = some n ∧ n.toNat < 2 ^ 32
  | .count value => ∃ n, number? value = some n
  | _ => True

/-- What groups ask for. But for the last start and the last count, their order is of no account. -/
structure Asks (groups : List DisasmGroup) (request : DisasmRequest) : Prop where
  help : .help ∉ groups
  valid : ∀ group ∈ groups, group.IsValid
  input : groups.filterMap positional? = [request.input]
  dash : request.input.startsWithDash = false
  start : request.start.toNat = ((groups.filterMap start?).getLast?.map UInt64.toNat).getD 0
  count : request.count = (groups.filterMap count?).getLast?
  legacy : request.legacy = true ↔ .legacy ∈ groups

/-- The group cannot be taken behind those before it, and this is what is said of it. -/
inductive Offends (before : List DisasmGroup) : DisasmGroup → Interruption → Prop
  | help : Offends before .help .help
  | startWithoutValue : Offends before (.start none) (.error (.missingValue "--start"))
  | invalidStart {value : Argument} (hn : Number.parse? value.bytes = none) :
      Offends before (.start (some value)) (.error (.invalidValue "--start" value))
  | startOutOfRange {value : Argument} {n : UInt64} (hn : Number.parse? value.bytes = some n)
      (hrange : 2 ^ 32 ≤ n.toNat) :
      Offends before (.start (some value)) (.error (.addressOutOfRange n))
  | countWithoutValue : Offends before (.count none) (.error (.missingValue "--count"))
  | invalidCount {value : Argument} (hn : Number.parse? value.bytes = none) :
      Offends before (.count (some value)) (.error (.invalidValue "--count" value))
  | unknownOption {arg : Argument} (harg : arg.startsWithDash = true) :
      Offends before (.positional arg) (.error (.unknownOption arg))
  | multipleInputs {arg given : Argument} (harg : arg.startsWithDash = false)
      (h : .positional given ∈ before) : Offends before (.positional arg) (.error .multipleInputs)

variable {arg : Argument} {rest line : List Argument} {groups : List DisasmGroup}
  {make : Option Argument → DisasmGroup} {value : Option Argument} {n : UInt64}

theorem number?_eq_some_iff : number? value = some n ↔
    ∃ arg, value = some arg ∧ Number.parse? arg.bytes = some n := by
  simp [number?, Option.bind_eq_some_iff]

/-! ### Groupings -/

theorem valued?_eq_some_iff : valued? arg = some make ↔
    (arg = ofString "--start" ∧ make = .start) ∨ (arg = ofString "--count" ∧ make = .count) := by
  constructor
  · intro h
    unfold valued? at h
    split_ifs at h with hstart hcount <;> cases h
    · exact .inl ⟨Argument.isAny_singleton.1 hstart, rfl⟩
    · exact .inr ⟨Argument.isAny_singleton.1 hcount, rfl⟩
  · rintro (⟨rfl, rfl⟩ | ⟨rfl, rfl⟩) <;> rfl

theorem valued?_eq_none (harg : ∀ word ∈ words, arg ≠ ofString word) : valued? arg = none := by
  refine Option.eq_none_iff_forall_ne_some.2 fun make h => ?_
  rcases valued?_eq_some_iff.1 h with ⟨rfl, -⟩ | ⟨rfl, -⟩
  · exact harg "--start" (by decide) rfl
  · exact harg "--count" (by decide) rfl

theorem single_of_notMem (harg : ∀ word ∈ words, arg ≠ ofString word) :
    single arg = .positional arg := by
  rw [single, Argument.isAny_eq_false harg (show helpWords ⊆ words by decide),
    Argument.isAny_eq_false harg (show ["--legacy-imm32"] ⊆ words by decide)]
  rfl

theorem eq_ofArguments_of_grouping (h : Grouping line groups) : groups = ofArguments line := by
  induction h with
  | nil => rfl
  | help hword h ih =>
    rw [ih]
    rcases hword with rfl | rfl <;> rfl
  | start value h ih | count value h ih | legacy h ih =>
    rw [ih]
    rfl
  | startAtEnd | countAtEnd => rfl
  | positional harg h ih => rw [ih, ofArguments, valued?_eq_none harg, single_of_notMem harg]

theorem grouping_single (h : Grouping rest groups) (hvalued : valued? arg = none) :
    Grouping (arg :: rest) (single arg :: groups) := by
  unfold single
  split_ifs with hhelp hlegacy
  · obtain ⟨word, hword, rfl⟩ := Argument.isAny_iff.1 hhelp
    exact .help (by simpa [helpWords, or_comm] using hword) h
  · rw [Argument.isAny_singleton.1 hlegacy]
    exact .legacy h
  · refine .positional (fun word hword harg => ?_) h
    have hvalue : ∀ make, valued? arg ≠ some make := by simp [hvalued]
    simp only [words, List.mem_cons, List.not_mem_nil, or_false] at hword
    rcases hword with rfl | rfl | rfl | rfl | rfl
    · exact hhelp (Argument.isAny_iff.2 ⟨"-h", by decide, harg⟩)
    · exact hhelp (Argument.isAny_iff.2 ⟨"--help", by decide, harg⟩)
    · exact hvalue _ (valued?_eq_some_iff.2 (.inl ⟨harg, rfl⟩))
    · exact hvalue _ (valued?_eq_some_iff.2 (.inr ⟨harg, rfl⟩))
    · exact hlegacy (Argument.isAny_singleton.2 harg)

theorem grouping_ofArguments (line : List Argument) : Grouping line (ofArguments line) := by
  fun_induction ofArguments line with
  | case1 => exact .nil
  | case2 arg rest h ih => exact grouping_single ih h
  | case3 arg make h =>
    rcases valued?_eq_some_iff.1 h with ⟨rfl, rfl⟩ | ⟨rfl, rfl⟩
    · exact .startAtEnd
    · exact .countAtEnd
  | case4 arg make h value rest ih =>
    rcases valued?_eq_some_iff.1 h with ⟨rfl, rfl⟩ | ⟨rfl, rfl⟩
    · exact .start value ih
    · exact .count value ih

/-- A line is read as groups in one way. -/
theorem grouping_iff : Grouping line groups ↔ groups = ofArguments line := by
  constructor
  · exact eq_ofArguments_of_grouping
  · rintro rfl
    exact grouping_ofArguments line

end DisasmGroup

/-! ### Groups taken one by one -/

section

variable {flag : String} {value : Option Argument} {n : UInt64} {address : UInt32} {e : UsageError}

theorem numberFor_eq_ok_iff_number? :
    numberFor flag value = .ok n ↔ DisasmGroup.number? value = some n :=
  numberFor_eq_ok_iff.trans DisasmGroup.number?_eq_some_iff.symm

theorem addressFor_of_number (h : numberFor flag value = .ok n) :
    addressFor flag value =
      if n.toNat < 2 ^ 32 then .ok n.toUInt32 else .error (.addressOutOfRange n) := by
  rw [addressFor, h]
  rfl

theorem addressFor_eq_ok_iff : addressFor flag value = .ok address ↔
    ∃ n, DisasmGroup.number? value = some n ∧ n.toNat = address.toNat := by
  constructor
  · intro h
    rcases hn : numberFor flag value with e | n
    · rw [addressFor, hn] at h
      cases h
    · rw [addressFor_of_number hn] at h
      split_ifs at h with hlt
      cases h
      refine ⟨n, numberFor_eq_ok_iff_number?.1 hn, ?_⟩
      rw [UInt64.toNat_toUInt32, Nat.mod_eq_of_lt hlt]
  · rintro ⟨n, hn, hsame⟩
    have hlt : n.toNat < 2 ^ 32 := hsame ▸ address.toNat_lt
    rw [addressFor_of_number (numberFor_eq_ok_iff_number?.2 hn), if_pos hlt, Except.ok.injEq]
    apply UInt32.toNat_inj.1
    rw [UInt64.toNat_toUInt32, hsame]
    exact Nat.mod_eq_of_lt address.toNat_lt

theorem addressFor_eq_error_iff : addressFor flag value = .error e ↔
    numberFor flag value = .error e ∨
      ∃ n, numberFor flag value = .ok n ∧ 2 ^ 32 ≤ n.toNat ∧ e = .addressOutOfRange n := by
  rcases hn : numberFor flag value with e' | n
  · simp [addressFor, hn]
  · rw [addressFor_of_number hn]
    split_ifs with hlt
    · constructor
      · intro h
        cases h
      · rintro (h | ⟨n', h, hrange, -⟩) <;> cases h
        omega
    · constructor
      · intro h
        cases h
        exact .inr ⟨n, rfl, Nat.not_lt.1 hlt, rfl⟩
      · rintro (h | ⟨n', h, -, rfl⟩) <;> cases h
        rfl

end

namespace DisasmDraft

open DisasmGroup

/-- What has been made of groups that could be taken. -/
structure Describes (groups : List DisasmGroup) (draft : DisasmDraft) : Prop where
  help : .help ∉ groups
  valid : ∀ group ∈ groups, group.IsValid
  input : groups.filterMap positional? = draft.input.toList
  dash : ∀ arg ∈ draft.input, arg.startsWithDash = false
  start : draft.start.toNat = ((groups.filterMap start?).getLast?.map UInt64.toNat).getD 0
  count : draft.count = (groups.filterMap count?).getLast?
  legacy : draft.legacy = true ↔ .legacy ∈ groups

variable {before groups : List DisasmGroup} {group : DisasmGroup} {draft draft' : DisasmDraft}
  {value : Option Argument} {arg : Argument} {i : Interruption} {request : DisasmRequest}

theorem take_start_eq_ok (h : draft.take (.start value) = .ok draft') :
    ∃ n address, number? value = some n ∧ n.toNat = UInt32.toNat address ∧
      draft' = { draft with start := address } := by
  rcases haddress : addressFor "--start" value with e | address
  · simp [take, haddress] at h
  · obtain ⟨n, hn, hsame⟩ := addressFor_eq_ok_iff.1 haddress
    simp only [take, haddress, Except.ok.injEq] at h
    exact ⟨n, address, hn, hsame, h.symm⟩

theorem take_count_eq_ok (h : draft.take (.count value) = .ok draft') :
    ∃ n, number? value = some n ∧ draft' = { draft with count := some n } := by
  rcases hnumber : numberFor "--count" value with e | n
  · simp [take, hnumber] at h
  · simp only [take, hnumber, Except.ok.injEq] at h
    exact ⟨n, numberFor_eq_ok_iff_number?.1 hnumber, h.symm⟩

theorem take_positional_eq_ok (h : draft.take (.positional arg) = .ok draft') :
    draft.input = none ∧ arg.startsWithDash = false ∧
      draft' = { draft with input := some arg } := by
  rcases hinput : inputFor draft.input arg with e | path
  · simp [take, hinput] at h
  · obtain ⟨hdash, hnone, rfl⟩ := inputFor_eq_ok_iff.1 hinput
    simp only [take, hinput, Except.ok.injEq] at h
    exact ⟨hnone, hdash, h.symm⟩

theorem take_start_eq_error_iff :
    draft.take (.start value) = .error i ↔ Offends before (.start value) i := by
  have htake : draft.take (.start value) = .error i ↔
      ∃ e, addressFor "--start" value = .error e ∧ i = .error e := by
    rcases haddress : addressFor "--start" value <;> simp [take, haddress, eq_comm]
  simp only [htake, addressFor_eq_error_iff, numberFor_eq_error_iff, numberFor_eq_ok_iff]
  constructor
  · rintro ⟨e, (⟨rfl, rfl⟩ | ⟨arg, rfl, hn, rfl⟩) | ⟨n, ⟨arg, rfl, hn⟩, hrange, rfl⟩, rfl⟩
    · exact .startWithoutValue
    · exact .invalidStart hn
    · exact .startOutOfRange hn hrange
  · intro h
    cases h with
    | startWithoutValue => exact ⟨_, .inl (.inl ⟨rfl, rfl⟩), rfl⟩
    | invalidStart hn => exact ⟨_, .inl (.inr ⟨_, rfl, hn, rfl⟩), rfl⟩
    | startOutOfRange hn hrange => exact ⟨_, .inr ⟨_, ⟨_, rfl, hn⟩, hrange, rfl⟩, rfl⟩

theorem take_count_eq_error_iff :
    draft.take (.count value) = .error i ↔ Offends before (.count value) i := by
  have htake : draft.take (.count value) = .error i ↔
      ∃ e, numberFor "--count" value = .error e ∧ i = .error e := by
    rcases hnumber : numberFor "--count" value <;> simp [take, hnumber, eq_comm]
  simp only [htake, numberFor_eq_error_iff]
  constructor
  · rintro ⟨e, ⟨rfl, rfl⟩ | ⟨arg, rfl, hn, rfl⟩, rfl⟩
    · exact .countWithoutValue
    · exact .invalidCount hn
  · intro h
    cases h with
    | countWithoutValue => exact ⟨_, .inl ⟨rfl, rfl⟩, rfl⟩
    | invalidCount hn => exact ⟨_, .inr ⟨_, rfl, hn, rfl⟩, rfl⟩

theorem describes_nil : Describes [] {} where
  help := List.not_mem_nil
  valid := by simp
  input := rfl
  dash := by simp
  start := rfl
  count := rfl
  legacy := by simp

namespace Describes

theorem positional_mem_iff (h : Describes before draft) :
    .positional arg ∈ before ↔ draft.input = some arg := by
  have hmem : .positional arg ∈ before ↔ arg ∈ before.filterMap positional? := by
    rw [List.mem_filterMap]
    constructor
    · exact fun h => ⟨_, h, rfl⟩
    · rintro ⟨group, hgroup, harg⟩
      cases group <;> cases harg
      exact hgroup
  rw [hmem, h.input, Option.mem_toList]

theorem take_positional_eq_error_iff (h : Describes before draft) :
    draft.take (.positional arg) = .error i ↔ Offends before (.positional arg) i := by
  have hgiven : draft.input.isSome ↔ ∃ given, .positional given ∈ before := by
    simp only [h.positional_mem_iff, Option.isSome_iff_exists]
  have htake : draft.take (.positional arg) = .error i ↔
      ∃ e, inputFor draft.input arg = .error e ∧ i = .error e := by
    rcases hinput : inputFor draft.input arg <;> simp [take, hinput, eq_comm]
  simp only [htake, inputFor_eq_error_iff]
  constructor
  · rintro ⟨e, ⟨hdash, rfl⟩ | ⟨hdash, hsome, rfl⟩, rfl⟩
    · exact .unknownOption hdash
    · obtain ⟨given, hmem⟩ := hgiven.1 hsome
      exact .multipleInputs hdash hmem
  · intro h
    cases h with
    | unknownOption hdash => exact ⟨_, .inl ⟨hdash, rfl⟩, rfl⟩
    | multipleInputs hdash hmem => exact ⟨_, .inr ⟨hdash, hgiven.2 ⟨_, hmem⟩, rfl⟩, rfl⟩

/-- A group is refused exactly if it offends behind the groups that the draft describes. -/
theorem take_eq_error_iff (h : Describes before draft) :
    draft.take group = .error i ↔ Offends before group i := by
  rcases group with _ | value | value | _ | arg
  · constructor
    · intro h
      cases h
      exact .help
    · intro h
      cases h
      rfl
  · exact take_start_eq_error_iff
  · exact take_count_eq_error_iff
  · constructor <;> intro h <;> cases h
  · exact h.take_positional_eq_error_iff

theorem concat (h : Describes before draft) (ht : draft.take group = .ok draft') :
    Describes (before ++ [group]) draft' := by
  obtain ⟨hhelp, hvalid, hinput, hdash, hstart, hcount, hlegacy⟩ := h
  rcases group with _ | value | value | _ | arg
  · cases ht
  · obtain ⟨n, address, hn, hsame, rfl⟩ := take_start_eq_ok ht
    have hgroup : (DisasmGroup.start value).IsValid := ⟨n, hn, hsame ▸ address.toNat_lt⟩
    have hlast : (DisasmGroup.start value).start? = some n := hn
    constructor <;> simp_all [or_imp, List.filterMap_cons, positional?, count?]
  · obtain ⟨n, hn, rfl⟩ := take_count_eq_ok ht
    have hgroup : (DisasmGroup.count value).IsValid := ⟨n, hn⟩
    have hlast : (DisasmGroup.count value).count? = some n := hn
    constructor <;> simp_all [or_imp, List.filterMap_cons, positional?, start?]
  · cases ht
    have hgroup : DisasmGroup.legacy.IsValid := trivial
    constructor <;> simp_all [or_imp, List.filterMap_cons, positional?, start?, count?]
  · obtain ⟨hnone, harg, rfl⟩ := take_positional_eq_ok ht
    have hgroup : (DisasmGroup.positional arg).IsValid := trivial
    constructor <;> simp_all [or_imp, List.filterMap_cons, positional?, start?, count?]

theorem finish_eq_ok_iff (h : Describes groups draft) :
    draft.finish = .ok request ↔ Asks groups request := by
  obtain ⟨hhelp, hvalid, hinput, hdash, hstart, hcount, hlegacy⟩ := h
  obtain ⟨_ | input, start, count, legacy⟩ := draft
  · constructor
    · intro hf
      cases hf
    · intro ha
      rw [ha.input] at hinput
      cases hinput
  · constructor
    · intro hf
      cases hf
      exact ⟨hhelp, hvalid, hinput, hdash input rfl, hstart, hcount, hlegacy⟩
    · intro ha
      obtain ⟨input', start', count', legacy'⟩ := request
      have hsame : input = input' := by simpa [ha.input, eq_comm] using hinput
      have hstarts : start = start' := UInt32.toNat_inj.1 (hstart.trans ha.start.symm)
      have hcounts : count = count' := hcount.trans ha.count.symm
      have hlegacies : legacy = legacy' := Bool.eq_iff_iff.2 (hlegacy.trans ha.legacy.symm)
      rw [hsame, hstarts, hcounts, hlegacies]
      rfl

/-- Groups of which none offends may still lack an input path. -/
theorem finish_eq_error_iff (h : Describes groups draft) : draft.finish = .error i ↔
    groups.filterMap positional? = [] ∧ i = .error .missingInput := by
  rw [h.input]
  rcases hinput : draft.input with _ | input <;> simp [finish, hinput, eq_comm]

end Describes

theorem follows : Follows take {} Describes Offends where
  nil := describes_nil
  concat := Describes.concat
  error_iff := Describes.take_eq_error_iff

end DisasmDraft

/-! ### Lines -/

namespace DisasmGroup

variable {groups before after : List DisasmGroup} {group : DisasmGroup} {request : DisasmRequest}

theorem not_isValid_of_parse {value : Argument} (hn : Number.parse? value.bytes = none) :
    ¬ (start (some value)).IsValid ∧ ¬ (count (some value)).IsValid := by
  simp [IsValid, number?, hn]

theorem Asks.noneOffends (h : Asks groups request) : NoneOffends Offends groups := by
  intro before group after i hgroups ho
  have hmem : group ∈ groups := by simp [hgroups]
  have hvalid := h.valid _ hmem
  cases ho with
  | help => exact h.help hmem
  | startWithoutValue | countWithoutValue => simp [IsValid, number?] at hvalid
  | invalidStart hn => exact (not_isValid_of_parse hn).1 hvalid
  | invalidCount hn => exact (not_isValid_of_parse hn).2 hvalid
  | startOutOfRange hn hrange =>
    obtain ⟨n, hn', hlt⟩ := hvalid
    rw [number?, Option.bind_some, hn] at hn'
    cases hn'
    omega
  | @unknownOption arg hdash =>
    have harg : arg ∈ groups.filterMap positional? := List.mem_filterMap.2 ⟨_, hmem, rfl⟩
    rw [h.input, List.mem_singleton] at harg
    rw [harg, h.dash] at hdash
    cases hdash
  | multipleInputs _ hgiven =>
    have htwo := one_lt_length_filterMap positional? hgroups hgiven rfl rfl
    rw [h.input] at htwo
    exact absurd htwo (Nat.lt_irrefl 1)

end DisasmGroup

namespace DisasmRequest

open DisasmGroup

variable {line : List Argument} {request : DisasmRequest} {i : Interruption}

theorem parse_eq (line : List Argument) :
    parse line = (ofArguments line).foldlM DisasmDraft.take {} >>= DisasmDraft.finish := rfl

theorem parse_eq_ok_iff : parse line = .ok request ↔ Asks (ofArguments line) request := by
  rw [parse_eq]
  exact read_eq_ok_iff DisasmDraft.follows Asks.noneOffends DisasmDraft.Describes.finish_eq_ok_iff

theorem parse_eq_error_iff : parse line = .error i ↔
    (∃ before group after, ofArguments line = before ++ group :: after ∧
      NoneOffends Offends before ∧ Offends before group i) ∨
    (NoneOffends Offends (ofArguments line) ∧ (ofArguments line).filterMap positional? = [] ∧
      i = .error .missingInput) := by
  rw [parse_eq]
  exact read_eq_error_iff DisasmDraft.follows DisasmDraft.Describes.finish_eq_error_iff

/-- Where no count is given, there may be as many rows as the image has bytes. -/
theorem listingText_of_count_none {image : Array UInt8} (h : request.count = none)
    (hsize : image.size < 2 ^ 64) : listingText request image =
      listingText { request with count := some (.ofNat image.size) } image := by
  rw [listingText, listingText, h]
  simp only [UInt64.toNat_ofNat_of_lt' hsize]
  rfl

/-- A line is read as groups in one way. It is accepted as a request exactly if its groups ask for
that request: no group asks for help, each start and each count is a valid number, a start below
`2 ^ 32`, and there is one input path, which does not start with a dash. The last start is taken, or
0, and the last count; without one the image is listed to its end. If the line is not accepted, the
first group that asks for help or cannot be taken behind those before it decides what is said of it,
and only if there is none, the input path is missed. -/
theorem listing_line_grammar (line : List Argument) :
    ∃ groups, (∀ other, Grouping line other ↔ other = groups) ∧
      (∀ request, parse line = .ok request ↔ Asks groups request) ∧
      (∀ request image, parse line = .ok request → groups.filterMap count? = [] →
        image.size < 2 ^ 64 → listingText request image =
          listingText { request with count := some (.ofNat image.size) } image) ∧
      ∀ i, parse line = .error i ↔
        (∃ before group after, groups = before ++ group :: after ∧ NoneOffends Offends before ∧
          Offends before group i) ∨
        (NoneOffends Offends groups ∧ groups.filterMap positional? = [] ∧
          i = .error .missingInput) := by
  refine ⟨ofArguments line, fun other => grouping_iff, fun request => parse_eq_ok_iff,
    fun request image h hnone hsize => ?_, fun i => parse_eq_error_iff⟩
  have hcount := (parse_eq_ok_iff.1 h).count
  rw [hnone] at hcount
  exact listingText_of_count_none hcount hsize

/-- The last of two starts is taken, and without a count the image is listed to its end. -/
theorem listing_line_grammar_overridden :
    let line := ["--start", "0x10", "img", "--start", "2", "--legacy-imm32"].map ofString
    let request : DisasmRequest := { input := ofString "img", start := 2, legacy := true }
    let image : Array UInt8 := #[0x01, 0xff, 0x01]
    parse line = .ok request ∧ image.size < 2 ^ 64 ∧
      listingText request image = listingText { request with count := some 3 } image := by
  intro line request image
  obtain ⟨groups, hgroups, hok, hwhole, -⟩ := listing_line_grammar line
  have hline : Grouping line [.start (some (ofString "0x10")), .positional (ofString "img"),
      .start (some (ofString "2")), .legacy] :=
    .start _ (.positional (by decide) (.start _ (.legacy .nil)))
  obtain rfl := (hgroups _).1 hline
  have hparse : parse line = .ok request := (hok request).2 {
    help := by decide
    valid := by simpa [IsValid] using ⟨⟨16, rfl, by decide⟩, ⟨2, rfl, by decide⟩⟩
    input := rfl
    dash := rfl
    start := rfl
    count := rfl
    legacy := by decide }
  exact ⟨hparse, by decide, hwhole request image hparse rfl (by decide)⟩

/-- A start that another overrides must still be an address. -/
example : parse (["--start", "0x100000000", "img", "--start", "2"].map ofString) =
    .error (.error (.addressOutOfRange 0x100000000)) := rfl

end DisasmRequest

end Tomtel
