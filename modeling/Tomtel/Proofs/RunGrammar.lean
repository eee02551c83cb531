import Tomtel.CommandLine.Grammar
import Tomtel.Proofs.Groups

/-!
# The grammar of `run` lines

The arguments behind `run` are read as groups in one way (`grouping_iff`). A line is accepted exactly
if its groups ask for a request, in whatever order they stand (`RunGroup.Asks`), and otherwise the
first group that offends decides what is said of it: `line_grammar`.
-/

namespace Tomtel

open Argument (ofString)

namespace RunGroup

/-- The words of a line that are not taken for an input path. -/
def words : List String :=
  ["-h", "--help", "-o", "--output", "--timeout-ms", "--max-steps", "--legacy-imm32", "--trace"]

/-- How a line is read as groups, from left to right. A flag that takes a value takes the argument
behind it, whatever that is, and goes without at the end of the line. -/
inductive Grouping : List Argument → List RunGroup → Prop
  | nil : Grouping [] []
  | help {word : String} {rest : List Argument} {groups : List RunGroup}
      (hword : word = "-h" ∨ word = "--help") (h : Grouping rest groups) :
      Grouping (ofString word :: rest) (.help :: groups)
  | output {flag : String} {rest : List Argument} {groups : List RunGroup}
      (hflag : flag = "-o" ∨ flag = "--output") (path : Argument) (h : Grouping rest groups) :
      Grouping (ofString flag :: path :: rest) (.output flag (some path) :: groups)
  | outputAtEnd {flag : String} (hflag : flag = "-o" ∨ flag = "--output") :
      Grouping [ofString flag] [.output flag none]
  | bound {rest : List Argument} {groups : List RunGroup} (flag : BoundFlag) (value : Argument)
      (h : Grouping rest groups) :
      Grouping (ofString flag.word :: value :: rest) (.bound flag (some value) :: groups)
  | boundAtEnd (flag : BoundFlag) : Grouping [ofString flag.word] [.bound flag none]
  | legacy {rest : List Argument} {groups : List RunGroup} (h : Grouping rest groups) :
      Grouping (ofString "--legacy-imm32" :: rest) (.legacy :: groups)
  | trace {rest : List Argument} {groups : List RunGroup} (h : Grouping rest groups) :
      Grouping (ofString "--trace" :: rest) (.trace :: groups)
  | positional {arg : Argument} {rest : List Argument} {groups : List RunGroup}
      (harg : ∀ word ∈ words, arg ≠ ofString word) (h : Grouping rest groups) :
      Grouping (arg :: rest) (.positional arg :: groups)

/-- The arguments that a group is made of. -/
def arguments : RunGroup → List Argument
  | .help => [ofString "--help"]
  | .output flag path => ofString flag :: path.toList
  | .bound flag value => ofString flag.word :: value.toList
  | .legacy => [ofString "--legacy-imm32"]
  | .trace => [ofString "--trace"]
  | .positional arg => [arg]

/-- A flag that takes a value has one. -/
def IsComplete : RunGroup → Prop
  | .output _ none | .bound _ none => False
  | _ => True

def path? : RunGroup → Option Argument
  | .output _ path => path
  | _ => none

def bound? : RunGroup → Option (BoundFlag × Option Argument)
  | .bound flag value => some (flag, value)
  | _ => none

def positional? : RunGroup → Option Argument
  | .positional arg => some arg
  | _ => none

/-- The watchdog that the bounds of a line ask for. At most one may be given, by a valid number. -/
inductive Bounds : List (BoundFlag × Option Argument) → Watchdog → Prop
  | none : Bounds [] .default
  | budget {value : Argument} {n : UInt64} (hn : Number.parse? value.bytes = some n) :
      Bounds [(.maxSteps, some value)] (.instructionBudget n)
  | disabled {value : Argument} (hn : Number.parse? value.bytes = some 0) :
      Bounds [(.timeoutMs, some value)] .unbounded
  | timeout {value : Argument} {n : UInt64} {limit : Duration}
      (hn : Number.parse? value.bytes = some n) (hzero : n ≠ 0)
      (hlimit : limit.totalNanos = n.toNat * 1000000) :
      Bounds [(.timeoutMs, some value)] (.wallClock limit)

/-- What groups ask for. But for the last of several output paths, their order is of no account. -/
structure Asks (groups : List RunGroup) (request : RunRequest) : Prop where
  help : .help ∉ groups
  complete : ∀ group ∈ groups, group.IsComplete
  input : groups.filterMap positional? = [request.input]
  dash : request.input.startsWithDash = false
  bounds : Bounds (groups.filterMap bound?) request.watchdog
  output : request.output = (groups.filterMap path?).getLast?
  legacy : request.legacy = true ↔ .legacy ∈ groups
  trace : request.trace = true ↔ .trace ∈ groups

/-- The group cannot be taken behind those before it, and this is what is said of it. -/
inductive Offends (before : List RunGroup) : RunGroup → Interruption → Prop
  | help : Offends before .help .help
  | outputWithoutPath (flag : String) :
      Offends before (.output flag none) (.error (.missingValue flag))
  | repeatedBound {flag : BoundFlag} {given value : Option Argument}
      (h : .bound flag given ∈ before) :
      Offends before (.bound flag value) (.error (.repeatedBound flag))
  | bothBounds {flag other : BoundFlag} {given value : Option Argument} (hflag : other ≠ flag)
      (h : .bound other given ∈ before) : Offends before (.bound flag value) (.error .bothBounds)
  | boundWithoutValue {flag : BoundFlag} (h : ∀ other given, .bound other given ∉ before) :
      Offends before (.bound flag none) (.error (.missingValue flag.word))
  | invalidBound {flag : BoundFlag} {value : Argument}
      (h : ∀ other given, .bound other given ∉ before) (hn : Number.parse? value.bytes = none) :
      Offends before (.bound flag (some value)) (.error (.invalidValue flag.word value))
  | unknownOption {arg : Argument} (harg : arg.startsWithDash = true) :
      Offends before (.positional arg) (.error (.unknownOption arg))
  | multipleInputs {arg given : Argument} (harg : arg.startsWithDash = false)
      (h : .positional given ∈ before) : Offends before (.positional arg) (.error .multipleInputs)

variable {arg : Argument} {rest line : List Argument} {groups groups' : List RunGroup}
  {group : RunGroup} {make : Option Argument → RunGroup}

theorem bounds_watchdog (flag : BoundFlag) {value : Argument} {n : UInt64}
    (hn : Number.parse? value.bytes = some n) :
    Bounds [(flag, some value)] (flag.watchdog n) := by
  cases flag with
  | maxSteps => exact .budget hn
  | timeoutMs =>
    rw [BoundFlag.watchdog]
    split_ifs with hzero
    · exact .disabled (hzero ▸ hn)
    · exact .timeout hn hzero (Duration.totalNanos_ofMillis n)

/-! ### Groupings -/

theorem valued?_eq_some_iff : valued? arg = some make ↔
    (∃ flag, (flag = "-o" ∨ flag = "--output") ∧ arg = ofString flag ∧ make = .output flag) ∨
      ∃ flag : BoundFlag, arg = ofString flag.word ∧ make = .bound flag := by
  constructor
  · intro h
    unfold valued? at h
    split_ifs at h with ho hout htimeout hsteps <;> cases h
    · exact .inl ⟨"-o", .inl rfl, Argument.isAny_singleton.1 ho, rfl⟩
    · exact .inl ⟨"--output", .inr rfl, Argument.isAny_singleton.1 hout, rfl⟩
    · exact .inr ⟨.timeoutMs, Argument.isAny_singleton.1 htimeout, rfl⟩
    · exact .inr ⟨.maxSteps, Argument.isAny_singleton.1 hsteps, rfl⟩
  · rintro (⟨flag, rfl | rfl, rfl, rfl⟩ | ⟨flag, rfl, rfl⟩)
    · rfl
    · rfl
    · cases flag <;> rfl

theorem valued?_eq_none (harg : ∀ word ∈ words, arg ≠ ofString word) : valued? arg = none := by
  refine Option.eq_none_iff_forall_ne_some.2 fun make h => ?_
  rcases valued?_eq_some_iff.1 h with ⟨flag, rfl | rfl, rfl, -⟩ | ⟨flag, rfl, -⟩
  · exact harg "-o" (by decide) rfl
  · exact harg "--output" (by decide) rfl
  · exact harg flag.word (by cases flag <;> decide) rfl

theorem single_of_notMem (harg : ∀ word ∈ words, arg ≠ ofString word) :
    single arg = .positional arg := by
  rw [single, Argument.isAny_eq_false harg (show helpWords ⊆ words by decide),
    Argument.isAny_eq_false harg (show ["--legacy-imm32"] ⊆ words by decide),
    Argument.isAny_eq_false harg (show ["--trace"] ⊆ words by decide)]
  rfl

theorem ofArguments_cons_of_none (h : valued? arg = none) :
    ofArguments (arg :: rest) = single arg :: ofArguments rest := by
  rw [ofArguments, h]

theorem eq_ofArguments_of_grouping (h : Grouping line groups) : groups = ofArguments line := by
  induction h with
  | nil => rfl
  | help hword h ih =>
    rw [ih]
    rcases hword with rfl | rfl <;> rfl
  | output hflag path h ih =>
    rw [ih]
    rcases hflag with rfl | rfl <;> rfl
  | outputAtEnd hflag => rcases hflag with rfl | rfl <;> rfl
  | bound flag value h ih =>
    rw [ih]
    cases flag <;> rfl
  | boundAtEnd flag => cases flag <;> rfl
  | legacy h ih =>
    rw [ih]
    rfl
  | trace h ih =>
    rw [ih]
    rfl
  | positional harg h ih =>
    rw [ih, ofArguments_cons_of_none (valued?_eq_none harg), single_of_notMem harg]

theorem grouping_single (h : Grouping rest groups) (hvalued : valued? arg = none) :
    Grouping (arg :: rest) (single arg :: groups) := by
  unfold single
  split_ifs with hhelp hlegacy htrace
  · obtain ⟨word, hword, rfl⟩ := Argument.isAny_iff.1 hhelp
    exact .help (by simpa [helpWords, or_comm] using hword) h
  · rw [Argument.isAny_singleton.1 hlegacy]
    exact .legacy h
  · rw [Argument.isAny_singleton.1 htrace]
    exact .trace h
  · refine .positional (fun word hword harg => ?_) h
    have hvalue : ∀ make, valued? arg ≠ some make := by simp [hvalued]
    simp only [words, List.mem_cons, List.not_mem_nil, or_false] at hword
    rcases hword with rfl | rfl | rfl | rfl | rfl | rfl | rfl | rfl
    · exact hhelp (Argument.isAny_iff.2 ⟨"-h", by decide, harg⟩)
    · exact hhelp (Argument.isAny_iff.2 ⟨"--help", by decide, harg⟩)
    · exact hvalue _ (valued?_eq_some_iff.2 (.inl ⟨"-o", .inl rfl, harg, rfl⟩))
    · exact hvalue _ (valued?_eq_some_iff.2 (.inl ⟨"--output", .inr rfl, harg, rfl⟩))
    · exact hvalue _ (valued?_eq_some_iff.2 (.inr ⟨.timeoutMs, harg, rfl⟩))
    · exact hvalue _ (valued?_eq_some_iff.2 (.inr ⟨.maxSteps, harg, rfl⟩))
    · exact hlegacy (Argument.isAny_singleton.2 harg)
    · exact htrace (Argument.isAny_singleton.2 harg)

theorem grouping_ofArguments (line : List Argument) : Grouping line (ofArguments line) := by
  fun_induction ofArguments line with
  | case1 => exact .nil
  | case2 arg rest h ih => exact grouping_single ih h
  | case3 arg make h =>
    rcases valued?_eq_some_iff.1 h with ⟨flag, hflag, rfl, rfl⟩ | ⟨flag, rfl, rfl⟩
    · exact .outputAtEnd hflag
    · exact .boundAtEnd flag
  | case4 arg make h value rest ih =>
    rcases valued?_eq_some_iff.1 h with ⟨flag, hflag, rfl, rfl⟩ | ⟨flag, rfl, rfl⟩
    · exact .output hflag value ih
    · exact .bound flag value ih

/-- A line is read as groups in one way. -/
theorem grouping_iff : Grouping line groups ↔ groups = ofArguments line := by
  constructor
  · exact eq_ofArguments_of_grouping
  · rintro rfl
    exact grouping_ofArguments line

/-! ### Lines made of groups -/

/-- A line goes on behind another that leaves no flag without its value. -/
theorem Grouping.append {behind : List RunGroup} (h : Grouping line groups)
    (hcomplete : ∀ group ∈ groups, group.IsComplete) (hrest : Grouping rest behind) :
    Grouping (line ++ rest) (groups ++ behind) := by
  induction h with
  | nil => exact hrest
  | help hword h ih => exact .help hword (ih (List.forall_mem_cons.1 hcomplete).2)
  | output hflag path h ih => exact .output hflag path (ih (List.forall_mem_cons.1 hcomplete).2)
  | bound flag value h ih => exact .bound flag value (ih (List.forall_mem_cons.1 hcomplete).2)
  | outputAtEnd | boundAtEnd => exact (hcomplete _ (List.mem_singleton_self _)).elim
  | legacy h ih => exact .legacy (ih (List.forall_mem_cons.1 hcomplete).2)
  | trace h ih => exact .trace (ih (List.forall_mem_cons.1 hcomplete).2)
  | positional harg h ih => exact .positional harg (ih (List.forall_mem_cons.1 hcomplete).2)

/-- A group of a line that has its value is read as itself on its own. -/
theorem grouping_arguments (h : Grouping line groups) (hgroup : group ∈ groups)
    (hcomplete : group.IsComplete) : Grouping group.arguments [group] := by
  induction h with
  | nil => cases hgroup
  | help hword h ih =>
    rcases List.mem_cons.1 hgroup with rfl | hgroup
    · exact .help (.inr rfl) .nil
    · exact ih hgroup
  | output hflag path h ih =>
    rcases List.mem_cons.1 hgroup with rfl | hgroup
    · exact .output hflag path .nil
    · exact ih hgroup
  | bound flag value h ih =>
    rcases List.mem_cons.1 hgroup with rfl | hgroup
    · exact .bound flag value .nil
    · exact ih hgroup
  | outputAtEnd | boundAtEnd =>
    rw [List.mem_singleton.1 hgroup] at hcomplete
    exact hcomplete.elim
  | legacy h ih =>
    rcases List.mem_cons.1 hgroup with rfl | hgroup
    · exact .legacy .nil
    · exact ih hgroup
  | trace h ih =>
    rcases List.mem_cons.1 hgroup with rfl | hgroup
    · exact .trace .nil
    · exact ih hgroup
  | positional harg h ih =>
    rcases List.mem_cons.1 hgroup with rfl | hgroup
    · exact .positional harg .nil
    · exact ih hgroup

/-- Complete groups of a line make a line in any order. -/
theorem grouping_flatMap (h : Grouping line groups) (hsub : groups' ⊆ groups)
    (hcomplete : ∀ group ∈ groups', group.IsComplete) :
    Grouping (groups'.flatMap arguments) groups' := by
  induction groups' with
  | nil => exact .nil
  | cons group groups' ih =>
    obtain ⟨hgroup, hgroups⟩ := List.forall_mem_cons.1 hcomplete
    obtain ⟨hmem, hsub⟩ := List.cons_subset.1 hsub
    rw [List.flatMap_cons]
    exact (grouping_arguments h hmem hgroup).append (by simpa) (ih hsub hgroups)

/-- But for the two spellings of a help flag, the groups say what the line is. -/
theorem flatMap_arguments (h : Grouping line groups) (hhelp : .help ∉ groups) :
    groups.flatMap arguments = line := by
  induction h with
  | nil => rfl
  | help => exact absurd List.mem_cons_self hhelp
  | outputAtEnd => rfl
  | boundAtEnd => rfl
  | output _ _ _ ih | bound _ _ _ ih | legacy _ ih | trace _ ih | positional _ _ ih =>
    rw [List.flatMap_cons, ih fun h => hhelp (List.mem_cons_of_mem _ h)]
    rfl

end RunGroup

/-! ### Groups taken one by one -/

namespace RunDraft

open RunGroup

/-- What has been made of groups that could be taken. -/
structure Describes (groups : List RunGroup) (draft : RunDraft) : Prop where
  help : .help ∉ groups
  complete : ∀ group ∈ groups, group.IsComplete
  input : groups.filterMap positional? = draft.input.toList
  dash : ∀ arg ∈ draft.input, arg.startsWithDash = false
  bounds : Bounds (groups.filterMap bound?) ((draft.bound.map Prod.snd).getD .default)
  flag : (groups.filterMap bound?).map Prod.fst = (draft.bound.map Prod.fst).toList
  output : draft.output = (groups.filterMap path?).getLast?
  legacy : draft.legacy = true ↔ .legacy ∈ groups
  trace : draft.trace = true ↔ .trace ∈ groups

variable {before groups : List RunGroup} {group : RunGroup} {draft draft' : RunDraft}
  {i : Interruption}

theorem take_bound_eq_ok {flag : BoundFlag} {value : Option Argument}
    (h : draft.take (.bound flag value) = .ok draft') :
    draft.bound = none ∧ ∃ arg n, value = some arg ∧ Number.parse? arg.bytes = some n ∧
      draft' = { draft with bound := some (flag, flag.watchdog n) } := by
  cases hbound : draft.bound with
  | some given => simp [take, hbound] at h
  | none =>
    cases hnumber : numberFor flag.word value with
    | error e => simp [take, hbound, hnumber] at h
    | ok n =>
      obtain ⟨arg, rfl, hn⟩ := numberFor_eq_ok_iff.1 hnumber
      simp only [take, hbound, hnumber, Except.ok.injEq] at h
      exact ⟨rfl, arg, n, rfl, hn, h.symm⟩

/-- The first bound is taken unless its number cannot be. -/
theorem take_bound_eq_error_iff_of_none {flag : BoundFlag} {value : Option Argument}
    (hbound : draft.bound = none) : draft.take (.bound flag value) = .error i ↔
      ∃ e, numberFor flag.word value = .error e ∧ i = .error e := by
  cases hnumber : numberFor flag.word value <;> simp [take, hbound, hnumber, eq_comm]

theorem take_positional_eq_ok {arg : Argument} (h : draft.take (.positional arg) = .ok draft') :
    draft.input = none ∧ arg.startsWithDash = false ∧
      draft' = { draft with input := some arg } := by
  cases hinput : inputFor draft.input arg with
  | error e => simp [take, hinput] at h
  | ok path =>
    obtain ⟨hdash, hnone, rfl⟩ := inputFor_eq_ok_iff.1 hinput
    simp only [take, hinput, Except.ok.injEq] at h
    exact ⟨hnone, hdash, h.symm⟩

theorem take_positional_eq_error_iff_inputFor {arg : Argument} :
    draft.take (.positional arg) = .error i ↔
      ∃ e, inputFor draft.input arg = .error e ∧ i = .error e := by
  cases hinput : inputFor draft.input arg <;> simp [take, hinput, eq_comm]

theorem describes_nil : Describes [] {} where
  help := List.not_mem_nil
  complete := by simp
  input := rfl
  dash := by simp
  bounds := .none
  flag := rfl
  output := rfl
  legacy := by simp
  trace := by simp

namespace Describes

theorem positional_mem_iff (h : Describes before draft) {arg : Argument} :
    .positional arg ∈ before ↔ draft.input = some arg := by
  have hmem : .positional arg ∈ before ↔ arg ∈ before.filterMap positional? := by
    rw [List.mem_filterMap]
    constructor
    · exact fun h => ⟨_, h, rfl⟩
    · rintro ⟨group, hgroup, harg⟩
      cases group <;> cases harg
      exact hgroup
  rw [hmem, h.input, Option.mem_toList]

theorem bound_mem_iff (h : Describes before draft) {flag : BoundFlag} :
    (∃ given, .bound flag given ∈ before) ↔ draft.bound.map Prod.fst = some flag := by
  have hmem : (∃ given, .bound flag given ∈ before) ↔
      flag ∈ (before.filterMap bound?).map Prod.fst := by
    simp only [List.mem_map, List.mem_filterMap]
    constructor
    · rintro ⟨given, hgiven⟩
      exact ⟨(flag, given), ⟨_, hgiven, rfl⟩, rfl⟩
    · rintro ⟨⟨flag', given⟩, ⟨group, hgroup, hbound⟩, rfl⟩
      cases group <;> cases hbound
      exact ⟨given, hgroup⟩
  rw [hmem, h.flag, Option.mem_toList]

theorem bound_eq_none_iff (h : Describes before draft) :
    draft.bound = none ↔ ∀ flag given, .bound flag given ∉ before := by
  constructor
  · intro hnone flag given hmem
    have hflag := h.bound_mem_iff.1 ⟨given, hmem⟩
    rw [hnone] at hflag
    cases hflag
  · intro hbefore
    cases hbound : draft.bound with
    | none => rfl
    | some given =>
      obtain ⟨value, hmem⟩ := h.bound_mem_iff.2 (congrArg (Option.map Prod.fst) hbound)
      exact absurd hmem (hbefore given.1 value)

theorem take_bound_eq_error_iff (h : Describes before draft) {flag : BoundFlag}
    {value : Option Argument} :
    draft.take (.bound flag value) = .error i ↔ Offends before (.bound flag value) i := by
  cases hbound : draft.bound with
  | none =>
    have hnone := h.bound_eq_none_iff.1 hbound
    rw [take_bound_eq_error_iff_of_none hbound]
    constructor
    · rintro ⟨e, hnumber, rfl⟩
      rcases numberFor_eq_error_iff.1 hnumber with ⟨rfl, rfl⟩ | ⟨arg, rfl, hn, rfl⟩
      · exact .boundWithoutValue hnone
      · exact .invalidBound hnone hn
    · intro h
      cases h with
      | repeatedBound hmem | bothBounds _ hmem => exact absurd hmem (hnone _ _)
      | boundWithoutValue => exact ⟨_, rfl, rfl⟩
      | invalidBound _ hn =>
        exact ⟨_, numberFor_eq_error_iff.2 (.inr ⟨_, rfl, hn, rfl⟩), rfl⟩
  | some given =>
    obtain ⟨other, watchdog⟩ := given
    have hflags : ∀ flag', (∃ given, .bound flag' given ∈ before) ↔ other = flag' := by
      intro flag'
      rw [h.bound_mem_iff, hbound, Option.map_some, Option.some.injEq]
    have htake : draft.take (.bound flag value) =
        .error (.error (if other = flag then .repeatedBound flag else .bothBounds)) := by
      rw [take, hbound]
    rw [htake]
    obtain ⟨value', hgiven⟩ := (hflags other).2 rfl
    constructor
    · intro h
      cases h
      split_ifs with hflag
      · rw [hflag] at hgiven
        exact .repeatedBound hgiven
      · exact .bothBounds hflag hgiven
    · intro h
      cases h with
      | repeatedBound hmem => rw [if_pos ((hflags flag).1 ⟨_, hmem⟩)]
      | bothBounds hne hmem =>
        have hother := (hflags _).1 ⟨_, hmem⟩
        rw [if_neg (hother ▸ hne)]
      | boundWithoutValue hnone | invalidBound hnone => exact absurd hgiven (hnone _ _)

theorem take_positional_eq_error_iff (h : Describes before draft) {arg : Argument} :
    draft.take (.positional arg) = .error i ↔ Offends before (.positional arg) i := by
  have hgiven : draft.input.isSome ↔ ∃ given, .positional given ∈ before := by
    simp only [h.positional_mem_iff, Option.isSome_iff_exists]
  rw [take_positional_eq_error_iff_inputFor]
  constructor
  · rintro ⟨e, hinput, rfl⟩
    rcases inputFor_eq_error_iff.1 hinput with ⟨hdash, rfl⟩ | ⟨hdash, hsome, rfl⟩
    · exact .unknownOption hdash
    · obtain ⟨given, hmem⟩ := hgiven.1 hsome
      exact .multipleInputs hdash hmem
  · intro h
    cases h with
    | unknownOption hdash => exact ⟨_, inputFor_eq_error_iff.2 (.inl ⟨hdash, rfl⟩), rfl⟩
    | multipleInputs hdash hmem =>
      exact ⟨_, inputFor_eq_error_iff.2 (.inr ⟨hdash, hgiven.2 ⟨_, hmem⟩, rfl⟩), rfl⟩

/-- A group is refused exactly if it offends behind the groups that the draft describes. -/
theorem take_eq_error_iff (h : Describes before draft) :
    draft.take group = .error i ↔ Offends before group i := by
  cases group with
  | bound flag value => exact h.take_bound_eq_error_iff
  | positional arg => exact h.take_positional_eq_error_iff
  | help =>
    constructor
    · intro h
      cases h
      exact .help
    · intro h
      cases h
      rfl
  | output flag path =>
    cases path with
    | none =>
      constructor
      · intro h
        cases h
        exact .outputWithoutPath flag
      · intro h
        cases h
        rfl
    | some path => constructor <;> intro h <;> cases h
  | legacy => constructor <;> intro h <;> cases h
  | trace => constructor <;> intro h <;> cases h

theorem concat (h : Describes before draft) (ht : draft.take group = .ok draft') :
    Describes (before ++ [group]) draft' := by
  obtain ⟨hhelp, hcomplete, hinput, hdash, hbounds, hflag, houtput, hlegacy, htrace⟩ := h
  cases group with
  | help => cases ht
  | output flag path =>
    cases path with
    | none => cases ht
    | some path =>
      cases ht
      have hgroup : (RunGroup.output flag (some path)).IsComplete := trivial
      constructor <;> simp_all [or_imp, List.filterMap_cons, positional?, bound?, path?]
  | bound flag value =>
    obtain ⟨hnone, arg, n, rfl, hn, rfl⟩ := take_bound_eq_ok ht
    have hfirst : before.filterMap bound? = [] := by
      rw [hnone] at hflag
      exact List.map_eq_nil_iff.1 hflag
    have hall : (before ++ [RunGroup.bound flag (some arg)]).filterMap bound? =
        [(flag, some arg)] := by
      rw [List.filterMap_append, hfirst]
      rfl
    have hgroup : (RunGroup.bound flag (some arg)).IsComplete := trivial
    constructor
    case bounds =>
      rw [hall]
      exact bounds_watchdog flag hn
    case flag =>
      rw [hall]
      rfl
    all_goals simp_all [or_imp, List.filterMap_cons, positional?, path?]
  | legacy =>
    cases ht
    have hgroup : RunGroup.legacy.IsComplete := trivial
    constructor <;> simp_all [or_imp, List.filterMap_cons, positional?, bound?, path?]
  | trace =>
    cases ht
    have hgroup : RunGroup.trace.IsComplete := trivial
    constructor <;> simp_all [or_imp, List.filterMap_cons, positional?, bound?, path?]
  | positional arg =>
    obtain ⟨hnone, harg, rfl⟩ := take_positional_eq_ok ht
    have hall : (before ++ [RunGroup.positional arg]).filterMap positional? = [arg] := by
      rw [List.filterMap_append, hinput, hnone]
      rfl
    have hgroup : (RunGroup.positional arg).IsComplete := trivial
    constructor
    case input => exact hall
    all_goals simp_all [or_imp, List.filterMap_cons, bound?, path?]

end Describes

theorem finish_of_none (h : draft.input = none) :
    draft.finish = .error (.error .missingInput) := by
  rw [finish, h]

theorem finish_of_some {input : Argument} (h : draft.input = some input) :
    draft.finish = .ok {
      input := input
      output := draft.output
      watchdog := (draft.bound.map Prod.snd).getD .default
      legacy := draft.legacy
      trace := draft.trace } := by
  rw [finish, h]
  cases draft.bound <;> rfl

/-- Groups of which none offends may still lack an input path. -/
theorem Describes.finish_eq_error_iff (h : Describes groups draft) : draft.finish = .error i ↔
    groups.filterMap positional? = [] ∧ i = .error .missingInput := by
  rw [h.input]
  cases hinput : draft.input with
  | none => simp [finish_of_none hinput, eq_comm]
  | some input => simp [finish_of_some hinput]

theorem follows : Follows take {} Describes Offends where
  nil := describes_nil
  concat := Describes.concat
  error_iff := Describes.take_eq_error_iff

end RunDraft

/-! ### What groups ask for -/

namespace RunGroup

variable {bounds bounds' : List (BoundFlag × Option Argument)} {watchdog watchdog' : Watchdog}
  {before after groups groups' : List RunGroup} {group : RunGroup} {draft : RunDraft}
  {request : RunRequest}

namespace Bounds

theorem unique (h : Bounds bounds watchdog) (h' : Bounds bounds watchdog') :
    watchdog = watchdog' := by
  cases h <;> cases h' <;> grind [Duration.totalNanos_inj]

theorem length_le_one (h : Bounds bounds watchdog) : bounds.length ≤ 1 := by
  cases h <;> simp

theorem exists_number_of_mem (h : Bounds bounds watchdog) {flag : BoundFlag}
    {value : Option Argument} (hmem : (flag, value) ∈ bounds) :
    ∃ arg n, value = some arg ∧ Number.parse? arg.bytes = some n := by
  cases h <;> grind

theorem perm (h : Bounds bounds watchdog) (hp : bounds'.Perm bounds) : Bounds bounds' watchdog := by
  have hlength := h.length_le_one
  match bounds, hlength with
  | [], _ =>
    rw [hp.eq_nil]
    exact h
  | [b], _ =>
    rw [List.perm_singleton.1 hp]
    exact h

end Bounds

namespace Asks

theorem finish_eq_ok_iff (h : draft.Describes groups) :
    draft.finish = .ok request ↔ Asks groups request := by
  cases hinput : draft.input with
  | none =>
    rw [RunDraft.finish_of_none hinput]
    constructor
    · intro hf
      cases hf
    · intro ha
      have hnone := h.input
      rw [ha.input, hinput] at hnone
      cases hnone
  | some input =>
    rw [RunDraft.finish_of_some hinput]
    constructor
    · intro hf
      cases hf
      exact ⟨h.help, h.complete, by rw [h.input, hinput]; rfl, h.dash input hinput, h.bounds,
        h.output, h.legacy, h.trace⟩
    · intro ha
      have hsame : input = request.input := by
        have hlist := h.input
        rw [ha.input, hinput] at hlist
        exact (List.cons.inj hlist).1.symm
      have hlegacy : draft.legacy = request.legacy :=
        Bool.eq_iff_iff.2 (h.legacy.trans ha.legacy.symm)
      have htrace : draft.trace = request.trace :=
        Bool.eq_iff_iff.2 (h.trace.trans ha.trace.symm)
      rw [hsame, h.bounds.unique ha.bounds, h.output, ← ha.output, hlegacy, htrace]

theorem noneOffends (h : Asks groups request) : NoneOffends Offends groups := by
  intro before group after i hgroups ho
  have hmem : group ∈ groups := by
    rw [hgroups]
    exact List.mem_append_right _ List.mem_cons_self
  cases ho with
  | help => exact h.help hmem
  | outputWithoutPath flag => exact h.complete _ hmem
  | repeatedBound hgiven | bothBounds _ hgiven =>
    have htwo := one_lt_length_filterMap bound? hgroups hgiven rfl rfl
    exact absurd h.bounds.length_le_one (Nat.not_le.2 htwo)
  | boundWithoutValue => exact h.complete _ hmem
  | invalidBound _ hn =>
    obtain ⟨arg, n, harg, hvalid⟩ :=
      h.bounds.exists_number_of_mem (List.mem_filterMap.2 ⟨_, hmem, rfl⟩)
    cases harg
    rw [hn] at hvalid
    cases hvalid
  | @unknownOption arg hdash =>
    have harg : arg ∈ groups.filterMap positional? := List.mem_filterMap.2 ⟨_, hmem, rfl⟩
    rw [h.input, List.mem_singleton] at harg
    rw [harg, h.dash] at hdash
    cases hdash
  | multipleInputs _ hgiven =>
    have htwo := one_lt_length_filterMap positional? hgroups hgiven rfl rfl
    rw [h.input] at htwo
    exact absurd htwo (Nat.lt_irrefl 1)

/-- Of the order of the groups, only the last output path is of account. -/
theorem perm (h : Asks groups request) (hp : groups'.Perm groups) :
    Asks groups' { request with output := (groups'.filterMap path?).getLast? } where
  help hmem := h.help (hp.subset hmem)
  complete group hgroup := h.complete group (hp.subset hgroup)
  input := List.perm_singleton.1 (h.input ▸ hp.filterMap positional?)
  dash := h.dash
  bounds := h.bounds.perm (hp.filterMap bound?)
  output := rfl
  legacy := h.legacy.trans hp.mem_iff.symm
  trace := h.trace.trans hp.mem_iff.symm

end Asks

end RunGroup

/-! ### Lines -/

namespace RunRequest

open RunGroup

variable {line : List Argument} {request : RunRequest} {i : Interruption}

theorem parse_eq (line : List Argument) :
    parse line = (ofArguments line).foldlM RunDraft.take {} >>= RunDraft.finish := rfl

theorem parse_eq_ok_iff : parse line = .ok request ↔ Asks (ofArguments line) request := by
  rw [parse_eq]
  exact read_eq_ok_iff RunDraft.follows Asks.noneOffends Asks.finish_eq_ok_iff

theorem parse_eq_error_iff : parse line = .error i ↔
    (∃ before group after, ofArguments line = before ++ group :: after ∧
      NoneOffends Offends before ∧ Offends before group i) ∨
    (NoneOffends Offends (ofArguments line) ∧ (ofArguments line).filterMap positional? = [] ∧
      i = .error .missingInput) := by
  rw [parse_eq]
  exact read_eq_error_iff RunDraft.follows RunDraft.Describes.finish_eq_error_iff

/-- A line is read as groups in one way. It is accepted as a request exactly if its groups ask for
that request: no group asks for help, each flag that takes a value has one, there is one input path
and it does not start with a dash, and there is at most one bound, by a valid number. If it is not
accepted, the first group that asks for help or cannot be taken behind those before it decides what
is said of it, and only if there is none, the input path is missed. The groups of an accepted line
make it up, and make an accepted line in any order, with the same request but for the last of several
output paths. -/
theorem line_grammar (line : List Argument) :
    ∃ groups, (∀ other, Grouping line other ↔ other = groups) ∧
      (∀ request, parse line = .ok request ↔ Asks groups request) ∧
      (∀ i, parse line = .error i ↔
        (∃ before group after, groups = before ++ group :: after ∧ NoneOffends Offends before ∧
          Offends before group i) ∨
        (NoneOffends Offends groups ∧ groups.filterMap positional? = [] ∧
          i = .error .missingInput)) ∧
      ∀ request, parse line = .ok request →
        groups.flatMap RunGroup.arguments = line ∧
        ∀ groups', groups'.Perm groups →
          Grouping (groups'.flatMap RunGroup.arguments) groups' ∧
          parse (groups'.flatMap RunGroup.arguments) =
            .ok { request with output := (groups'.filterMap path?).getLast? } := by
  refine ⟨ofArguments line, fun other => grouping_iff, fun request => parse_eq_ok_iff,
    fun i => parse_eq_error_iff, fun request h => ?_⟩
  have hasks : Asks (ofArguments line) request := parse_eq_ok_iff.1 h
  have hline := grouping_ofArguments line
  refine ⟨flatMap_arguments hline hasks.help, fun groups' hp => ?_⟩
  have hgrouping : Grouping (groups'.flatMap RunGroup.arguments) groups' :=
    grouping_flatMap hline hp.subset fun group hgroup => hasks.complete group (hp.subset hgroup)
  refine ⟨hgrouping, ?_⟩
  rw [parse_eq_ok_iff, ← grouping_iff.1 hgrouping]
  exact hasks.perm hp

/-- The output flag takes what stands behind it, be it a help flag. -/
example : parse [ofString "-o", ofString "--help", ofString "img"] =
    .ok { input := ofString "img", output := some (ofString "--help") } := rfl

end RunRequest

end Tomtel
