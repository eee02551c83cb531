import Mathlib.Data.List.Induction
import Tomtel.CommandLine.Grammar

/-!
# Groups taken one by one

A line of groups is taken from left to right until one of them cannot be taken behind those before
it. Where `offends` says which groups these are, by what stands before them and not by what has been
made of it, the first of them ends the reading (`foldlM_of_offends`); if there is none, all groups
are taken (`foldlM_of_noneOffends`) and what has been made of them is finished. So the answer follows
from the groups alone: `read_eq_ok_iff`, `read_eq_error_iff`.
-/

namespace Tomtel

/-! ### Flags, numbers and paths -/

theorem Argument.isAny_iff {arg : Argument} {words : List String} :
    arg.isAny words = true ↔ ∃ word ∈ words, arg = .ofString word := by
  simp [isAny]

theorem Argument.isAny_singleton {arg : Argument} {word : String} :
    arg.isAny [word] = true ↔ arg = .ofString word := by
  simp [isAny]

theorem Argument.isAny_eq_false {arg : Argument} {words others : List String}
    (harg : ∀ word ∈ words, arg ≠ .ofString word) (h : others ⊆ words) :
    arg.isAny others = false := by
  rw [Bool.eq_false_iff, Ne, isAny_iff]
  rintro ⟨word, hword, hw⟩
  exact harg word (h hword) hw

section

variable {flag : String} {value : Option Argument} {n : UInt64} {e : UsageError}

theorem numberFor_eq_ok_iff : numberFor flag value = .ok n ↔
    ∃ arg, value = some arg ∧ Number.parse? arg.bytes = some n := by
  cases value with
  | none => simp [numberFor]
  | some arg => cases hn : Number.parse? arg.bytes <;> simp [numberFor, hn]

theorem numberFor_eq_error_iff : numberFor flag value = .error e ↔
    value = none ∧ e = .missingValue flag ∨
      ∃ arg, value = some arg ∧ Number.parse? arg.bytes = none ∧ e = .invalidValue flag arg := by
  cases value with
  | none => simp [numberFor, eq_comm]
  | some arg => cases hn : Number.parse? arg.bytes <;> simp [numberFor, hn, eq_comm]

theorem inputFor_eq_ok_iff {input : Option Argument} {arg path : Argument} :
    inputFor input arg = .ok path ↔
      arg.startsWithDash = false ∧ input = none ∧ path = arg := by
  rw [inputFor]
  split_ifs with hdash hsome
  · simp [hdash]
  · simp [Option.ne_none_iff_isSome.2 hsome]
  · constructor
    · rintro ⟨⟩
      exact ⟨Bool.eq_false_iff.2 hdash, Option.not_isSome_iff_eq_none.1 hsome, rfl⟩
    · rintro ⟨-, -, rfl⟩
      rfl

theorem inputFor_eq_error_iff {input : Option Argument} {arg : Argument} :
    inputFor input arg = .error e ↔
      arg.startsWithDash = true ∧ e = .unknownOption arg ∨
        arg.startsWithDash = false ∧ input.isSome ∧ e = .multipleInputs := by
  rw [inputFor]
  split_ifs with hdash hsome
  · simpa [hdash] using eq_comm
  · simpa [hdash, hsome] using eq_comm
  · simp [hdash, hsome]

end

/-! ### Readings -/

section

variable {γ δ ε : Type} {take : δ → γ → Except ε δ} {start draft : δ}
  {describes : List γ → δ → Prop} {offends : List γ → γ → ε → Prop}
  {groups before after : List γ} {group : γ} {e : ε}

/-- No group offends behind those before it. -/
def NoneOffends (offends : List γ → γ → ε → Prop) (groups : List γ) : Prop :=
  ∀ before group after e, groups = before ++ group :: after → ¬ offends before group e

/-- A group is refused exactly if it offends, and what has been made of the groups so far describes
them. -/
structure Follows (take : δ → γ → Except ε δ) (start : δ) (describes : List γ → δ → Prop)
    (offends : List γ → γ → ε → Prop) : Prop where
  nil : describes [] start
  concat : ∀ {before group draft draft'}, describes before draft → take draft group = .ok draft' →
    describes (before ++ [group]) draft'
  error_iff : ∀ {before group draft e}, describes before draft →
    (take draft group = .error e ↔ offends before group e)

theorem noneOffends_nil : NoneOffends offends [] := by
  intro before group after e h
  simp at h

theorem noneOffends_concat : NoneOffends offends (groups ++ [group]) ↔
    NoneOffends offends groups ∧ ∀ e, ¬ offends groups group e := by
  constructor
  · intro h
    refine ⟨fun before other after e hgroups => ?_, fun e => h groups group [] e rfl⟩
    exact h before other (after ++ [group]) e (by simp [hgroups])
  · rintro ⟨hgroups, hlast⟩ before other after e h
    rcases List.eq_nil_or_concat after with rfl | ⟨after, last, rfl⟩
    · obtain ⟨rfl, hother⟩ := List.append_inj' h rfl
      cases hother
      exact hlast e
    · rw [List.concat_eq_append, ← List.cons_append, ← List.append_assoc] at h
      exact hgroups before other after e (List.append_inj' h rfl).1

theorem one_lt_length_filterMap {β : Type} (f : γ → Option β) {other : γ}
    (hgroups : groups = before ++ group :: after) (hother : other ∈ before)
    (hsome : (f other).isSome) (hsome' : (f group).isSome) : 1 < (groups.filterMap f).length := by
  obtain ⟨b, hb⟩ := Option.isSome_iff_exists.1 hsome
  obtain ⟨c, hc⟩ := Option.isSome_iff_exists.1 hsome'
  have hpos : 0 < (before.filterMap f).length :=
    List.length_pos_of_mem (List.mem_filterMap.2 ⟨other, hother, hb⟩)
  rw [hgroups, List.filterMap_append, List.filterMap_cons_some hc, List.length_append,
    List.length_cons]
  omega

/-- If a group offends, there is a first one that does. -/
theorem exists_first_offence (h : ¬ NoneOffends offends groups) :
    ∃ before group after e, groups = before ++ group :: after ∧ NoneOffends offends before ∧
      offends before group e := by
  induction groups using List.reverseRecOn with
  | nil => exact absurd noneOffends_nil h
  | append_singleton groups last ih =>
    by_cases hgroups : NoneOffends offends groups
    · have hlast : ¬ ∀ e, ¬ offends groups last e := fun hlast =>
        h (noneOffends_concat.2 ⟨hgroups, hlast⟩)
      obtain ⟨e, he⟩ := Classical.not_forall_not.1 hlast
      exact ⟨groups, last, [], e, rfl, hgroups, he⟩
    · obtain ⟨before, group, after, e, rfl, hbefore, he⟩ := ih hgroups
      exact ⟨before, group, after ++ [last], e, by simp, hbefore, he⟩

theorem foldlM_of_noneOffends (hf : Follows take start describes offends)
    (h : NoneOffends offends groups) :
    ∃ draft, groups.foldlM take start = .ok draft ∧ describes groups draft := by
  induction groups using List.reverseRecOn with
  | nil => exact ⟨start, rfl, hf.nil⟩
  | append_singleton groups last ih =>
    obtain ⟨hgroups, hlast⟩ := noneOffends_concat.1 h
    obtain ⟨draft, hdraft, hdescribes⟩ := ih hgroups
    have hfold : (groups ++ [last]).foldlM take start = take draft last := by
      rw [List.foldlM_append, hdraft]
      exact bind_pure (take draft last)
    cases ht : take draft last with
    | error e => exact absurd ((hf.error_iff hdescribes).1 ht) (hlast e)
    | ok draft' => exact ⟨draft', hfold.trans ht, hf.concat hdescribes ht⟩

/-- The first group that offends ends the reading. -/
theorem foldlM_of_offends (hf : Follows take start describes offends)
    (hbefore : NoneOffends offends before) (he : offends before group e) :
    (before ++ group :: after).foldlM take start = .error e := by
  obtain ⟨draft, hdraft, hdescribes⟩ := foldlM_of_noneOffends hf hbefore
  rw [List.foldlM_append, hdraft]
  show ((group :: after).foldlM take draft : Except ε δ) = _
  rw [List.foldlM_cons, (hf.error_iff hdescribes).2 he]
  rfl

variable {ρ : Type} {finish : δ → Except ε ρ} {result : ρ}

/-- A line is accepted exactly if its groups ask for something, where no group offends that is asked
for and what describes groups is finished as they ask. -/
theorem read_eq_ok_iff {asks : List γ → ρ → Prop} (hf : Follows take start describes offends)
    (hasks : ∀ {groups result}, asks groups result → NoneOffends offends groups)
    (hfinish : ∀ {groups draft result}, describes groups draft →
      (finish draft = .ok result ↔ asks groups result)) :
    groups.foldlM take start >>= finish = .ok result ↔ asks groups result := by
  by_cases hnone : NoneOffends offends groups
  · obtain ⟨draft, hdraft, hdescribes⟩ := foldlM_of_noneOffends hf hnone
    rw [hdraft]
    exact hfinish hdescribes
  · obtain ⟨before, group, after, e, rfl, hbefore, he⟩ := exists_first_offence hnone
    rw [foldlM_of_offends hf hbefore he]
    constructor
    · intro h
      cases h
    · exact fun h => absurd (hasks h) hnone

/-- What is said of a line that is not accepted, where `lacks` tells what groups that do not offend
lack. -/
theorem read_eq_error_iff {lacks : List γ → ε → Prop} (hf : Follows take start describes offends)
    (hfinish : ∀ {groups draft e}, describes groups draft →
      (finish draft = .error e ↔ lacks groups e)) :
    groups.foldlM take start >>= finish = .error e ↔
      (∃ before group after, groups = before ++ group :: after ∧ NoneOffends offends before ∧
        offends before group e) ∨ (NoneOffends offends groups ∧ lacks groups e) := by
  constructor
  · intro h
    by_cases hnone : NoneOffends offends groups
    · obtain ⟨draft, hdraft, hdescribes⟩ := foldlM_of_noneOffends hf hnone
      rw [hdraft] at h
      exact .inr ⟨hnone, (hfinish hdescribes).1 h⟩
    · obtain ⟨before, group, after, e', rfl, hbefore, he⟩ := exists_first_offence hnone
      rw [foldlM_of_offends hf hbefore he] at h
      cases h
      exact .inl ⟨before, group, after, rfl, hbefore, he⟩
  · rintro (⟨before, group, after, rfl, hbefore, he⟩ | ⟨hnone, hlacks⟩)
    · rw [foldlM_of_offends hf hbefore he]
      rfl
    · obtain ⟨draft, hdraft, hdescribes⟩ := foldlM_of_noneOffends hf hnone
      rw [hdraft]
      exact (hfinish hdescribes).2 hlacks

end

end Tomtel
