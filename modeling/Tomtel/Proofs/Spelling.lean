import Mathlib.Data.List.Forall2
import Mathlib.Tactic.SplitIfs
import Tomtel.Checkpoint.Basic

/-!
# Spellings of values

Restoring accepts more than saving writes. What spells a value is a relation of its own for each
type, and `Spelling` ties it to the checkpoints of the type: restoring accepts exactly the spellings
of a value as that value, and saving writes one of them. So what has been saved is restored
(`restore?_save`).
-/

namespace Tomtel

/-- Reading all of a list. -/
theorem mapM_eq_some_iff {α β : Type} {f : α → Option β} {xs : List α} {ys : List β} :
    xs.mapM f = some ys ↔ List.Forall₂ (fun x y => f x = some y) xs ys := by
  induction xs generalizing ys with
  | nil => simp [eq_comm]
  | cons x xs ih => cases ys <;> simp [List.mapM_cons, Option.bind_eq_some_iff, ih, and_comm]

/-- If no name is repeated, looking one up finds what stands beside it. -/
theorem lookup_eq_some_iff_mem {β : Type} {entries : List (String × β)}
    (h : (entries.map Prod.fst).Nodup) {name : String} {value : β} :
    entries.lookup name = some value ↔ (name, value) ∈ entries := by
  induction entries with
  | nil => simp
  | cons entry entries ih =>
    obtain ⟨key, first⟩ := entry
    obtain ⟨hkey, hnodup⟩ := List.nodup_cons.1 h
    by_cases heq : name = key
    · subst heq
      have hnot : (name, value) ∉ entries := fun hmem => hkey (List.mem_map.2 ⟨_, hmem, rfl⟩)
      simp [hnot, eq_comm]
    · have hbeq : (name == key) = false := beq_eq_false_iff_ne.2 heq
      simp [List.lookup_cons, hbeq, heq, ih hnodup]

/-! ### Shapes of data -/

namespace Datum

/-- A record that has these fields, in any order and among others. -/
def HasFields (d : Datum) (fields : List (String × Datum)) : Prop :=
  ∃ entries, d = .record entries ∧ ∀ field ∈ fields, entries.lookup field.1 = some field.2

/-- A struct with these fields. -/
def IsStruct (d : Datum) (fields : List (String × Datum)) : Prop :=
  d.HasFields fields ∨ d = .list (fields.map Prod.snd)

/-- An alternative that carries nothing. -/
def IsBare (d : Datum) (name : String) : Prop := d = .text name ∨ d = .variant name .null

variable {d payload : Datum} {name : String} {names : List String} {values : List Datum}
  {fields entries : List (String × Datum)} {v : Variant} {α : Type} {a : α}

/-! #### Structs -/

/-- In a record without a repeated name, order and other fields are of no account. -/
theorem hasFields_record_iff (h : (entries.map Prod.fst).Nodup) :
    (record entries).HasFields fields ↔ fields ⊆ entries := by
  constructor
  · rintro ⟨_, ⟨⟩, hfields⟩ field hfield
    exact (lookup_eq_some_iff_mem h).1 (hfields field hfield)
  · exact fun hsub => ⟨entries, rfl, fun field hfield => (lookup_eq_some_iff_mem h).2 (hsub hfield)⟩

theorem hasFields_record (h : (fields.map Prod.fst).Nodup) : (record fields).HasFields fields :=
  (hasFields_record_iff h).2 (List.Subset.refl fields)

theorem isStruct_record (h : (fields.map Prod.fst).Nodup) : (record fields).IsStruct fields :=
  .inl (hasFields_record h)

theorem record?_eq_some_iff : d.record? names = some values ↔
    values.length = names.length ∧ d.HasFields (names.zip values) := by
  cases d with
  | record entries =>
    rw [record?, mapM_eq_some_iff, List.forall₂_iff_zip, eq_comm]
    refine and_congr_right fun _ => ⟨fun h => ⟨entries, rfl, fun _ => h⟩, ?_⟩
    rintro ⟨_, ⟨⟩, h⟩ name value hmem
    exact h (name, value) hmem
  | _ => simp [record?, HasFields]

theorem struct?_eq_some_iff : d.struct? names = some values ↔
    values.length = names.length ∧ d.IsStruct (names.zip values) := by
  cases d with
  | list items =>
    have hfields : ¬ (list items).HasFields (names.zip values) := by
      rintro ⟨_, ⟨⟩, -⟩
    rw [struct?, IsStruct, or_iff_right hfields, Datum.list.injEq]
    constructor
    · intro h
      split_ifs at h with hlength
      cases h
      exact ⟨hlength, (List.map_snd_zip (Nat.le_of_eq hlength)).symm⟩
    · rintro ⟨hlength, h⟩
      rw [List.map_snd_zip (Nat.le_of_eq hlength)] at h
      rw [h, if_pos hlength]
  | _ => simp [struct?, IsStruct, record?_eq_some_iff]

/-! #### Reading structs field by field -/

/-- What is read of a struct hangs on its fields. -/
theorem struct?_bind_eq_some_iff {read : List Datum → Option α} :
    (d.struct? names >>= read) = some a ↔
      ∃ values, values.length = names.length ∧ d.IsStruct (names.zip values) ∧
        read values = some a := by
  simp [Option.bind_eq_some_iff, struct?_eq_some_iff, and_assoc]

theorem record?_bind_eq_some_iff {read : List Datum → Option α} :
    (d.record? names >>= read) = some a ↔
      ∃ values, values.length = names.length ∧ d.HasFields (names.zip values) ∧
        read values = some a := by
  simp [Option.bind_eq_some_iff, record?_eq_some_iff, and_assoc]

theorem exists_length_succ {n : Nat} {P : List Datum → Prop} :
    (∃ values, values.length = n + 1 ∧ P values) ↔
      ∃ value values, values.length = n ∧ P (value :: values) := by
  constructor
  · rintro ⟨_ | ⟨value, values⟩, hlength, h⟩
    · cases hlength
    · exact ⟨value, values, Nat.succ.inj hlength, h⟩
  · rintro ⟨value, values, hlength, h⟩
    exact ⟨value :: values, congrArg Nat.succ hlength, h⟩

/-! #### Alternatives -/

theorem variant?_eq_some (h : d.variant? = some v) :
    d = .text v.name ∧ v.payload = none ∨
      ∃ payload, d = .variant v.name payload ∧ v.payload = some payload := by
  unfold variant? at h
  split at h <;> cases h
  · exact .inl ⟨rfl, rfl⟩
  · exact .inr ⟨_, rfl, rfl⟩

theorem isBare_iff (h : d.variant? = some v) (hname : v.name = name) :
    v.isBare = true ↔ d.IsBare name := by
  subst hname
  rcases variant?_eq_some h with ⟨rfl, hnone⟩ | ⟨payload, rfl, hsome⟩
  · simp [Variant.isBare, IsBare, hnone]
  · cases payload <;> simp [Variant.isBare, IsBare, variant, hsome]

theorem eq_variant (h : d.variant? = some v) (hname : v.name = name)
    (hsome : v.payload = some payload) : d = .variant name payload := by
  subst hname
  rcases variant?_eq_some h with ⟨-, hnone⟩ | ⟨payload', rfl, hsome'⟩
  · rw [hnone] at hsome
    cases hsome
  · rw [hsome'] at hsome
    cases hsome
    rfl

end Datum

/-! ### Spellings -/

/-- What spells the values of a type. -/
class Spelling (α : Type) [Checkpoint α] where
  Spells : Datum → α → Prop
  restore?_eq_some_iff {d : Datum} {a : α} : restore? d = some a ↔ Spells d a
  spells_save (a : α) : Spells (save a) a

export Spelling (Spells restore?_eq_some_iff spells_save)

section

variable {α : Type} [Checkpoint α] [Spelling α]

/-- What has been saved is restored. -/
theorem restore?_save (a : α) : restore? (save a) = some a :=
  restore?_eq_some_iff.2 (spells_save a)

end

namespace Checkpoint

/-! #### Numbers -/

theorem restoreNat?_eq_some_iff {bound n : Nat} {d : Datum} :
    restoreNat? bound d = some n ↔ n < bound ∧ d = .integer n := by
  unfold restoreNat?
  constructor
  · intro h
    split at h
    · split_ifs at h with hlt
      cases h
      exact ⟨hlt, rfl⟩
    · cases h
  · rintro ⟨hlt, rfl⟩
    exact if_pos hlt

theorem map_restoreNat?_eq_some_iff {α : Type} {toNat : α → Nat} {ofNat : Nat → α} {bound : Nat}
    (hlt : ∀ v, toNat v < bound) (hofNat : ∀ v, ofNat (toNat v) = v)
    (htoNat : ∀ n < bound, toNat (ofNat n) = n) {d : Datum} {v : α} :
    (restoreNat? bound d).map ofNat = some v ↔ d = .integer (toNat v) := by
  rw [Option.map_eq_some_iff]
  constructor
  · rintro ⟨n, h, rfl⟩
    obtain ⟨hn, rfl⟩ := restoreNat?_eq_some_iff.1 h
    rw [htoNat n hn]
  · rintro rfl
    exact ⟨toNat v, restoreNat?_eq_some_iff.2 ⟨hlt v, rfl⟩, hofNat v⟩

instance : Spelling UInt8 where
  Spells d v := d = .integer v.toNat
  restore?_eq_some_iff := map_restoreNat?_eq_some_iff UInt8.toNat_lt (fun _ => UInt8.ofNat_toNat)
    fun _ => UInt8.toNat_ofNat_of_lt'
  spells_save _ := rfl

instance : Spelling UInt32 where
  Spells d v := d = .integer v.toNat
  restore?_eq_some_iff := map_restoreNat?_eq_some_iff UInt32.toNat_lt (fun _ => UInt32.ofNat_toNat)
    fun _ => UInt32.toNat_ofNat_of_lt'
  spells_save _ := rfl

instance : Spelling UInt64 where
  Spells d v := d = .integer v.toNat
  restore?_eq_some_iff := map_restoreNat?_eq_some_iff UInt64.toNat_lt (fun _ => UInt64.ofNat_toNat)
    fun _ => UInt64.toNat_ofNat_of_lt'
  spells_save _ := rfl

/-! #### Flags, lists and names -/

instance : Spelling Bool where
  Spells d b := d = .bool b
  restore?_eq_some_iff {d b} := by
    cases d <;> simp [restore?]
  spells_save _ := rfl

instance {α : Type} [Checkpoint α] [Spelling α] : Spelling (List α) where
  Spells d xs := ∃ items, d = .list items ∧ List.Forall₂ Spells items xs
  restore?_eq_some_iff {d xs} := by
    cases d with
    | list items =>
      show items.mapM restore? = some xs ↔ _
      simp only [mapM_eq_some_iff, restore?_eq_some_iff, Datum.list.injEq, exists_eq_left']
    | _ => simp [restore?]
  spells_save xs := by
    refine ⟨_, rfl, ?_⟩
    rw [List.forall₂_map_left_iff]
    exact List.forall₂_same.2 fun x _ => spells_save x

instance {α : Type} [Checkpoint α] [Spelling α] : Spelling (Array α) where
  Spells d xs := Spells d xs.toList
  restore?_eq_some_iff {d xs} := by
    show (restore? d : Option (List α)).map List.toArray = some xs ↔ _
    rw [Option.map_eq_some_iff, ← restore?_eq_some_iff]
    constructor
    · rintro ⟨_, h, rfl⟩
      exact h
    · exact fun h => ⟨_, h, rfl⟩
  spells_save xs := spells_save xs.toList

theorem restoreName?_eq_some_iff {α : Type} {names : List (String × α)}
    (hnames : (names.map Prod.fst).Nodup) {d : Datum} {a : α} :
    restoreName? names d = some a ↔ ∃ name, d.IsBare name ∧ (name, a) ∈ names := by
  unfold restoreName?
  constructor
  · intro h
    split at h
    · rename_i v hv
      split_ifs at h with hbare
      exact ⟨v.name, (Datum.isBare_iff hv rfl).1 hbare, (lookup_eq_some_iff_mem hnames).1 h⟩
    · cases h
  · rintro ⟨name, rfl | rfl, h⟩
    · exact (lookup_eq_some_iff_mem hnames).2 h
    · exact (lookup_eq_some_iff_mem hnames).2 h

/-! #### What alternatives carry -/

theorem payload_bind_eq_some_iff {α β : Type} [Checkpoint β] [Spelling β] {make : β → α}
    {v : Variant} {a : α} : (do return make (← restore? (← v.payload))) = some a ↔
      ∃ payload b, v.payload = some payload ∧ Spells payload b ∧ make b = a := by
  simp [Option.bind_eq_some_iff, restore?_eq_some_iff]

/-- Reading the two fields of an alternative. -/
theorem record?_pair_eq_some_iff {α β γ : Type} [Checkpoint β] [Spelling β] [Checkpoint γ]
    [Spelling γ] {make : β → γ → α} {first second : String} {payload : Datum} {a : α} :
    (do match ← payload.record? [first, second] with
      | [x, y] => return make (← restore? x) (← restore? y)
      | _ => none) = some a ↔
    ∃ x y, payload.HasFields [(first, x), (second, y)] ∧
      ∃ b c, Spells x b ∧ Spells y c ∧ make b c = a := by
  refine Datum.record?_bind_eq_some_iff.trans ?_
  simp [Datum.exists_length_succ, Option.bind_eq_some_iff, restore?_eq_some_iff]

end Checkpoint

end Tomtel
