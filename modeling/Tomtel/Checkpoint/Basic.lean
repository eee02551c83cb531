import Tomtel.Checkpoint.Datum

/-!
# Saving and restoring

`Checkpoint.save` writes a value as a data tree and `Checkpoint.restore?` reads it back. Restoring
accepts more spellings than saving uses, but no value out of its range and no field left out.
-/

namespace Tomtel

class Checkpoint (α : Type) where
  save : α → Datum
  restore? : Datum → Option α

export Checkpoint (save restore?)

namespace Checkpoint

/-- A natural number below `bound`. -/
def restoreNat? (bound : Nat) : Datum → Option Nat
  | .integer (.ofNat n) => if n < bound then some n else none
  | _ => none

/-- Reads an alternative that carries nothing, given all of them by name. -/
def restoreName? {α : Type} (names : List (String × α)) (d : Datum) : Option α :=
  match d.variant? with
  | some v => if v.isBare then names.lookup v.name else none
  | none => none

instance : Checkpoint UInt8 where
  save v := .integer v.toNat
  restore? d := (restoreNat? UInt8.size d).map UInt8.ofNat

instance : Checkpoint UInt32 where
  save v := .integer v.toNat
  restore? d := (restoreNat? UInt32.size d).map UInt32.ofNat

instance : Checkpoint UInt64 where
  save v := .integer v.toNat
  restore? d := (restoreNat? UInt64.size d).map UInt64.ofNat

instance : Checkpoint Bool where
  save := .bool
  restore?
    | .bool b => some b
    | _ => none

instance : Checkpoint String where
  save := .text
  restore?
    | .text s => some s
    | _ => none

instance {α : Type} [Checkpoint α] : Checkpoint (List α) where
  save xs := .list (xs.map save)
  restore?
    | .list items => items.mapM restore?
    | _ => none

instance {α : Type} [Checkpoint α] : Checkpoint (Array α) where
  save xs := save xs.toList
  restore? d := (restore? d : Option (List α)).map List.toArray

end Checkpoint

end Tomtel
