/-!
# Data trees

A checkpoint is a tree of plain data. Two shapes recur in it. A *struct* is a record of named
fields, or just the list of their values in order. A *variant* is one of several named alternatives:
a bare name, or a record whose only field is the name with what it carries.
-/

namespace Tomtel

inductive Datum where
  | null
  | bool (b : Bool)
  | integer (n : Int)
  /-- A number that is not written as an integer, in the spelling it was found. -/
  | decimal (spelling : String)
  | text (s : String)
  | list (items : List Datum)
  | record (fields : List (String × Datum))
  deriving Repr, Inhabited

/-- An alternative by name, with what it carries. -/
structure Variant where
  name : String
  payload : Option Datum
  deriving Repr

namespace Variant

/-- Whether the alternative carries nothing. -/
def isBare (v : Variant) : Bool :=
  match v.payload with
  | none | some .null => true
  | some _ => false

end Variant

namespace Datum

def field? (d : Datum) (name : String) : Option Datum :=
  match d with
  | .record fields => fields.lookup name
  | _ => none

/-- The named fields of a record in the order of `names`. Each must be there; others may be. -/
def record? (d : Datum) (names : List String) : Option (List Datum) :=
  match d with
  | .record _ => names.mapM d.field?
  | _ => none

/-- The fields of a struct, which may also be written as the list of exactly its values. -/
def struct? (d : Datum) (names : List String) : Option (List Datum) :=
  match d with
  | .list items => if items.length = names.length then some items else none
  | _ => d.record? names

def variant? (d : Datum) : Option Variant :=
  match d with
  | .text name => some ⟨name, none⟩
  | .record [(name, payload)] => some ⟨name, some payload⟩
  | _ => none

/-- The alternative `name` carrying `payload`. -/
def variant (name : String) (payload : Datum) : Datum := .record [(name, payload)]

end Datum

end Tomtel
