import Famicom.Json.Basic

/-!
# Archives

An archive is a document that holds a value. Records are objects with one member
for each field, or arrays of the fields in order; members that are not fields
are ignored, but no field may occur twice. Integers must fit the width of their
field. A single may come from any number, and is rounded to the nearest one.
-/

namespace Famicom

open Json

/-- Values that can be kept in documents. -/
class Archive (α : Type) where
  encode : α → Document
  decode? : Document → Option α

namespace Archive

/-! ## Integers, flags and singles -/

def natural? (bound : Nat) : Document → Option Nat
  | .number (.natural n) => if n < bound then some n else none
  | _ => none

instance : Archive UInt8 where
  encode v := .ofNat v.toNat
  decode? d := (natural? UInt8.size d).map (·.toUInt8)

instance : Archive UInt16 where
  encode v := .ofNat v.toNat
  decode? d := (natural? UInt16.size d).map (·.toUInt16)

instance : Archive UInt32 where
  encode v := .ofNat v.toNat
  decode? d := (natural? UInt32.size d).map (·.toUInt32)

instance : Archive UInt64 where
  encode v := .ofNat v.toNat
  decode? d := (natural? UInt64.size d).map (·.toUInt64)

/-- Sizes and offsets have 64 bits in documents. -/
instance : Archive Nat where
  encode := .ofNat
  decode? := natural? UInt64.size

instance : Archive Bool where
  encode := .bool
  decode?
    | .bool b => some b
    | _ => none

/-- Infinite values and those that are no number have no place in a document. -/
instance : Archive Float32 where
  encode v := if v.isFinite then .number (.real v.toFloat) else .null
  decode?
    | .number (.natural n) => some n.toUInt64.toFloat32
    | .number (.negative n) => some (-n.toUInt64.toFloat32)
    | .number (.real f) => if f.isFinite then some f.toFloat32 else none
    | _ => none

/-! ## Sequences -/

def items? {α : Type} [Archive α] : Document → Option (Array α)
  | .array items => items.toArray.mapM decode?
  | _ => none

instance {α : Type} [Archive α] : Archive (Array α) where
  encode vs := .array (vs.toList.map encode)
  decode? := items?

instance {α : Type} [Archive α] {n : Nat} : Archive (Vector α n) where
  encode vs := .array (vs.toList.map encode)
  decode? d := do
    let vs ← items? d
    if h : vs.size = n then some ⟨vs, h⟩ else none

/-! ## Records -/

/-- The fields of a record: an object in which none of them occurs twice, or an
array of all of them. -/
def fields? (names : List String) : Document → Option (List (String × Document))
  | .object members =>
    if names.all fun name => members.countP (·.1 == name) ≤ 1 then some members else none
  | .array items => if items.length = names.length then some (names.zip items) else none
  | _ => none

def field? {α : Type} [Archive α] (fields : List (String × Document)) (name : String) :
    Option α :=
  fields.lookup name >>= decode?

/-- The value of a field that may be null or missing. -/
def optionalField? {α : Type} [Archive α] (fields : List (String × Document)) (name : String) :
    Option (Option α) :=
  match fields.lookup name with
  | none | some .null => some none
  | some d => (decode? d).map some

/-! ## Choices -/

/-- One of several named values: its name, or an object that has it as the name
of a null. -/
def choice? {α : Type} (values : List (String × α)) : Document → Option α
  | .text name => values.lookup name
  | .object [(name, .null)] => values.lookup name
  | _ => none

end Archive

end Famicom
