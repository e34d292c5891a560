/-!
# JSON documents

Saved machines are kept as JSON. A document distinguishes integers, which fit
in 64 bits, from all other numbers, which are doubles.
-/

namespace Famicom.Json

inductive Number where
  /-- An integer from 0 to 2^64 - 1. -/
  | natural (value : Nat)
  /-- The integer `-value`, from -2^63 to -1. -/
  | negative (value : Nat)
  /-- Any other number. One that is too large for a double is infinite. -/
  | real (value : Float)

/-- A document. The members of an object keep their order. -/
inductive Document where
  | null
  | bool (value : Bool)
  | number (value : Number)
  | text (value : String)
  | array (items : List Document)
  | object (members : List (String × Document))
  /-- A text that is not Unicode, or an object in which the name of a member is
  not. It holds no value, but it may stand where it is ignored. -/
  | unreadable

namespace Document

def ofNat (n : Nat) : Document := .number (.natural n)

/-- The last member of that name. -/
def member? (name : String) : Document → Option Document
  | object members => members.reverse.lookup name
  | _ => none

end Document

end Famicom.Json
