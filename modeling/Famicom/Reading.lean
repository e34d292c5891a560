/-!
# Readings

Every part of the machine shows its registers and counters by name. A *panel*
is the list of all names of a part with the values they have at the moment, in
a fixed order. Looking at a panel never changes the part.
-/

namespace Famicom

/-- One value on a panel, with the width it has in the hardware. -/
inductive Reading where
  | flag (value : Bool)
  | byte (value : UInt8)
  | word (value : UInt16)
  | long (value : UInt32)
  | wide (value : UInt64)
  | label (text : String)
deriving DecidableEq, Repr

namespace Reading

def hexDigit (n : Nat) : Char :=
  if n < 10 then Char.ofNat (48 + n) else Char.ofNat (55 + n)

/-- The lowest `digits` hexadecimal digits of a number. -/
def hex : (digits : Nat) → Nat → String
  | 0, _ => ""
  | digits + 1, n => hex digits (n / 16) ++ (hexDigit (n % 16)).toString

/-- Bytes and words are shown in hexadecimal after a dollar sign, counters in
decimal, labels as they are. -/
def text : Reading → String
  | flag true => "true"
  | flag false => "false"
  | byte v => "$" ++ hex 2 v.toNat
  | word v => "$" ++ hex 4 v.toNat
  | long v => toString v.toNat
  | wide v => toString v.toNat
  | label s => s

end Reading

abbrev Panel := List (String × Reading)

namespace Panel

def read? (p : Panel) (name : String) : Option Reading := p.lookup name

def names (p : Panel) : List String := p.map Prod.fst

end Panel

end Famicom
