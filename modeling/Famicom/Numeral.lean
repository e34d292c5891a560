/-!
# Numerals

Numbers inside names are written in ASCII digits of some radix, with at least
one digit, any number of leading zeros and at most one plus sign in front.
-/

namespace Famicom.Numeral

def digit? (radix : Nat) (c : Char) : Option Nat :=
  let value :=
    if '0' ≤ c ∧ c ≤ '9' then some (c.toNat - '0'.toNat)
    else if 'a' ≤ c ∧ c ≤ 'z' then some (c.toNat - 'a'.toNat + 10)
    else if 'A' ≤ c ∧ c ≤ 'Z' then some (c.toNat - 'A'.toNat + 10)
    else none
  value.filter (· < radix)

/-- The number that the digits write, most significant first; `none` if one of
them is no digit. -/
def ofDigits? (radix : Nat) (digits : List Char) : Option Nat :=
  digits.foldlM (fun n c => (digit? radix c).map (n * radix + ·)) 0

/-- Read a numeral whose value must be below `bound`. -/
def ofChars? (radix bound : Nat) (cs : List Char) : Option Nat :=
  let digits := match cs with
    | '+' :: rest => rest
    | _ => cs
  if digits.isEmpty then none else (ofDigits? radix digits).filter (· < bound)

end Famicom.Numeral
