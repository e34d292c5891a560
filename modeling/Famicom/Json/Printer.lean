import Famicom.Json.Basic
import Famicom.Reading

/-!
# Writing documents

Documents are written without blanks, and a null stands for what cannot be read.
A double is written as an integer and an exponent, with at most seventeen digits;
that is enough to read any single, and any double up to one unit in its last
place, back again.
-/

namespace Famicom.Json

namespace Number

def width (n : Nat) : Nat := (toString n).length

/-- `n * 10 ^ exponent` rounded to at most seventeen digits. -/
def rounded (n : Nat) (exponent : Int) : Nat × Int :=
  let excess := width n - 17
  if excess = 0 then (n, exponent)
  else
    let unit := Nat.pow 10 excess
    ((n + unit / 2) / unit, exponent + excess)

/-- The digits and the exponent of a positive double with that bit pattern.
Every double is an integer times a power of ten. -/
def decimal (bits : UInt64) : Nat × Int :=
  let fraction := bits.toNat % 0x10000000000000
  let biased : Nat := bits.toNat / 0x10000000000000 % 0x800
  let mantissa := if biased = 0 then fraction else 0x10000000000000 + fraction
  let power : Int := Int.subNatNat (max biased 1) 1075
  match power with
  | .ofNat n => rounded (mantissa <<< n) 0
  | .negSucc n =>
    if mantissa % Nat.pow 2 (n + 1) = 0 then rounded (mantissa >>> (n + 1)) 0
    else rounded (mantissa * Nat.pow 5 (n + 1)) (Int.negSucc n)

def render : Number → String
  | natural n => toString n
  | negative n => "-" ++ toString n
  | real f =>
    let (digits, exponent) := decimal f.toBits
    let sign := if f.toBits ≥ 0x8000000000000000 then "-" else ""
    sign ++ toString digits ++ "e" ++ toString exponent

end Number

def quotedChar (c : Char) : String :=
  if c = '"' then "\\\""
  else if c = '\\' then "\\\\"
  else if c.toNat < 0x20 then "\\u" ++ Reading.hex 4 c.toNat
  else c.toString

def quoted (s : String) : String :=
  s.toList.foldl (fun acc c => acc ++ quotedChar c) "\"" ++ "\""

namespace Document

mutual

/-- Write a document behind a text. -/
def renderTo (acc : String) : Document → String
  | null => acc ++ "null"
  | bool true => acc ++ "true"
  | bool false => acc ++ "false"
  | number n => acc ++ n.render
  | text s => acc ++ quoted s
  | array items => renderItems (acc ++ "[") true items ++ "]"
  | object members => renderMembers (acc ++ "\x7b") true members ++ "\x7d"
  | unreadable => acc ++ "null"

def renderItems (acc : String) (first : Bool) : List Document → String
  | [] => acc
  | item :: rest => renderItems (renderTo (if first then acc else acc ++ ",") item) false rest

def renderMembers (acc : String) (first : Bool) : List (String × Document) → String
  | [] => acc
  | (name, value) :: rest =>
    let acc := (if first then acc else acc ++ ",") ++ quoted name ++ ":"
    renderMembers (renderTo acc value) false rest

end

def render (d : Document) : String := renderTo "" d

end Document

end Famicom.Json
