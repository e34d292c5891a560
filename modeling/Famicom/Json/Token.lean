import Famicom.Json.Basic

/-!
# Tokens of a JSON text

A text is cut into tokens from left to right, byte by byte: in this module, a
character stands for the byte with its number. All that is not in quotes is
ASCII, and what is in quotes need not be Unicode as long as nobody looks at it.

Digits of a number are read only as long as their value fits in 64 bits; the
others count as zeros. A number with a fraction or an exponent is this value, as
a double, multiplied or divided by one power of ten, so at most two roundings go
into it.
-/

namespace Famicom.Json

inductive Token where
  | openObject | closeObject | openArray | closeArray | colon | comma
  | null
  | bool (value : Bool)
  | number (value : Number)
  /-- A text in quotes, unless it is not Unicode. -/
  | text (value : Option String)

namespace Token

/-! ## Numbers -/

def digit? (c : Char) : Option Nat :=
  if '0' ≤ c ∧ c ≤ '9' then some (c.toNat - '0'.toNat) else none

/-- The largest value that digits may add up to. -/
def digitLimit : Nat := UInt64.size

/-- Leading digits of a number, on top of what was read before. -/
structure Digits where
  value : Nat
  kept : Nat
  dropped : Nat
  rest : List Char

/-- Read digits for as long as there are any. Once a digit did not fit, none of
the following is taken. -/
def digits (value kept dropped : Nat) : List Char → Digits
  | [] => { value, kept, dropped, rest := [] }
  | c :: rest =>
    match digit? c with
    | none => { value, kept, dropped, rest := c :: rest }
    | some d =>
      if dropped = 0 ∧ value * 10 + d < digitLimit then
        digits (value * 10 + d) (kept + 1) dropped rest
      else
        digits value kept (dropped + 1) rest

/-- `10 ^ n` as a double, for `n` up to 308. -/
def powerOfTen (n : Nat) : Float := Float.ofScientific 1 false n

/-- Divide by `10 ^ n`, in strides of 308 decimal places. -/
def divideByPower (f : Float) (n : Nat) : Float :=
  if n ≤ 308 then f / powerOfTen n
  else if f == 0.0 then f
  else divideByPower (f / powerOfTen 308) (n - 308)
termination_by n

def scale (significand : Nat) (exponent : Int) : Float :=
  let f := (UInt64.ofNat significand).toFloat
  match exponent with
  | .ofNat n =>
    if n ≤ 308 then f * powerOfTen n
    else if f == 0.0 then f
    else 1.0 / 0.0
  | .negSucc n => divideByPower f (n + 1)

def realNumber (negative : Bool) (significand : Nat) (exponent : Int) : Number :=
  let f := scale significand exponent
  .real (if negative then -f else f)

/-- An integer with its sign. Minus zero and what does not fit in 64 bits are
doubles. -/
def integerNumber (negative : Bool) (value : Nat) : Number :=
  if !negative then .natural value
  else if value = 0 ∨ value > 0x8000000000000000 then realNumber true value 0
  else .negative value

/-- The exponent behind the letter `e`: a sign and at least one digit. -/
def exponent? (cs : List Char) : Option (Int × List Char) :=
  let (negative, cs) := match cs with
    | '+' :: rest => (false, rest)
    | '-' :: rest => (true, rest)
    | _ => (false, cs)
  let rec value (n : Nat) : List Char → Nat × List Char
    | [] => (n, [])
    | c :: rest =>
      match digit? c with
      | some d => value (n * 10 + d) rest
      | none => (n, c :: rest)
  match cs with
  | [] => none
  | c :: _ =>
    if (digit? c).isNone then none
    else
      let (n, rest) := value 0 cs
      some (if negative then -n else n, rest)

/-- What follows the digits of a number: an exponent or nothing. -/
def afterFraction (negative : Bool) (significand : Nat) (exponent : Int) (cs : List Char) :
    Option (Number × List Char) :=
  match cs with
  | 'e' :: rest | 'E' :: rest => do
    let (e, rest) ← exponent? rest
    return (realNumber negative significand (exponent + e), rest)
  | _ => some (realNumber negative significand exponent, cs)

/-- A number without its sign. A zero in front stands alone. -/
def unsigned? (negative : Bool) (cs : List Char) : Option (Number × List Char) :=
  let whole := match cs with
    | '0' :: rest => { value := 0, kept := 1, dropped := 0, rest : Digits }
    | _ => digits 0 0 0 cs
  if whole.kept = 0 then none
  else
    match whole.rest with
    | '.' :: rest =>
      let fraction := digits whole.value 0 0 rest
      if fraction.kept + fraction.dropped = 0 then none
      else
        afterFraction negative fraction.value (whole.dropped - fraction.kept) fraction.rest
    | 'e' :: _ | 'E' :: _ => afterFraction negative whole.value whole.dropped whole.rest
    | rest =>
      if whole.dropped = 0 then some (integerNumber negative whole.value, rest)
      else some (realNumber negative whole.value whole.dropped, rest)

/-! ## Texts -/

def hexQuad? (a b c d : Char) : Option Nat := do
  let digit (c : Char) : Option Nat :=
    if '0' ≤ c ∧ c ≤ '9' then some (c.toNat - '0'.toNat)
    else if 'a' ≤ c ∧ c ≤ 'f' then some (c.toNat - 'a'.toNat + 10)
    else if 'A' ≤ c ∧ c ≤ 'F' then some (c.toNat - 'A'.toNat + 10)
    else none
  return (((← digit a) * 16 + (← digit b)) * 16 + (← digit c)) * 16 + (← digit d)

def escaped? : Char → Option Char
  | '"' => some '"'
  | '\\' => some '\\'
  | '/' => some '/'
  | 'b' => some '\x08'
  | 'f' => some '\x0c'
  | 'n' => some '\n'
  | 'r' => some '\r'
  | 't' => some '\t'
  | _ => none

/-- The bytes of a code point. Half of a surrogate pair is written like any
other code point; no text that has such bytes is Unicode. -/
def codePoint (n : Nat) : List Char :=
  if n < 0x80 then [Char.ofNat n]
  else if n < 0x800 then [Char.ofNat (0xC0 + n / 0x40), tail n]
  else if n < 0x10000 then [Char.ofNat (0xE0 + n / 0x1000), tail (n / 0x40), tail n]
  else [Char.ofNat (0xF0 + n / 0x40000), tail (n / 0x1000), tail (n / 0x40), tail n]
where
  tail (n : Nat) : Char := Char.ofNat (0x80 + n % 0x40)

/-- The code point that the two halves of a surrogate pair stand for. -/
def pair? (high low : Nat) : Option Nat :=
  if 0xD800 ≤ high ∧ high < 0xDC00 ∧ 0xDC00 ≤ low ∧ low < 0xE000 then
    some (0x10000 + (high - 0xD800) * 0x400 + (low - 0xDC00))
  else none

/-- The text that bytes stand for, if they are Unicode. -/
def unicode? (bytes : List Char) : Option String :=
  String.fromUTF8? ⟨(bytes.map Char.toUInt8).toArray⟩

/-- The rest of a text up to its closing quote, on top of the bytes read so far
in reverse. `escape` is the code point of the escape right in front, if there is
one: as one half of a pair it has left three bytes, which give way to those of
the pair. Control characters must be escaped. -/
def textBody (before : List Char) (escape : Option Nat) :
    List Char → Option (Option String × List Char)
  | [] => none
  | '"' :: rest => some (unicode? before.reverse, rest)
  | '\\' :: 'u' :: a :: b :: c :: d :: rest =>
    match hexQuad? a b c d with
    | none => none
    | some n =>
      match escape.bind (pair? · n) with
      | some point => textBody ((codePoint point).reverse ++ before.drop 3) none rest
      | none => textBody ((codePoint n).reverse ++ before) (some n) rest
  | '\\' :: c :: rest =>
    match escaped? c with
    | none => none
    | some e => textBody (e :: before) none rest
  | c :: rest => if c.toNat < 0x20 then none else textBody (c :: before) none rest

/-! ## All tokens -/

def next? : List Char → Option (Token × List Char)
  | '{' :: rest => some (.openObject, rest)
  | '}' :: rest => some (.closeObject, rest)
  | '[' :: rest => some (.openArray, rest)
  | ']' :: rest => some (.closeArray, rest)
  | ':' :: rest => some (.colon, rest)
  | ',' :: rest => some (.comma, rest)
  | '"' :: rest => (textBody [] none rest).map fun (t, rest) => (.text t, rest)
  | '-' :: rest => (unsigned? true rest).map fun (n, rest) => (.number n, rest)
  | 'n' :: 'u' :: 'l' :: 'l' :: rest => some (.null, rest)
  | 't' :: 'r' :: 'u' :: 'e' :: rest => some (.bool true, rest)
  | 'f' :: 'a' :: 'l' :: 's' :: 'e' :: rest => some (.bool false, rest)
  | cs => (unsigned? false cs).map fun (n, rest) => (.number n, rest)

def isBlank (c : Char) : Bool := c = ' ' || c = '\n' || c = '\t' || c = '\r'

/-- At most `fuel` tokens of a text, on top of those before them in reverse. -/
def readAll (before : List Token) : (fuel : Nat) → List Char → Option (List Token)
  | _, [] => some before.reverse
  | 0, _ :: _ => none
  | fuel + 1, c :: rest =>
    if isBlank c then readAll before fuel rest
    else
      match next? (c :: rest) with
      | none => none
      | some (t, rest) => readAll (t :: before) fuel rest

/-- The tokens of a text. Each token takes at least one byte. -/
def ofBytes? (bytes : ByteArray) : Option (List Token) :=
  readAll [] bytes.size (bytes.data.toList.map Char.ofUInt8)

end Token

end Famicom.Json
