/-!
# Wave files

Samples are written as a RIFF file with one channel of singles, in the extensible
form of its format chunk.
-/

namespace Famicom.Recording

/-- The `n` lowest bytes of a number, the lowest first. -/
def littleEndian : (n : Nat) → Nat → List UInt8
  | 0, _ => []
  | n + 1, v => v.toUInt8 :: littleEndian n (v / 256)

def ascii (word : String) : List UInt8 := word.toList.map fun c => c.toNat.toUInt8

namespace Wave

def sampleSize : Nat := 4
def headerSize : Nat := 68
/-- The number of the extensible format. -/
def extensible : Nat := 0xFFFE
def singles : List UInt8 :=
  [0x03, 0, 0, 0, 0, 0, 0x10, 0, 0x80, 0, 0, 0xAA, 0, 0x38, 0x9B, 0x71]

/-- The format chunk: one channel with the given rate. -/
def format (rate : UInt32) : List UInt8 :=
  ascii "fmt " ++ littleEndian 4 40
    ++ littleEndian 2 extensible ++ littleEndian 2 1
    ++ littleEndian 4 rate.toNat ++ littleEndian 4 (rate.toNat * sampleSize)
    ++ littleEndian 2 sampleSize ++ littleEndian 2 32
    ++ littleEndian 2 22 ++ littleEndian 2 32 ++ littleEndian 4 1 ++ singles

/-- Everything in front of `size` bytes of samples. -/
def header (rate : UInt32) (size : Nat) : List UInt8 :=
  ascii "RIFF" ++ littleEndian 4 (headerSize - 8 + size) ++ ascii "WAVE"
    ++ format rate ++ ascii "data" ++ littleEndian 4 size

/-- The bits of a sample. What is no number is the quiet one with its sign set. -/
def sampleBits (sample : Float32) : UInt32 :=
  if sample.isNaN then 0xFFC00000 else sample.toBits

def file (rate : UInt32) (samples : Array Float32) : Array UInt8 :=
  samples.foldl
    (fun bytes sample => bytes.appendList (littleEndian sampleSize (sampleBits sample).toNat))
    (header rate (samples.size * sampleSize)).toArray

end Wave

end Famicom.Recording
