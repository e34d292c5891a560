import Famicom.Cartridge.Bank
import Famicom.Cartridge.Contents
import Famicom.Reading
import Famicom.Word

/-!
# The serial board

Its registers are written one bit at a time, lowest bit first. The bits collect
in a shift register that starts with a single marker bit; once the marker has
come out at the low end, five bits are there and go to the register that the
address of the fifth write selects. A byte with bit 7 set starts over.

The program appears in two windows of 16 KiB, the patterns in two of 4 KiB.
-/

namespace Famicom.Cartridge

structure SerialCircuit where
  /-- The bits received so far, above the marker bit. -/
  shift : UInt8
  control : UInt8
  pattern0 : UInt8
  pattern1 : UInt8
  program : UInt8
  programStarts : Vector Nat 2
  patternStarts : Vector Nat 2
deriving DecidableEq

namespace SerialCircuit

def programBank : Nat := 0x4000
def patternBank : Nat := 0x1000
/-- The shift register with nothing but the marker. -/
def emptyShift : UInt8 := 0x10

def programMode (s : SerialCircuit) : UInt8 := (s.control >>> 2) &&& 0x03

def patternMode (s : SerialCircuit) : UInt8 := (s.control >>> 4) &&& 0x01

def mirroring (s : SerialCircuit) : Mirroring :=
  match s.control &&& 0x03 with
  | 0 => .singleLower
  | 1 => .singleUpper
  | 2 => .vertical
  | _ => .horizontal

/-- The numbers of the program banks in the two windows: a pair of banks, or a
fixed first bank below a chosen one, or a fixed last bank above a chosen one. -/
def programBanks (s : SerialCircuit) : Vector Int 2 :=
  match s.programMode with
  | 0 | 1 => #v[(s.program &&& 0x0E).toNat, (s.program ||| 0x01).toNat]
  | 2 => #v[0, s.program.toNat]
  | _ => #v[s.program.toNat, -1]

/-- The numbers of the pattern banks in the two windows: a pair of banks, or two
banks of their own. -/
def patternBanks (s : SerialCircuit) : Vector Int 2 :=
  if s.patternMode = 0 then #v[(s.pattern0 &&& 0x1E).toNat, (s.pattern0 ||| 0x01).toNat]
  else #v[s.pattern0.toNat, s.pattern1.toNat]

def locate (c : Cartridge) (s : SerialCircuit) : SerialCircuit :=
  { s with
    programStarts := s.programBanks.map (bankStart c.program.size programBank)
    patternStarts := s.patternBanks.map (bankStart c.patterns.size patternBank) }

/-- The circuit at power-on: the last program bank is fixed. -/
def powerOn (c : Cartridge) : SerialCircuit :=
  locate c
    { shift := emptyShift, control := 0x0C, pattern0 := 0, pattern1 := 0, program := 0
      programStarts := #v[0, 0], patternStarts := #v[0, 0] }

def setRegister (address : UInt16) (bits : UInt8) (s : SerialCircuit) : SerialCircuit :=
  match (address >>> 13) &&& 0x03 with
  | 0 => { s with control := bits &&& 0x1F }
  | 1 => { s with pattern0 := bits }
  | 2 => { s with pattern1 := bits }
  | _ => { s with program := bits &&& 0x0F }

def write (c : Cartridge) (address : UInt16) (value : UInt8) (s : SerialCircuit) :
    SerialCircuit :=
  if hasBits value 0x80 then
    locate c { s with shift := emptyShift, control := (s.control ||| 0x0C) &&& 0x1F }
  else
    let complete := hasBits s.shift 0x01
    let shift := (s.shift >>> 1) ||| ((value &&& 0x01) <<< 4)
    if complete then locate c { setRegister address shift s with shift := emptyShift }
    else { s with shift }

def programOffset (s : SerialCircuit) (address : UInt16) : Nat :=
  let offset := address.toNat % 0x8000
  have : offset / 0x4000 < 2 := by omega
  s.programStarts[offset / 0x4000] + offset % 0x4000

def patternOffset (s : SerialCircuit) (address : UInt16) : Nat :=
  let offset := address.toNat % 0x2000
  have : offset / 0x1000 < 2 := by omega
  s.patternStarts[offset / 0x1000] + offset % 0x1000

def fits (c : Cartridge) (saved : SerialCircuit) : Bool :=
  saved.programStarts.all (· < c.program.size) && saved.patternStarts.all (· < c.patterns.size)

def restore (saved : SerialCircuit) : SerialCircuit :=
  { saved with control := saved.control &&& 0x1F }

def panel (s : SerialCircuit) : Panel :=
  [("shift", .byte s.shift), ("control", .byte s.control), ("chr_bank_0", .byte s.pattern0),
   ("chr_bank_1", .byte s.pattern1), ("prg_bank", .byte s.program)]

end SerialCircuit

end Famicom.Cartridge
