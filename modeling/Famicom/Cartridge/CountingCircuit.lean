import Famicom.Cartridge.Bank
import Famicom.Cartridge.Contents
import Famicom.Memory
import Famicom.Numeral
import Famicom.Reading
import Famicom.Word

/-!
# The counting board

Eight registers choose the banks, and a counter of scanlines raises an interrupt
request. The program appears in four windows of 8 KiB, of which the last two
banks keep theirs but for an exchange; the patterns appear in eight windows of
1 KiB, of which four come in pairs.
-/

namespace Famicom.Cartridge

structure CountingCircuit where
  /-- The register that the next bank number goes to. -/
  selected : UInt8
  banks : Memory UInt8 8
  /-- Whether the first and the third program window are exchanged. -/
  programMode : UInt8
  /-- Whether the two halves of the pattern windows are exchanged. -/
  patternMode : UInt8
  programStarts : Vector Nat 4
  patternStarts : Vector Nat 8
  mirroring : Mirroring
  reload : UInt8
  counter : UInt8
  enabled : Bool
  request : Bool
deriving DecidableEq

namespace CountingCircuit

def programBank : Nat := 0x2000
def patternBank : Nat := 0x0400

def bank (s : CountingCircuit) (i : Nat) : UInt8 := s.banks.read i

def programBanks (s : CountingCircuit) : Vector Int 4 :=
  let chosen : Int := (s.bank 6).toNat
  let other : Int := (s.bank 7).toNat
  if s.programMode = 0 then #v[chosen, other, -2, -1] else #v[-2, other, chosen, -1]

/-- The numbers of the pattern banks in the eight windows. The lowest bit of a
paired register does not count. -/
def patternBanks (s : CountingCircuit) : Vector Int 8 :=
  let one (i : Nat) : Int := (s.bank i).toNat
  let lower (i : Nat) : Int := (s.bank i &&& 0xFE).toNat
  let upper (i : Nat) : Int := (s.bank i ||| 0x01).toNat
  if s.patternMode = 0 then
    #v[lower 0, upper 0, lower 1, upper 1, one 2, one 3, one 4, one 5]
  else
    #v[one 2, one 3, one 4, one 5, lower 0, upper 0, lower 1, upper 1]

def locate (c : Cartridge) (s : CountingCircuit) : CountingCircuit :=
  { s with
    programStarts := s.programBanks.map (bankStart c.program.size programBank)
    patternStarts := s.patternBanks.map (bankStart c.patterns.size patternBank) }

/-- The circuit at power-on. Until a bank register is written the program
windows show the first two and the last two banks, and all pattern windows show
the first bank. -/
def powerOn (c : Cartridge) : CountingCircuit :=
  { selected := 0, banks := .filled 0, programMode := 0, patternMode := 0
    programStarts := (#v[0, 1, -2, -1] : Vector Int 4).map (bankStart c.program.size programBank)
    patternStarts := .replicate 8 0
    mirroring := c.wiring
    reload := 0, counter := 0, enabled := false, request := false }

/-- A write to the upper half of the address space. Eight registers are told
apart by the address bits 14, 13 and 0. Mirroring cannot be changed on a
cartridge with four nametables of its own. -/
def write (c : Cartridge) (address : UInt16) (value : UInt8) (s : CountingCircuit) :
    CountingCircuit :=
  match (address >>> 13) &&& 0x03, address &&& 0x01 with
  | 0, 0 =>
    locate c { s with
      programMode := (value >>> 6) &&& 0x01
      patternMode := (value >>> 7) &&& 0x01
      selected := value &&& 0x07 }
  | 0, _ => locate c { s with banks := s.banks.write s.selected.toNat value }
  | 1, 0 =>
    if c.wiring = .fourScreen then s
    else { s with mirroring := if hasBits value 0x01 then .horizontal else .vertical }
  | 1, _ => s
  | 2, 0 => { s with reload := value }
  | 2, _ => { s with counter := 0 }
  | _, 0 => { s with enabled := false, request := false }
  | _, _ => { s with enabled := true }

/-- Count one scanline: an empty counter is reloaded, and a counter that becomes
empty requests an interrupt. -/
def countLine (s : CountingCircuit) : CountingCircuit :=
  if s.counter = 0 then { s with counter := s.reload }
  else
    let counter := s.counter - 1
    { s with counter, request := s.request || (counter == 0 && s.enabled) }

/-- Whether the counter is clocked at a position of the picture: once on each
line that is rendered. -/
@[inline] def counts (line dot : UInt16) (rendering : Bool) : Bool :=
  dot == 280 && rendering && !(240 ≤ line && line < 261)

def programOffset (s : CountingCircuit) (address : UInt16) : Nat :=
  let offset := address.toNat % 0x8000
  have : offset / 0x2000 < 4 := by omega
  s.programStarts[offset / 0x2000] + offset % 0x2000

def patternOffset (s : CountingCircuit) (address : UInt16) : Nat :=
  let offset := address.toNat % 0x2000
  have : offset / 0x400 < 8 := by omega
  s.patternStarts[offset / 0x400] + offset % 0x400

def fits (c : Cartridge) (saved : CountingCircuit) : Bool :=
  saved.programStarts.all (· < c.program.size) && saved.patternStarts.all (· < c.patterns.size)

def restore (saved : CountingCircuit) : CountingCircuit :=
  { saved with
    selected := saved.selected &&& 0x07
    programMode := saved.programMode &&& 0x01
    patternMode := saved.patternMode &&& 0x01 }

/-- The two modes and the selected register, as they were written. -/
def bankSelect (s : CountingCircuit) : UInt8 :=
  (s.patternMode <<< 7) ||| (s.programMode <<< 6) ||| s.selected

def panel (s : CountingCircuit) : Panel :=
  ("bank_select", .byte s.bankSelect)
  :: (List.range 8).map (fun i => ("r" ++ toString i, .byte (s.bank i)))
  ++ [("irq.counter", .byte s.counter), ("irq.reload", .byte s.reload),
      ("irq.enabled", .flag s.enabled)]

/-- A bank register by the letter `r` and its number in any spelling. -/
def registerNamed? (s : CountingCircuit) (name : String) : Option Reading :=
  match name.toList with
  | 'r' :: digits => (Numeral.ofChars? 10 8 digits).map fun i => .byte (s.bank i)
  | _ => none

end CountingCircuit

end Famicom.Cartridge
