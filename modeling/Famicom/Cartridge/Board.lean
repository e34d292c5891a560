import Famicom.Cartridge.CountingCircuit
import Famicom.Cartridge.Image
import Famicom.Cartridge.SerialCircuit

/-!
# Boards

A board is a cartridge with the circuit that decodes addresses for it. The
processor sees work memory at $6000 and the program in the upper half of its
address space; the picture unit sees the patterns below $2000. Writes to the
upper half go to the circuit.
-/

namespace Famicom.Cartridge

inductive Circuit where
  | linear
  | serial (state : SerialCircuit)
  | counting (state : CountingCircuit)
deriving DecidableEq

structure Board where
  cartridge : Cartridge
  circuit : Circuit

namespace Circuit

def kind : Circuit → BoardKind
  | linear => .linear
  | serial _ => .serial
  | counting _ => .counting

def powerOn (c : Cartridge) : Circuit :=
  match c.kind with
  | .linear => linear
  | .serial => serial (.powerOn c)
  | .counting => counting (.powerOn c)

/-- A write to the upper half of the processor's address space. -/
def write (c : Cartridge) (address : UInt16) (value : UInt8) : Circuit → Circuit
  | linear => linear
  | serial s => serial (s.write c address value)
  | counting s => counting (s.write c address value)

def programOffset (address : UInt16) : Circuit → Nat
  | linear => address.toNat % 0x8000
  | serial s => s.programOffset address
  | counting s => s.programOffset address

def patternOffset (address : UInt16) : Circuit → Nat
  | linear => address.toNat % 0x2000
  | serial s => s.patternOffset address
  | counting s => s.patternOffset address

end Circuit

structure SavedBoard where
  memory : SavedMemory
  circuit : Circuit

namespace Board

def ofCartridge (c : Cartridge) : Board := { cartridge := c, circuit := .powerOn c }

/-- The number of the board in image headers. -/
def number (b : Board) : UInt8 := b.circuit.kind.number

@[inline] def mirroring (b : Board) : Mirroring :=
  match b.circuit with
  | .linear => b.cartridge.wiring
  | .serial s => s.mirroring
  | .counting s => s.mirroring

/-- The byte that the processor reads. Below work memory there is nothing. -/
def read (b : Board) (address : UInt16) : UInt8 :=
  if address ≥ 0x8000 then b.cartridge.program.read (b.circuit.programOffset address)
  else if address ≥ 0x6000 then b.cartridge.work.read address.toNat
  else 0

def write (b : Board) (address : UInt16) (value : UInt8) : Board :=
  let ⟨c, circuit⟩ := b
  if address ≥ 0x8000 then { cartridge := c, circuit := circuit.write c address value }
  else if address ≥ 0x6000 then
    { cartridge := { c with work := c.work.write address.toNat value }, circuit }
  else { cartridge := c, circuit }

@[inline] def readPattern (b : Board) (address : UInt16) : UInt8 :=
  b.cartridge.patterns.read (b.circuit.patternOffset address)

def writePattern (b : Board) (address : UInt16) (value : UInt8) : Board :=
  let ⟨c, circuit⟩ := b
  let offset := circuit.patternOffset address
  { cartridge := { c with patterns := c.patterns.write offset value }, circuit }

/-- Follow the picture unit by one dot. -/
@[inline] def step (line dot : UInt16) (rendering : Bool) (b : Board) : Board :=
  if CountingCircuit.counts line dot rendering then
    match b.circuit with
    | .counting s => { b with circuit := .counting s.countLine }
    | _ => b
  else b

@[inline] def request (b : Board) : Bool :=
  match b.circuit with
  | .counting s => s.request
  | _ => false

def setWork (b : Board) (data : Array UInt8) : Board :=
  { b with cartridge := b.cartridge.setWork data }

def save (b : Board) : SavedBoard := { memory := b.cartridge.save, circuit := b.circuit }

/-- Load a board that was saved with the same circuit and the same writable
memory, if its windows begin inside the memory that is there. The memory is
overwritten before the registers. -/
def load (saved : SavedBoard) : Loading Board CartridgeError Unit := do
  let memory : Loading Board CartridgeError Unit :=
    (Cartridge.load saved.memory).within Board.cartridge fun c b => { b with cartridge := c }
  let b ← get
  match b.circuit, saved.circuit with
  | .linear, .linear => memory
  | .serial _, .serial s =>
    if !s.fits b.cartridge then throw .stateMismatch
    memory
    modify fun b => { b with circuit := .serial s.restore }
  | .counting _, .counting s =>
    if !s.fits b.cartridge then throw .stateMismatch
    memory
    modify fun b => { b with circuit := .counting s.restore }
  | _, _ => throw .stateMismatch

def restore (b : Board) (saved : SavedBoard) : Except CartridgeError Board :=
  (load saved).complete b

def panel (b : Board) : Panel :=
  [("id", .byte b.number), ("mirroring", .label b.mirroring.label), ("irq", .flag b.request)]
  ++ match b.circuit with
    | .linear => []
    | .serial s => s.panel
    | .counting s => s.panel

/-- A register by its name on the panel, or by its number in any spelling. -/
def read? (b : Board) (name : String) : Option Reading :=
  b.panel.read? name <|>
    match b.circuit with
    | .counting s => s.registerNamed? name
    | _ => none

end Board

end Famicom.Cartridge
