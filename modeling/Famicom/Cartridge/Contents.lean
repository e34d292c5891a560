import Famicom.Cartridge.Error
import Famicom.Cartridge.Mirroring
import Famicom.Loading
import Famicom.Memory

/-!
# The contents of a cartridge

A cartridge carries a program, pattern memory for the picture unit, which is
read-only or writable, and 8 KiB of work memory. Program and read-only patterns
are whole numbers of units; a smaller chip shows its contents repeatedly.
-/

namespace Famicom.Cartridge

def workSize : Nat := 0x2000
def patternRamSize : Nat := 0x2000
/-- Programs come in units of 16 KiB. -/
def programUnit : Nat := 0x4000
/-- Read-only patterns come in units of 8 KiB. -/
def patternUnit : Nat := 0x2000

inductive BoardKind where
  /-- No bank switching. -/
  | linear
  /-- Banks selected through a serial latch. -/
  | serial
  /-- Banks selected through eight registers, and a scanline counter. -/
  | counting
deriving DecidableEq, Repr

namespace BoardKind

def number : BoardKind → UInt8
  | linear => 0
  | serial => 1
  | counting => 4

def ofNumber? (n : UInt8) : Option BoardKind :=
  if n = 0 then some linear
  else if n = 1 then some serial
  else if n = 4 then some counting
  else none

end BoardKind

inductive Patterns where
  | rom (chip : Rom)
  | ram (chip : Memory UInt8 0x2000)

namespace Patterns

def size : Patterns → Nat
  | rom chip => chip.size
  | ram _ => patternRamSize

@[inline] def read (p : Patterns) (offset : Nat) : UInt8 :=
  match p with
  | rom chip => chip.read offset
  | ram chip => chip.read offset

/-- The patterns after a write, which read-only patterns ignore. -/
@[inline] def write (p : Patterns) (offset : Nat) (value : UInt8) : Patterns :=
  match p with
  | rom chip => rom chip
  | ram chip => ram (chip.write offset value)

def isRam : Patterns → Bool
  | rom _ => false
  | ram _ => true

def bytes : Patterns → Array UInt8
  | rom chip => chip.bytes
  | ram chip => chip.image

end Patterns

end Famicom.Cartridge

namespace Famicom

open Cartridge

structure Cartridge where
  program : Rom
  patterns : Patterns
  work : Memory UInt8 0x2000
  kind : BoardKind
  wiring : Mirroring
  /-- Whether work memory is kept when the power is off. -/
  battery : Bool

end Famicom

namespace Famicom.Cartridge

/-! ## Filling out -/

/-- The least multiple of `unit` that is at least `n`. -/
def roundUp (n unit : Nat) : Nat := (n + unit - 1) / unit * unit

/-- Append the beginning of `data` to `filled` until there are `target`
bytes. -/
def fillTo (data : Array UInt8) (target : Nat) (filled : Array UInt8) : Array UInt8 :=
  if filled.size < target ∧ 0 < data.size then
    fillTo data target (filled ++ data.extract 0 (min data.size (target - filled.size)))
  else filled
termination_by target - filled.size
decreasing_by
  simp only [Array.size_append, Array.size_extract]
  omega

/-- The bytes repeated until they fill a whole number of units. -/
def fillOut (data : Array UInt8) (unit : Nat) : Array UInt8 :=
  fillTo data (roundUp data.size unit) data

theorem size_le_size_fillTo (data : Array UInt8) (target : Nat) (filled : Array UInt8) :
    filled.size ≤ (fillTo data target filled).size := by
  fun_induction fillTo data target filled with
  | case1 filled h ih => simp only [Array.size_append] at ih; omega
  | case2 => omega

def romOf? (data : Array UInt8) (unit : Nat) : Option Rom :=
  if h : 0 < data.size then
    some ⟨fillOut data unit, Nat.lt_of_lt_of_le h (size_le_size_fillTo _ _ _)⟩
  else none

/-- Build a cartridge from a program and patterns. Without patterns it gets
8 KiB of writable pattern memory. -/
def build (program patterns : Array UInt8) (number : UInt8) (wiring : Mirroring)
    (battery : Bool) : Except CartridgeError Cartridge :=
  match romOf? program programUnit with
  | none => throw .emptyProgram
  | some program =>
    match BoardKind.ofNumber? number with
    | none => throw (.unsupportedBoard number)
    | some kind =>
      let patterns := match romOf? patterns patternUnit with
        | some chip => Patterns.rom chip
        | none => Patterns.ram (.filled 0)
      return { program, patterns, work := .filled 0, kind, wiring, battery }

/-- Overwrite the beginning of work memory from a battery save. What does not
fit is ignored. -/
def setWork (c : Cartridge) (data : Array UInt8) : Cartridge :=
  { c with work := c.work.writeAll 0 (data.toList.take workSize) }

/-! ## Saved memory -/

structure SavedMemory where
  work : Array UInt8
  /-- Only if the patterns are writable. -/
  patterns : Option (Array UInt8)

def save (c : Cartridge) : SavedMemory :=
  { work := c.work.image
    patterns := match c.patterns with
      | .rom _ => none
      | .ram chip => some chip.image }

/-- Load writable memory that was saved from a cartridge with the same layout.
Pattern memory is overwritten before work memory. -/
def load (saved : SavedMemory) : Loading Cartridge CartridgeError Unit := do
  if saved.work.size ≠ workSize then throw .stateMismatch
  match (← get).patterns, saved.patterns with
  | .rom _, none => pure ()
  | .ram _, some image =>
    if image.size ≠ patternRamSize then throw .stateMismatch
    modify fun c => { c with patterns := .ram (.ofImage 0 image) }
  | _, _ => throw .stateMismatch
  modify fun c => { c with work := .ofImage 0 saved.work }

end Famicom.Cartridge
