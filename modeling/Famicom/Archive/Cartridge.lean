import Famicom.Archive.Basic
import Famicom.Cartridge.Board

/-!
# Archives of boards

A board is an object with one member, which has the name of the board and holds
the memory of the cartridge and the registers of the circuit.
-/

namespace Famicom.Archive

open Json Cartridge

instance : Archive Mirroring where
  encode
    | .horizontal => .text "Horizontal"
    | .vertical => .text "Vertical"
    | .singleLower => .text "SingleScreenLower"
    | .singleUpper => .text "SingleScreenUpper"
    | .fourScreen => .text "FourScreen"
  decode? :=
    choice? [("Horizontal", .horizontal), ("Vertical", .vertical),
      ("SingleScreenLower", .singleLower), ("SingleScreenUpper", .singleUpper),
      ("FourScreen", .fourScreen)]

instance : Archive SavedMemory where
  encode m :=
    .object [("sram", encode m.work),
      ("chr_ram", match m.patterns with
        | none => .null
        | some image => encode image)]
  decode? d := do
    let f ← fields? ["sram", "chr_ram"] d
    return { work := ← field? f "sram", patterns := ← optionalField? f "chr_ram" }

def serialMembers (s : SerialCircuit) : List (String × Document) :=
  [("shift_register", encode s.shift), ("control", encode s.control),
   ("chr_bank_0", encode s.pattern0), ("chr_bank_1", encode s.pattern1),
   ("prg_bank", encode s.program), ("prg_offsets", encode s.programStarts),
   ("chr_offsets", encode s.patternStarts)]

def countingMembers (s : CountingCircuit) : List (String × Document) :=
  [("register", encode s.selected), ("registers", encode s.banks.cells),
   ("prg_mode", encode s.programMode), ("chr_mode", encode s.patternMode),
   ("prg_offsets", encode s.programStarts), ("chr_offsets", encode s.patternStarts),
   ("mirroring", encode s.mirroring), ("irq_reload", encode s.reload),
   ("irq_counter", encode s.counter), ("irq_enabled", encode s.enabled),
   ("irq_pending", encode s.request)]

def linearBoard? (d : Document) : Option SavedBoard := do
  let f ← fields? ["cartridge"] d
  return { memory := ← field? f "cartridge", circuit := .linear }

def serialBoard? (d : Document) : Option SavedBoard := do
  let f ← fields? ["cartridge", "shift_register", "control", "chr_bank_0", "chr_bank_1",
    "prg_bank", "prg_offsets", "chr_offsets"] d
  let state : SerialCircuit :=
    { shift := ← field? f "shift_register", control := ← field? f "control"
      pattern0 := ← field? f "chr_bank_0", pattern1 := ← field? f "chr_bank_1"
      program := ← field? f "prg_bank", programStarts := ← field? f "prg_offsets"
      patternStarts := ← field? f "chr_offsets" }
  return { memory := ← field? f "cartridge", circuit := .serial state }

def countingBoard? (d : Document) : Option SavedBoard := do
  let f ← fields? ["cartridge", "register", "registers", "prg_mode", "chr_mode", "prg_offsets",
    "chr_offsets", "mirroring", "irq_reload", "irq_counter", "irq_enabled", "irq_pending"] d
  let state : CountingCircuit :=
    { selected := ← field? f "register", banks := ⟨← field? f "registers"⟩
      programMode := ← field? f "prg_mode", patternMode := ← field? f "chr_mode"
      programStarts := ← field? f "prg_offsets", patternStarts := ← field? f "chr_offsets"
      mirroring := ← field? f "mirroring", reload := ← field? f "irq_reload"
      counter := ← field? f "irq_counter", enabled := ← field? f "irq_enabled"
      request := ← field? f "irq_pending" }
  return { memory := ← field? f "cartridge", circuit := .counting state }

instance : Archive SavedBoard where
  encode b :=
    let memory := ("cartridge", encode b.memory)
    match b.circuit with
    | .linear => .object [("Nrom", .object [memory])]
    | .serial s => .object [("Mmc1", .object (memory :: serialMembers s))]
    | .counting s => .object [("Mmc3", .object (memory :: countingMembers s))]
  decode?
    | .object [("Nrom", d)] => linearBoard? d
    | .object [("Mmc1", d)] => serialBoard? d
    | .object [("Mmc3", d)] => countingBoard? d
    | _ => none

end Famicom.Archive
