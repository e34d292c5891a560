import Famicom.Archive.Audio
import Famicom.Archive.Cartridge
import Famicom.Archive.Cpu
import Famicom.Archive.Video
import Famicom.Json.Parser
import Famicom.Json.Printer
import Famicom.Machine.Machine

/-!
# Archives of whole machines

A saved machine is written to a file as the text of its archive.
-/

namespace Famicom.Archive

open Json Machine

instance : Archive Joypad where
  encode j :=
    .object [("buttons", encode j.held), ("index", encode j.index), ("strobe", encode j.strobe)]
  decode? d := do
    let f ← fields? ["buttons", "index", "strobe"] d
    return { held := ← field? f "buttons", index := ← field? f "index"
             strobe := ← field? f "strobe" }

instance : Archive SavedBus where
  encode b :=
    .object [("ram", encode b.memory), ("controller1", encode b.joypad1),
      ("controller2", encode b.joypad2)]
  decode? d := do
    let f ← fields? ["ram", "controller1", "controller2"] d
    return { memory := ← field? f "ram", joypad1 := ← field? f "controller1"
             joypad2 := ← field? f "controller2" }

instance : Archive SavedMachine where
  encode m :=
    .object [("cpu", encode m.cpu), ("ppu", encode m.picture), ("apu", encode m.sound),
      ("mapper", encode m.board), ("bus", encode m.bus)]
  decode? d := do
    let f ← fields? ["cpu", "ppu", "apu", "mapper", "bus"] d
    return { cpu := ← field? f "cpu", picture := ← field? f "ppu", sound := ← field? f "apu"
             board := ← field? f "mapper", bus := ← field? f "bus" }

def write (m : SavedMachine) : String := (encode m).render

def read? (bytes : ByteArray) : Option SavedMachine := Document.parse? bytes >>= decode?

end Famicom.Archive
