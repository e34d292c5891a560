import Famicom.Archive.Basic
import Famicom.Video.PictureUnit

/-!
# Archives of the picture unit

All registers of the picture unit are members of one object. Each of the four
properties of the selected sprites is an array of eight.
-/

namespace Famicom.Archive

open Json Video

def pictureNames : List String :=
  ["nametable_ram", "palette_ram", "oam", "ctrl", "mask", "oam_addr", "register",
   "sprite_zero_hit", "sprite_overflow", "v", "t", "fine_x", "w", "read_buffer", "scanline",
   "dot", "frame", "frame_odd", "nametable_byte", "attribute_byte", "pattern_lo", "pattern_hi",
   "tile_data", "sprite_count", "sprite_patterns", "sprite_positions", "sprite_behind",
   "sprite_indexes", "nmi_occurred", "nmi_output", "nmi_previous", "nmi_delay", "nmi_pending",
   "framebuffer"]

/-- The selected sprites from their four properties. -/
def slotsOf (patterns : Vector UInt32 8) (xs : Vector UInt8 8) (behind : Vector Bool 8)
    (indexes : Vector UInt8 8) : Memory Slot 8 :=
  ⟨.ofFn fun i => { pattern := patterns[i], x := xs[i], behind := behind[i], index := indexes[i] }⟩

instance : Archive SavedPicture where
  encode p :=
    let slots := p.selection.slots.cells
    .object
      [("nametable_ram", encode p.nametables), ("palette_ram", encode p.palette),
       ("oam", encode p.sprites), ("ctrl", encode p.control), ("mask", encode p.mask),
       ("oam_addr", encode p.spriteAddress), ("register", encode p.lastWrite),
       ("sprite_zero_hit", encode p.spriteZeroHit), ("sprite_overflow", encode p.spriteOverflow),
       ("v", encode p.scroll.v), ("t", encode p.scroll.t), ("fine_x", encode p.scroll.fineX),
       ("w", encode p.scroll.second), ("read_buffer", encode p.readBuffer),
       ("scanline", encode p.beam.line), ("dot", encode p.beam.dot),
       ("frame", encode p.beam.frame), ("frame_odd", encode p.beam.odd),
       ("nametable_byte", encode p.tile.name), ("attribute_byte", encode p.tile.palette),
       ("pattern_lo", encode p.tile.low), ("pattern_hi", encode p.tile.high),
       ("tile_data", encode p.tile.pixels), ("sprite_count", encode p.selection.count),
       ("sprite_patterns", encode (slots.map (·.pattern))),
       ("sprite_positions", encode (slots.map (·.x))),
       ("sprite_behind", encode (slots.map (·.behind))),
       ("sprite_indexes", encode (slots.map (·.index))),
       ("nmi_occurred", encode p.nmi.occurred), ("nmi_output", encode p.nmi.output),
       ("nmi_previous", encode p.nmi.previous), ("nmi_delay", encode p.nmi.delay),
       ("nmi_pending", encode p.nmi.pending), ("framebuffer", encode p.screen)]
  decode? d := do
    let f ← fields? pictureNames d
    let scroll : Scroll :=
      { v := ← field? f "v", t := ← field? f "t", fineX := ← field? f "fine_x"
        second := ← field? f "w" }
    let beam : Beam :=
      { line := ← field? f "scanline", dot := ← field? f "dot", frame := ← field? f "frame"
        odd := ← field? f "frame_odd" }
    let tile : TileFetch :=
      { name := ← field? f "nametable_byte", palette := ← field? f "attribute_byte"
        low := ← field? f "pattern_lo", high := ← field? f "pattern_hi"
        pixels := ← field? f "tile_data" }
    let slots := slotsOf (← field? f "sprite_patterns") (← field? f "sprite_positions")
      (← field? f "sprite_behind") (← field? f "sprite_indexes")
    let nmi : NmiLine :=
      { occurred := ← field? f "nmi_occurred", output := ← field? f "nmi_output"
        previous := ← field? f "nmi_previous", delay := ← field? f "nmi_delay"
        pending := ← field? f "nmi_pending" }
    return { control := ← field? f "ctrl", mask := ← field? f "mask"
             spriteAddress := ← field? f "oam_addr", lastWrite := ← field? f "register"
             spriteZeroHit := ← field? f "sprite_zero_hit"
             spriteOverflow := ← field? f "sprite_overflow"
             scroll, readBuffer := ← field? f "read_buffer", beam, tile
             selection := { count := ← field? f "sprite_count", slots }, nmi
             nametables := ← field? f "nametable_ram", palette := ← field? f "palette_ram"
             sprites := ← field? f "oam", screen := ← field? f "framebuffer" }

end Famicom.Archive
