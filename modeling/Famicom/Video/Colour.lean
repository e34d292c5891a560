import Famicom.Word

/-!
# Colours

A colour of the picture is an index of six bits. What it looks like depends on
the mask register as well: grey scale keeps only the column of greys, and each
emphasis bit dims the two other components of the light.
-/

namespace Famicom.Video

/-- The light of each colour: alpha, red, green and blue, a byte each. -/
def lights : Vector UInt32 64 := #v[
  0xFF666666, 0xFF002A88, 0xFF1412A7, 0xFF3B00A4,
  0xFF5C007E, 0xFF6E0040, 0xFF6C0600, 0xFF561D00,
  0xFF333500, 0xFF0B4800, 0xFF005200, 0xFF004F08,
  0xFF00404D, 0xFF000000, 0xFF000000, 0xFF000000,
  0xFFADADAD, 0xFF155FD9, 0xFF4240FF, 0xFF7527FE,
  0xFFA01ACC, 0xFFB71E7B, 0xFFB53120, 0xFF994E00,
  0xFF6B6D00, 0xFF388700, 0xFF0C9300, 0xFF008F32,
  0xFF007C8D, 0xFF000000, 0xFF000000, 0xFF000000,
  0xFFFFFEFF, 0xFF64B0FF, 0xFF9290FF, 0xFFC676FF,
  0xFFF36AFF, 0xFFFE6ECC, 0xFFFE8170, 0xFFEA9E22,
  0xFFBCBE00, 0xFF88D800, 0xFF5CE430, 0xFF45E082,
  0xFF48CDDE, 0xFF4F4F4F, 0xFF000000, 0xFF000000,
  0xFFFFFEFF, 0xFFC0DFFF, 0xFFD3D2FF, 0xFFE8C8FF,
  0xFFFBC2FF, 0xFFFEC4EA, 0xFFFECCC5, 0xFFF7D8A5,
  0xFFE4E594, 0xFFCFEF96, 0xFFBDF4AB, 0xFFB3F3CC,
  0xFFB5EBF2, 0xFFB8B8B8, 0xFF000000, 0xFF000000
]

def maskGrey : UInt8 := 0x01
/-- Show the background in the eight leftmost columns. -/
def maskBackgroundLeft : UInt8 := 0x02
/-- Show sprites in the eight leftmost columns. -/
def maskSpritesLeft : UInt8 := 0x04
def maskBackground : UInt8 := 0x08
def maskSprites : UInt8 := 0x10
def maskRed : UInt8 := 0x20
def maskGreen : UInt8 := 0x40
def maskBlue : UInt8 := 0x80

def solidBlack : UInt32 := 0xFF000000

/-- The component of a light at that shift. -/
def component (argb shift : UInt32) : UInt32 := (argb >>> shift) &&& (0xFF : UInt32)

/-- A component that was dimmed to 13/16. -/
def dim (component : UInt32) : UInt32 := component * 13 / 16

/-- The light of a colour without emphasis. Bits beyond the sixth do not count. -/
@[inline] def light (colour : UInt8) : UInt32 :=
  have : colour.toNat % 64 < 64 := Nat.mod_lt _ (by decide)
  lights[colour.toNat % 64]

@[inline] def shade (mask colour : UInt8) : UInt32 :=
  let argb := light (if hasBits mask maskGrey then colour &&& 0x30 else colour)
  if !hasBits mask (maskRed ||| maskGreen ||| maskBlue) then argb
  else
    let dimUnless (keep : Bool) (c : UInt32) := if keep then c else dim c
    let red := hasBits mask maskRed
    let green := hasBits mask maskGreen
    let blue := hasBits mask maskBlue
    let r := dimUnless (!blue) (dimUnless (!green) (component argb 16))
    let g := dimUnless (!blue) (dimUnless (!red) (component argb 8))
    let b := dimUnless (!green) (dimUnless (!red) (component argb 0))
    solidBlack ||| (r <<< 16) ||| (g <<< 8) ||| b

end Famicom.Video
