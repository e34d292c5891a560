import Famicom.Video.PictureUnit

/-!
# Pictures

The screen is written as a PNG file with red, green, blue and alpha of eight bits
each. The image data is stored without compression.
-/

namespace Famicom.Recording

open Video

/-- The bytes of a pixel: its red, green and blue, and full alpha. -/
def pixelBytes (argb : UInt32) : List UInt8 :=
  [(argb >>> 16).toUInt8, (argb >>> 8).toUInt8, argb.toUInt8, 0xFF]

def rgba (screen : Memory UInt32 61440) : Array UInt8 :=
  screen.image.foldl (fun bytes argb => bytes.appendList (pixelBytes argb)) #[]

namespace Png

/-- The `n` lowest bytes of a number, the highest first. -/
def bigEndian (n v : Nat) : List UInt8 :=
  (List.range n).map fun i => (v >>> (8 * (n - 1 - i))).toUInt8

/-- Eight steps of the polynomial division behind the checksum of chunks. -/
def divide : (n : Nat) → UInt32 → UInt32
  | 0, r => r
  | n + 1, r => divide n (if r &&& 1 == 1 then (r >>> 1) ^^^ 0xEDB88320 else r >>> 1)

def remainders : Vector UInt32 256 := .ofFn fun i => divide 8 i.val.toUInt32

def checksum (bytes : Array UInt8) : UInt32 :=
  ~~~ bytes.foldl
    (fun r b =>
      let i := (r ^^^ b.toUInt32).toUInt8
      have : i.toNat < 256 := i.toNat_lt
      remainders[i.toNat] ^^^ (r >>> 8))
    0xFFFFFFFF

/-- A chunk: its length, its name, its data and the checksum of the two. -/
def chunk (name : List UInt8) (data : Array UInt8) : Array UInt8 :=
  let body := name.toArray ++ data
  (bigEndian 4 data.size).toArray ++ body ++ (bigEndian 4 (checksum body).toNat).toArray

/-- The checksum of a stored stream. -/
def streamChecksum (bytes : Array UInt8) : Nat :=
  let (a, b) := bytes.foldl
    (fun (a, b) byte =>
      let a := (a + byte.toNat) % 65521
      (a, (b + a) % 65521))
    (1, 0)
  b * 65536 + a

/-- Stored blocks of at most 65535 bytes, from a position on. -/
def blocks (bytes : Array UInt8) : (fuel start : Nat) → Array UInt8
  | 0, _ => #[]
  | fuel + 1, start =>
    let size := min 65535 (bytes.size - start)
    let last : UInt8 := if start + size = bytes.size then 1 else 0
    let sizes := [size % 256, size / 256, 255 - size % 256, 255 - size / 256]
    let block := #[last] ++ (sizes.map (·.toUInt8)).toArray ++ bytes.extract start (start + size)
    if last = 1 then block else block ++ blocks bytes fuel (start + size)

def stream (bytes : Array UInt8) : Array UInt8 :=
  #[0x78, 0x01] ++ blocks bytes (bytes.size + 1) 0
    ++ (bigEndian 4 (streamChecksum bytes)).toArray

/-- The lines of an image, each behind the number of its filter, which is none. -/
def lines (width : Nat) (pixels : Array UInt8) : (n : Nat) → Array UInt8
  | 0 => #[]
  | n + 1 => (lines width pixels n).push 0 ++ pixels.extract (n * width * 4) ((n + 1) * width * 4)

def file (screen : Memory UInt32 61440) : Array UInt8 :=
  let header := bigEndian 4 screenWidth ++ bigEndian 4 screenHeight ++ [8, 6, 0, 0, 0]
  #[0x89, 0x50, 0x4E, 0x47, 0x0D, 0x0A, 0x1A, 0x0A]
    ++ chunk [0x49, 0x48, 0x44, 0x52] header.toArray
    ++ chunk [0x49, 0x44, 0x41, 0x54] (stream (lines screenWidth (rgba screen) screenHeight))
    ++ chunk [0x49, 0x45, 0x4E, 0x44] #[]

end Png

end Famicom.Recording
