/-!
# Memory chips

A chip decodes only as many address lines as it has cells, so an address past
the end selects a cell again from the start. Reading and writing are therefore
total: no access of the machine can miss.

* `Memory α n` is a writable chip of `n` cells.
* `Rom` is a read-only chip of any size but zero.
-/

namespace Famicom

class ChipSize (n : Nat) : Prop where
  positive : 0 < n

namespace ChipSize

/-! The sizes of the chips in the machine. -/

instance registers : ChipSize 8 := ⟨by decide⟩
instance palette : ChipSize 32 := ⟨by decide⟩
instance sprites : ChipSize 256 := ⟨by decide⟩
instance memory : ChipSize 0x800 := ⟨by decide⟩
instance nametables : ChipSize 0x1000 := ⟨by decide⟩
instance work : ChipSize 0x2000 := ⟨by decide⟩
instance screen : ChipSize 61440 := ⟨by decide⟩
instance space : ChipSize 0x10000 := ⟨by decide⟩

end ChipSize

structure Memory (α : Type) (n : Nat) where
  cells : Vector α n
deriving DecidableEq

namespace Memory

variable {α : Type} {n : Nat}

def filled (value : α) : Memory α n := ⟨Vector.replicate n value⟩

/-- A chip that holds the first `n` values of an image; where the image is too
short the rest is `blank`. -/
def ofImage (blank : α) (image : Array α) : Memory α n :=
  ⟨Vector.ofFn fun i => image.getD i.val blank⟩

def image (m : Memory α n) : Array α := m.cells.toArray

@[simp] theorem size_image (m : Memory α n) : m.image.size = n := by
  simp [image]

@[simp] theorem ofImage_image (blank : α) (m : Memory α n) : ofImage blank m.image = m := by
  rcases m with ⟨cells⟩
  simp only [ofImage, image]
  congr 1
  ext i
  simp

variable [ChipSize n]

@[inline] def read (m : Memory α n) (i : Nat) : α :=
  have : i % n < n := Nat.mod_lt _ (ChipSize.positive)
  m.cells[i % n]

@[inline] def write (m : Memory α n) (i : Nat) (value : α) : Memory α n :=
  ⟨m.cells.set (i % n) value (Nat.mod_lt _ (ChipSize.positive))⟩

def writeAll (m : Memory α n) (i : Nat) : List α → Memory α n
  | [] => m
  | value :: rest => (m.write i value).writeAll (i + 1) rest

/-- A read sees the last write to the same cell and nothing of any other. -/
theorem read_write (m : Memory α n) (i j : Nat) (value : α) :
    (m.write i value).read j = if i % n = j % n then value else m.read j := by
  simp [read, write, Vector.getElem_set]

@[simp] theorem read_filled (i : Nat) (value : α) :
    (filled value : Memory α n).read i = value := by
  simp [read, filled]

end Memory

structure Rom where
  bytes : Array UInt8
  nonempty : 0 < bytes.size

namespace Rom

def size (r : Rom) : Nat := r.bytes.size

@[inline] def read (r : Rom) (offset : Nat) : UInt8 :=
  have : offset % r.bytes.size < r.bytes.size := Nat.mod_lt _ r.nonempty
  r.bytes[offset % r.bytes.size]

end Rom

end Famicom
