/-!
# Nametable mirroring

The picture unit addresses four nametables of 1 KiB. The wiring of the
cartridge decides which physical table stands behind each of them.
-/

namespace Famicom.Cartridge

/-- How the four logical nametables are wired to physical ones. -/
inductive Mirroring where
  | horizontal
  | vertical
  | singleLower
  | singleUpper
  | fourScreen
deriving DecidableEq, Repr

namespace Mirroring

/-- The physical table behind each logical one. -/
def tables : Mirroring → Vector Nat 4
  | horizontal => #v[0, 0, 1, 1]
  | vertical => #v[0, 1, 0, 1]
  | singleLower => #v[0, 0, 0, 0]
  | singleUpper => #v[1, 1, 1, 1]
  | fourScreen => #v[0, 1, 2, 3]

/-- The cell of nametable memory behind an address from $2000 to $3EFF. Beyond
$3000 the four tables appear again. -/
def cell (m : Mirroring) (address : UInt16) : Nat :=
  let offset := address.toNat % 0x1000
  have : offset / 0x400 < 4 := by omega
  m.tables[offset / 0x400] * 0x400 + offset % 0x400

/-- Every nametable address has a cell in 4 KiB of memory. -/
theorem cell_lt (m : Mirroring) (address : UInt16) : m.cell address < 0x1000 := by
  have table : ∀ i : Fin 4, m.tables[i] < 4 := by cases m <;> decide
  have h : address.toNat % 0x1000 / 0x400 < 4 := by omega
  have : m.tables[address.toNat % 0x1000 / 0x400] < 4 := table ⟨_, h⟩
  show m.tables[address.toNat % 0x1000 / 0x400] * 0x400 + address.toNat % 0x1000 % 0x400 < 0x1000
  omega

def label : Mirroring → String
  | horizontal => "horizontal"
  | vertical => "vertical"
  | singleLower => "single-lower"
  | singleUpper => "single-upper"
  | fourScreen => "four-screen"

end Mirroring

end Famicom.Cartridge
