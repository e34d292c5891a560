import Famicom.Memory
import Famicom.Word

/-!
# Address spaces

The processor meets the rest of the world only through reads and writes of
bytes at 16-bit addresses. A read may change what it reads from (a status
register that clears itself, a joypad that shifts), so both give back the space
as it is afterwards.

* `FlatMemory` is 64 KiB of plain memory.
* `Traced σ` is any space together with the list of accesses made to it.
-/

namespace Famicom.Cpu

/-- A space of byte-wide cells and registers at 16-bit addresses. -/
class AddressSpace (σ : Type) where
  /-- The byte at an address, and the space after it was read. -/
  read : UInt16 → σ → UInt8 × σ
  write : UInt16 → UInt8 → σ → σ

namespace AddressSpace

variable {σ : Type} [AddressSpace σ]

@[specialize] def readWord (address : UInt16) (s : σ) : UInt16 × σ :=
  let (low, s) := read address s
  let (high, s) := read (address + 1) s
  (Word.ofBytes low high, s)

/-- Two bytes of one page, the low one first: after the last byte of the page
comes its first. Pointers of the indirect modes are read in this way. -/
@[specialize] def readWordInPage (address : UInt16) (s : σ) : UInt16 × σ :=
  let (low, s) := read address s
  let (high, s) := read (address &&& 0xFF00 ||| (address + 1) &&& 0x00FF) s
  (Word.ofBytes low high, s)

end AddressSpace

/-- 64 KiB of memory without side effects. -/
abbrev FlatMemory := Memory UInt8 0x10000

instance : AddressSpace FlatMemory where
  read address m := (m.read address.toNat, m)
  write address value m := m.write address.toNat value

inductive Access where
  | read (address : UInt16) (value : UInt8)
  | write (address : UInt16) (value : UInt8)
deriving DecidableEq, Repr

/-- A space that remembers every access made to it, the last one first. -/
structure Traced (σ : Type) where
  space : σ
  history : List Access

instance {σ : Type} [AddressSpace σ] : AddressSpace (Traced σ) where
  read address t :=
    let (value, space) := AddressSpace.read address t.space
    (value, { space, history := .read address value :: t.history })
  write address value t :=
    { space := AddressSpace.write address value t.space
      history := .write address value :: t.history }

end Famicom.Cpu
