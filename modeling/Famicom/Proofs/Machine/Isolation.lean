import Famicom.Proofs.Cartridge.Retention
import Famicom.Proofs.Cpu.Shifts
import Famicom.Proofs.Machine.InRange
import Mathlib.Data.List.Basic

/-!
# Memory is isolated

The lower eighth of the address space is memory, four times over, and everything above it
belongs to somebody else: registers where a read does something, latches, the board. A
history of a bus consists of reads and writes at any address, of dots of the picture and of
cycles of sound.

* **memory** — at the end of a history memory is what it was, with the writes below $2000
  in it (`memory_afterAll`): no device writes to memory, whatever its registers are told;
* **devices** — a read below $2000 changes nothing, and a write there changes memory alone;
* **programs** — so a program finds plain cells there (`cells_memory`).

`memory_isolated` says what is read.
-/

namespace Famicom.Machine.Bus

open Audio Cartridge Cpu Video

/-! ## Events -/

/-- What happens to a bus. -/
inductive Event where
  | read (address : UInt16)
  | write (address : UInt16) (value : UInt8)
  /-- The picture unit goes on by a dot. -/
  | tickPicture
  /-- The board follows the picture by a dot. -/
  | follow (line dot : UInt16) (rendering : Bool)
  /-- The interrupt of the picture unit is taken, if it is there. -/
  | takeNmi
  /-- The sound unit runs for a cycle. -/
  | tickSound
  /-- A byte of a sample is delivered. -/
  | deliver (byte : UInt8)

/-- The bus behind an event. -/
def after (b : Bus) : Event → Bus
  | .read address => (b.read address).2
  | .write address value => b.write address value
  | .tickPicture => { b with picture := b.picture.tick b.board }
  | .follow line dot rendering => { b with board := b.board.step line dot rendering }
  | .takeNmi => { b with picture := b.picture.takeNmi.2 }
  | .tickSound => { b with sound := b.sound.tick }
  | .deliver byte => { b with sound := b.sound.deliver byte }

/-- The bus behind a history. -/
def afterAll (b : Bus) (events : List Event) : Bus := events.foldl after b

/-- A write to memory, with its address modulo the size of memory. -/
def Event.memoryWrite? : Event → Option (Nat × UInt8)
  | .write address value =>
    if address < 0x2000 then some (address.toNat % 0x800, value) else none
  | _ => none

/-- The writes to memory in a history. -/
def memoryWrites (events : List Event) : List (Nat × UInt8) :=
  events.filterMap Event.memoryWrite?

theorem memoryWrites_cons (e : Event) (events : List Event) :
    memoryWrites (e :: events) = e.memoryWrite?.toList ++ memoryWrites events := by
  simp only [memoryWrites, List.filterMap_eq_flatMap_toList, List.flatMap_cons]

theorem mem_memoryWrites {events : List Event} {w : Nat × UInt8}
    (h : w ∈ memoryWrites events) : w.1 < 0x800 := by
  obtain ⟨e, -, he⟩ := List.mem_filterMap.1 h
  cases e with
  | write address value =>
      simp only [Event.memoryWrite?, Option.ite_none_right_eq_some, Option.some.injEq] at he
      obtain ⟨-, rfl⟩ := he
      exact Nat.mod_lt _ (by decide)
  | _ => cases he

/-! ## Accesses -/

section Accesses

variable (b : Bus) {address : UInt16}

theorem read_memory (h : address < 0x2000) : b.read address = (b.memory.read address.toNat, b) :=
  if_pos h

theorem write_memory (h : address < 0x2000) (value : UInt8) :
    b.write address value = { b with memory := b.memory.write address.toNat value } :=
  if_pos h

/-- No read changes memory. -/
theorem memory_read (address : UInt16) : (b.read address).2.memory = b.memory := by
  unfold Bus.read
  split
  · rfl
  split
  · rfl
  split
  · unfold readDevice
    split <;> rfl
  · rfl

/-- What is written above memory goes elsewhere. -/
theorem memory_write (h : ¬ address < 0x2000) (value : UInt8) :
    (b.write address value).memory = b.memory := by
  unfold Bus.write
  rw [if_neg h]
  split
  · rfl
  split
  · unfold writeDevice
    split
    · rfl
    · rfl
    split <;> rfl
  · rfl

end Accesses

/-! ## Histories -/

theorem memory_after (b : Bus) (e : Event) :
    (b.after e).memory = b.memory.writeEach id e.memoryWrite?.toList := by
  cases e with
  | read address => exact b.memory_read address
  | write address value =>
      show (b.write address value).memory = _
      by_cases h : address < 0x2000
      · rw [write_memory b h, Event.memoryWrite?, if_pos h]
        show b.memory.write address.toNat value = b.memory.write (address.toNat % 0x800) value
        rw [Memory.write_mod]
      · rw [memory_write b h, Event.memoryWrite?, if_neg h]
        rfl
  | _ => rfl

/-- Memory is what it was, with the writes of the history in it. -/
theorem memory_afterAll (b : Bus) (events : List Event) :
    (b.afterAll events).memory = b.memory.writeEach id (memoryWrites events) := by
  induction events generalizing b with
  | nil => rfl
  | cons e rest ih =>
      show ((b.after e).afterAll rest).memory = _
      rw [ih, memory_after, memoryWrites_cons, Memory.writeEach_append]

/-- **Memory is isolated.** Take a bus with any cartridge and any history of it: reads and
writes at any addresses, dots of the picture, cycles of sound. A read below $2000 returns the
byte that was written last to an address below $2000 that is congruent to it modulo 2048, or
zero if there was none, and changes nothing on the bus. A write there changes memory alone:
picture unit, sound unit, board, joypads and the latch of the sprite transfer stay as they
are. -/
theorem memory_isolated (c : Cartridge) (rate : UInt32) (events : List Event)
    {address : UInt16} (h : address < 0x2000) :
    let b := (powerOn (.ofCartridge c) rate).afterAll events
    b.read address =
        ((lastWritten (memoryWrites events) (address.toNat % 0x800)).getD 0, b) ∧
      ∀ value, ∃ memory, b.write address value = { b with memory } := by
  intro b
  refine ⟨?_, fun value => ⟨_, write_memory b h value⟩⟩
  have hmemory : b.memory = (Memory.filled 0).writeEach id (memoryWrites events) :=
    memory_afterAll _ events
  -- the writes are known by their cells, so no two of them share one
  have hcells (w) (hw : w ∈ memoryWrites events)
      (hcell : id w.1 % 0x800 = id (address.toNat % 0x800) % 0x800) :
      w.1 = address.toNat % 0x800 := by
    have hlt := mem_memoryWrites hw
    simp only [id_eq] at hcell
    omega
  rw [read_memory b h, hmemory, ← Memory.read_mod, ← id_eq (address.toNat % 0x800),
    Memory.read_writeEach _ hcells, Memory.read_filled]
  rfl

/-- A byte is written at $0123 and is read at $1923, with writes and reads next to memory, at
registers and at the latch in between. -/
theorem memory_isolated_mirrored :
    let events : List Event :=
      [.write 0x0123 7, .write 0x2123 8, .tickPicture, .write 0x4014 9, .read 0x4015, .tickSound,
        .write 0x8123 10, .write 0x0124 11, .read 0x2007]
    let b := (powerOn (.ofCartridge (.minimal .serial)) defaultRate).afterAll events
    (0x1923 : UInt16) < 0x2000 ∧ b.read 0x1923 = (7, b) ∧
      ∀ value, ∃ memory, b.write 0x1923 value = { b with memory } := by
  intro events b
  have h : (0x1923 : UInt16) < 0x2000 := by decide
  have hlast : lastWritten (memoryWrites events) ((0x1923 : UInt16).toNat % 0x800) = some 7 := by
    decide
  obtain ⟨hread, hwrite⟩ := memory_isolated (.minimal .serial) defaultRate events h
  rw [hlast] at hread
  exact ⟨h, hread, hwrite⟩

/-! ## Cells for programs -/

/-- What a program keeps in memory stays there, at addresses that do not mirror each
other. -/
theorem cells_memory {xs : List UInt16} (hmemory : ∀ x ∈ xs, x < 0x2000)
    (hapart : ∀ x ∈ xs, ∀ y ∈ xs, x ≠ y → x.toNat % 0x800 ≠ y.toNat % 0x800) : Cells Bus xs := by
  have hcontents (x) (hx : x ∈ xs) (b : Bus) : contents b x = b.memory.read x.toNat :=
    congrArg Prod.fst (read_memory b (hmemory x hx))
  have hwritten (x) (hx : x ∈ xs) (v : UInt8) (b : Bus) :
      (AddressSpace.write x v b).memory = b.memory.write x.toNat v :=
    congrArg memory (write_memory b (hmemory x hx) v)
  constructor
  · intro x hx y b
    rw [hcontents x hx, hcontents x hx]
    exact congrArg (fun memory : Memory UInt8 0x800 => memory.read x.toNat) (b.memory_read y)
  · intro x hx v b
    rw [hcontents x hx, hwritten x hx, Memory.read_write, if_pos rfl]
  · intro x hx y hy hne v b
    rw [hcontents x hx, hwritten y hy, Memory.read_write, if_neg (hapart x hx y hy hne).symm,
      hcontents x hx]

end Famicom.Machine.Bus
