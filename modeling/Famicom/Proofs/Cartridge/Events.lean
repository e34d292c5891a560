import Famicom.Proofs.Cartridge.InRange

/-!
# What happens to a board

Between two reads the processor and the picture unit write to a board, it follows the
dots of the picture, and it may be filled from outside, with a battery save or with a
saved board. A history of a board is a list of such events:

* **make** — nothing that is soldered changes in it (`make_afterAll`);
* **circuit** — apart from loading, the circuit hears of writes to the upper half and
  of dots, and of nothing else (`circuit_after`).
-/

namespace Famicom.Cartridge

/-- The circuits of both switching boards are told by two bits of an address which of
their registers is meant. -/
theorem selection_cases (address : UInt16) :
    ((address >>> 13) &&& 0x03 = 0 ∧ address.toNat / 2 ^ 13 % 4 = 0) ∨
    ((address >>> 13) &&& 0x03 = 1 ∧ address.toNat / 2 ^ 13 % 4 = 1) ∨
    ((address >>> 13) &&& 0x03 = 2 ∧ address.toNat / 2 ^ 13 % 4 = 2) ∨
    ((address >>> 13) &&& 0x03 = 3 ∧ address.toNat / 2 ^ 13 % 4 = 3) := by
  have hnumber : ((address >>> 13) &&& 0x03).toNat = address.toNat / 2 ^ 13 % 4 := by
    rw [Word.toNat_and_low _ 2 rfl, UInt16.toNat_shiftRight, Nat.shiftRight_eq_div_pow]
    rfl
  simp only [← UInt16.toNat_inj, hnumber, and_self, UInt16.reduceToNat]
  omega

/-- The counting circuit looks at the lowest bit of an address as well. -/
theorem parity_cases (address : UInt16) : address &&& 0x01 = 0 ∨ address &&& 0x01 = 1 := by
  have hnumber : (address &&& 0x01).toNat = address.toNat % 2 := Word.toNat_and_low _ 1 rfl
  simp only [← UInt16.toNat_inj, hnumber, UInt16.reduceToNat]
  omega

namespace Board

/-- What happens to a board. -/
inductive Event where
  /-- The processor writes a byte. -/
  | write (address : UInt16) (value : UInt8)
  /-- The picture unit writes a byte. -/
  | writePattern (address : UInt16) (value : UInt8)
  /-- The picture unit goes on by a dot. -/
  | step (line dot : UInt16) (rendering : Bool)
  /-- Work memory is filled from a battery save. -/
  | setWork (data : Array UInt8)
  /-- A saved board is loaded, or refused. -/
  | load (saved : SavedBoard)

namespace Event

/-- The registers of the circuit are replaced. -/
def Loads : Event → Prop
  | .load _ => True
  | _ => False

/-- Memory is replaced from outside. -/
def Imports : Event → Prop
  | .setWork _ => True
  | .load _ => True
  | _ => False

/-- The write that reaches the circuit. -/
def register? : Event → Option (UInt16 × UInt8)
  | .write address value => if 0x8000 ≤ address then some (address, value) else none
  | _ => none

/-- A write to the bank registers of the counting board. -/
def selectsBanks : Event → Bool
  | .write address _ => 0x8000 ≤ address && address < 0xA000
  | _ => false

theorem selectsBanks_register {e : Event} {address : UInt16} {value : UInt8}
    (h : e.register? = some (address, value)) : e.selectsBanks = decide (address < 0xA000) := by
  cases e with
  | write address' value' =>
      simp only [register?, Option.ite_none_right_eq_some, Option.some.injEq, Prod.mk.injEq] at h
      obtain ⟨hupper, rfl, rfl⟩ := h
      simp only [selectsBanks, hupper, decide_true, Bool.true_and]
  | _ => cases h

theorem selectsBanks_idle {e : Event} (h : e.register? = none) : e.selectsBanks = false := by
  cases e with
  | write address value =>
      have hlower : ¬ 0x8000 ≤ address := by simpa [register?] using h
      simp only [selectsBanks, hlower, decide_false, Bool.false_and]
  | _ => rfl

theorem Loads.imports {e : Event} (h : e.Loads) : e.Imports := by
  cases e with
  | load _ => exact trivial
  | _ => exact absurd h id

end Event

/-- The board behind an event. A load that is refused leaves what it has not
overwritten. -/
def after (b : Board) : Event → Board
  | .write address value => b.write address value
  | .writePattern address value => b.writePattern address value
  | .step line dot rendering => b.step line dot rendering
  | .setWork data => b.setWork data
  | .load saved => (load saved b).2

/-- The board behind a history. -/
def afterAll (b : Board) (events : List Event) : Board := events.foldl after b

@[simp] theorem afterAll_nil (b : Board) : b.afterAll [] = b := rfl

@[simp] theorem afterAll_cons (b : Board) (e : Event) (events : List Event) :
    b.afterAll (e :: events) = (b.after e).afterAll events := rfl

/-! ## What is soldered -/

theorem make_loaded {b : Board} {saved : SavedBoard} (h : b.Accepts saved) :
    (b.loaded saved).make = b.make := by
  obtain ⟨hcircuit, -, hpatterns⟩ := h
  rcases b with ⟨⟨program, patterns, work, kind, wiring, battery⟩, circuit⟩
  rcases saved with ⟨⟨image, saved⟩, circuit'⟩
  -- the circuits are of one kind
  have hkind : circuit'.loaded.kind = circuit.kind := by
    cases circuit <;> cases circuit'
    case linear.linear => rfl
    case serial.serial => rfl
    case counting.counting => rfl
    all_goals exact absurd hcircuit id
  -- and read-only patterns are not in the state
  cases patterns <;> cases saved
  case rom.none => simp only [make, loaded, Cartridge.loaded, hkind]
  case ram.some => simp only [make, loaded, Cartridge.loaded, hkind]
  all_goals exact absurd hpatterns id

theorem make_after (b : Board) (e : Event) : (b.after e).make = b.make := by
  cases e with
  | write address value => exact make_write b address value
  | writePattern address value => exact make_writePattern b address value
  | step line dot rendering => exact make_step b line dot rendering
  | setWork data => rfl
  | load saved =>
      show (load saved b).2.make = b.make
      obtain ⟨haccepts, hload⟩ | ⟨_, hload⟩ := load_cases saved b
      · rw [hload]
        exact make_loaded haccepts
      · rw [hload]

/-- A board stays what it is, whatever happens to it. -/
theorem make_afterAll (b : Board) (events : List Event) : (b.afterAll events).make = b.make := by
  induction events generalizing b with
  | nil => rfl
  | cons e rest ih => exact (ih _).trans (make_after b e)

theorem program_eq_of_make {a b : Board} (h : a.make = b.make) :
    a.cartridge.program = b.cartridge.program :=
  congrArg Make.program h

/-- Read-only patterns are soldered. -/
theorem patterns_eq_of_make {a b : Board} (h : a.make = b.make) {chip : Rom}
    (hb : b.cartridge.patterns = .rom chip) : a.cartridge.patterns = .rom chip := by
  have hpatterns := congrArg Make.patterns h
  simp only [make, hb] at hpatterns
  cases ha : a.cartridge.patterns <;> simp_all

/-! ## What the circuit hears -/

/-- A write to the upper half is for the circuit. Everything else but loading leaves
the circuit alone, or counts a line. -/
theorem circuit_after (b : Board) {e : Event} (h : ¬ e.Loads) :
    (∃ address value, e.register? = some (address, value) ∧ 0x8000 ≤ address ∧
      (b.after e).circuit = b.circuit.write b.cartridge address value) ∨
    (e.register? = none ∧ (b.after e).circuit = b.circuit) ∨
    (e.register? = none ∧ ∃ s, b.circuit = .counting s ∧
      (b.after e).circuit = .counting s.countLine) := by
  cases e with
  | write address value =>
      by_cases hupper : 0x8000 ≤ address
      · refine .inl ⟨address, value, if_pos hupper, hupper, ?_⟩
        show (b.write address value).circuit = _
        unfold Board.write
        simp only [ge_iff_le, if_pos hupper]
      · refine .inr (.inl ⟨if_neg hupper, ?_⟩)
        show (b.write address value).circuit = _
        unfold Board.write
        simp only [ge_iff_le, if_neg hupper]
        split <;> rfl
  | writePattern address value => exact .inr (.inl ⟨rfl, rfl⟩)
  | step line dot rendering =>
      show _ ∨ (_ ∧ (b.step line dot rendering).circuit = _) ∨
        (_ ∧ ∃ s, _ ∧ (b.step line dot rendering).circuit = _)
      unfold Board.step
      split
      · cases hcircuit : b.circuit with
        | linear => exact .inr (.inl ⟨rfl, hcircuit⟩)
        | serial s => exact .inr (.inl ⟨rfl, hcircuit⟩)
        | counting s => exact .inr (.inr ⟨rfl, s, rfl, rfl⟩)
      · exact .inr (.inl ⟨rfl, rfl⟩)
  | setWork data => exact .inr (.inl ⟨rfl, rfl⟩)
  | load saved => exact absurd trivial h

end Board

end Famicom.Cartridge
