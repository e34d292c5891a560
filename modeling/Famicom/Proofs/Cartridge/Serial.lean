import Famicom.Proofs.Cartridge.Events
import Mathlib.Algebra.GroupWithZero.Nat
import Mathlib.Data.List.Induction

/-!
# The serial input of a board

The serial board counts the bits that it has received by a marker bit in front of them.
Here it is compared with a receiver that keeps them in a list, and looks at the length
of the list:

* **marker** — below five bits, the number in the shift register is twice that of the
  bits, and one for the marker, moved up by the places that are free (`Represents`);
* **step** — whatever is written, the circuit goes on to represent the receiver behind
  the same write (`Represents.receive`);
* **history** — so it does behind every history without loading
  (`Represents.afterAll`).

`registers_eq_receiver` says this of the registers.
-/

namespace Famicom.Cartridge

/-- The registers behind the serial input, as numbers. -/
structure SerialRegisters where
  control : Nat
  pattern0 : Nat
  pattern1 : Nat
  program : Nat
deriving DecidableEq

namespace SerialRegisters

/-- The register that two bits of the address select takes a number of five bits. That
of the program has four. -/
def store (address : UInt16) (number : Nat) (r : SerialRegisters) : SerialRegisters :=
  match address.toNat / 2 ^ 13 % 4 with
  | 0 => { r with control := number }
  | 1 => { r with pattern0 := number }
  | 2 => { r with pattern1 := number }
  | _ => { r with program := number % 16 }

/-- No register holds more bits than it has. -/
structure InRange (r : SerialRegisters) : Prop where
  control : r.control < 32
  pattern0 : r.pattern0 < 32
  pattern1 : r.pattern1 < 32
  program : r.program < 16

theorem InRange.store {r : SerialRegisters} (h : r.InRange) (address : UInt16) {number : Nat}
    (hnumber : number < 32) : (r.store address number).InRange := by
  unfold SerialRegisters.store
  split
  · exact { h with control := hnumber }
  · exact { h with pattern0 := hnumber }
  · exact { h with pattern1 := hnumber }
  · exact { h with program := Nat.mod_lt _ (by decide) }

end SerialRegisters

/-! ## A receiver with a list -/

/-- A serial input that keeps the bits it has received, the first one first. -/
structure Receiver where
  bits : List Bool
  registers : SerialRegisters

namespace Receiver

/-- The number that bits make, the first one lowest. -/
def value (bits : List Bool) : Nat := (bits.zipIdx.map fun (bit, i) => bit.toNat * 2 ^ i).sum

/-- The receiver at power-on. -/
def powerOn : Receiver :=
  { bits := [], registers := { control := 0x0C, pattern0 := 0, pattern1 := 0, program := 0 } }

/-- A write of the processor. In the upper half, bit 7 starts over; otherwise bit 0 is
received, and as soon as there are five bits they go to a register. -/
def receive (address : UInt16) (byte : UInt8) (m : Receiver) : Receiver :=
  if address < 0x8000 then m
  else if byte.toNat.testBit 7 then
    { bits := [], registers := { m.registers with control := m.registers.control ||| 0x0C } }
  else
    let bits := m.bits ++ [byte.toNat.testBit 0]
    if bits.length = 5 then
      { bits := [], registers := m.registers.store address (value bits) }
    else { m with bits }

/-- One write after another. -/
def receiveAll (m : Receiver) (writes : List (UInt16 × UInt8)) : Receiver :=
  writes.foldl (fun m w => m.receive w.1 w.2) m

@[simp] theorem value_nil : value [] = 0 := rfl

/-- A further bit counts as much as there are bits before it. -/
theorem value_append (bits : List Bool) (bit : Bool) :
    value (bits ++ [bit]) = value bits + bit.toNat * 2 ^ bits.length := by
  simp [value, List.zipIdx_append]

theorem value_lt (bits : List Bool) : value bits < 2 ^ bits.length := by
  induction bits using List.reverseRecOn with
  | nil => exact Nat.one_pos
  | append_singleton bits bit ih =>
      have hbit := Nat.mul_le_mul_right (2 ^ bits.length) bit.toNat_le
      rw [value_append, List.length_append, List.length_singleton, Nat.pow_succ]
      omega

end Receiver

/-! ## The marker -/

namespace SerialCircuit

/-- The registers as numbers. -/
def registers (s : SerialCircuit) : SerialRegisters :=
  { control := s.control.toNat
    pattern0 := s.pattern0.toNat
    pattern1 := s.pattern1.toNat
    program := s.program.toNat }

/-- The shift register holds the bits of a receiver in its uppermost places and the
marker below them. -/
structure Represents (s : SerialCircuit) (m : Receiver) : Prop where
  count : m.bits.length < 5
  shift : s.shift.toNat = (2 * Receiver.value m.bits + 1) * 2 ^ (4 - m.bits.length)
  registers : s.registers = m.registers
  inRange : m.registers.InRange

variable {s : SerialCircuit} {m : Receiver} {c : Cartridge}

theorem represents_powerOn (c : Cartridge) : (powerOn c).Represents .powerOn where
  count := by decide
  shift := rfl
  registers := rfl
  inRange := ⟨by decide, by decide, by decide, by decide⟩

theorem Represents.widths (h : s.Represents m) : s.registers.InRange := h.registers ▸ h.inRange

theorem Represents.shift_lt (h : s.Represents m) : s.shift.toNat < 32 := by
  have hvalue := Receiver.value_lt m.bits
  have hcount := h.count
  rw [h.shift]
  calc (2 * Receiver.value m.bits + 1) * 2 ^ (4 - m.bits.length)
      < 2 ^ (m.bits.length + 1) * 2 ^ (4 - m.bits.length) :=
        Nat.mul_lt_mul_of_pos_right (by rw [Nat.pow_succ]; omega) (Nat.two_pow_pos _)
    _ = 2 ^ 5 := by
        rw [← Nat.pow_add]
        congr 1
        omega

/-- The shift register gives its lowest bit away and takes a bit above all others. -/
theorem toNat_shift {shift : UInt8} (hshift : shift.toNat < 32) (byte : UInt8) :
    ((shift >>> 1) ||| ((byte &&& 0x01) <<< 4)).toNat =
      shift.toNat / 2 + (byte.toNat.testBit 0).toNat * 16 := by
  have hbit : ((byte &&& 0x01) <<< 4).toNat = (byte.toNat.testBit 0).toNat <<< 4 := by
    have hlow := @Byte.toNat_and_low 0x01 byte 1 rfl
    rw [UInt8.toNat_shiftLeft, hlow, Nat.testBit_zero]
    rcases Nat.mod_two_eq_zero_or_one byte.toNat with h | h <;> simp [h]
  have hhalf : (shift >>> 1).toNat = shift.toNat / 2 := by
    rw [UInt8.toNat_shiftRight, Nat.shiftRight_eq_div_pow]
    rfl
  rw [UInt8.toNat_or, hbit, hhalf, Nat.or_comm,
    ← Nat.shiftLeft_add_eq_or_of_lt (by omega), Nat.shiftLeft_eq]
  omega

/-- The marker has come out at the low end if and only if four bits are there. -/
theorem Represents.hasBits_shift (h : s.Represents m) :
    hasBits s.shift 0x01 = decide (m.bits.length = 4) := by
  have hcount := h.count
  rw [Byte.hasBits_eq_testBit _ 0 rfl, h.shift, Nat.testBit_zero, decide_eq_decide]
  by_cases hfour : m.bits.length = 4
  · simp only [hfour, Nat.sub_self, Nat.pow_zero, iff_true]
    omega
  · have hsplit : 4 - m.bits.length = 3 - m.bits.length + 1 := by omega
    simp only [hfour, iff_false, hsplit, Nat.pow_succ]
    rw [← Nat.mul_assoc]
    omega

/-- Behind a further bit there is one more of them above the marker. -/
theorem Represents.shift_next (h : s.Represents m) (byte : UInt8) (hroom : m.bits.length < 4) :
    ((s.shift >>> 1) ||| ((byte &&& 0x01) <<< 4)).toNat =
      (2 * Receiver.value (m.bits ++ [byte.toNat.testBit 0]) + 1) * 2 ^ (3 - m.bits.length) := by
  rw [toNat_shift h.shift_lt, h.shift, Receiver.value_append]
  -- the powers are numbers as soon as it is known how many bits are there
  obtain hn | hn | hn | hn : m.bits.length = 0 ∨ m.bits.length = 1 ∨ m.bits.length = 2 ∨
      m.bits.length = 3 := by omega
  all_goals
    rw [hn]
    omega

/-- The fifth bit pushes the marker out. -/
theorem Represents.shift_last (h : s.Represents m) (byte : UInt8) (hfour : m.bits.length = 4) :
    ((s.shift >>> 1) ||| ((byte &&& 0x01) <<< 4)).toNat =
      Receiver.value (m.bits ++ [byte.toNat.testBit 0]) := by
  rw [toNat_shift h.shift_lt, h.shift, Receiver.value_append, hfour]
  omega

/-! ## Writes -/

theorem registers_setRegister (address : UInt16) {bits : UInt8} (hbits : bits.toNat < 32)
    (s : SerialCircuit) :
    (setRegister address bits s).registers = s.registers.store address bits.toNat := by
  have hcontrol : bits &&& 0x1F = bits :=
    Byte.and_low_eq 5 rfl rfl (UInt8.lt_iff_toNat_lt.2 hbits : bits < 32)
  have hprogram : (bits &&& 0x0F).toNat = bits.toNat % 16 := Byte.toNat_and_low bits 4 rfl
  unfold setRegister SerialRegisters.store
  obtain ⟨hselection, hnumber⟩ | ⟨hselection, hnumber⟩ | ⟨hselection, hnumber⟩ |
    ⟨hselection, hnumber⟩ := selection_cases address
  · simp only [hselection, hnumber, registers, hcontrol]
  · simp only [hselection, hnumber, registers]
  · simp only [hselection, hnumber, registers]
  · rw [hselection, hnumber]
    exact congrArg (fun program => { s.registers with program }) hprogram

/-- Bits 2 and 3 are set, and nothing beyond the five bits of the register. -/
theorem toNat_resetControl {control : UInt8} (hcontrol : control.toNat < 32) :
    ((control ||| 0x0C) &&& 0x1F).toNat = control.toNat ||| 0x0C := by
  have hor : control.toNat ||| 0x0C < 2 ^ 5 := Nat.or_lt_two_pow hcontrol (by decide)
  rw [Byte.toNat_and_low _ 5 rfl, UInt8.toNat_or]
  exact Nat.mod_eq_of_lt hor

@[simp] theorem registers_locate (c : Cartridge) (s : SerialCircuit) :
    (s.locate c).registers = s.registers := rfl

@[simp] theorem shift_locate (c : Cartridge) (s : SerialCircuit) :
    (s.locate c).shift = s.shift := rfl

/-- **One write.** Whatever is written to the upper half, the circuit and the receiver
stay together. -/
theorem Represents.receive (h : s.Represents m) (c : Cartridge) {address : UInt16}
    (haddress : 0x8000 ≤ address) (byte : UInt8) :
    (s.write c address byte).Represents (m.receive address byte) := by
  have hregisters := h.registers
  have hrange := h.inRange
  have hupper : ¬ address < 0x8000 := UInt16.not_lt.2 haddress
  unfold SerialCircuit.write Receiver.receive
  rw [if_neg hupper, Byte.hasBits_eq_testBit byte 7 rfl, h.hasBits_shift]
  by_cases hreset : byte.toNat.testBit 7 = true
  case pos =>
    rw [if_pos hreset, if_pos hreset]
    have hcontrol : s.control.toNat = m.registers.control :=
      congrArg SerialRegisters.control hregisters
    have hwidth := hrange.control
    have hset := toNat_resetControl (hcontrol ▸ hwidth)
    refine ⟨Nat.succ_pos 4, rfl, ?_, { hrange with control := ?_ }⟩
    · rw [registers_locate, ← hregisters]
      simp only [SerialCircuit.registers, hset]
    · exact Nat.or_lt_two_pow hwidth (by decide : 0x0C < 2 ^ 5)
  rw [if_neg hreset, if_neg hreset]
  simp only [List.length_append, List.length_singleton]
  by_cases hfour : m.bits.length = 4
  case pos =>
    have hlast := h.shift_last byte hfour
    have hvalue := Receiver.value_lt (m.bits ++ [byte.toNat.testBit 0])
    rw [List.length_append, List.length_singleton, hfour] at hvalue
    rw [if_pos (decide_eq_true hfour), if_pos (by omega)]
    refine ⟨Nat.succ_pos 4, rfl, ?_, hrange.store address hvalue⟩
    rw [registers_locate, ← hregisters, ← hlast,
      ← registers_setRegister address (hlast ▸ hvalue)]
    rfl
  have hroom : m.bits.length < 4 := by
    have := h.count
    omega
  rw [if_neg (by simpa using hfour), if_neg (by omega)]
  refine ⟨?_, ?_, hregisters, hrange⟩
  · simp only [List.length_append, List.length_singleton]
    omega
  · simp only [List.length_append, List.length_singleton]
    rw [h.shift_next byte hroom, show 4 - (m.bits.length + 1) = 3 - m.bits.length by omega]

end SerialCircuit

/-! ## Histories -/

namespace Receiver

/-- The receiver behind an event of the board. -/
def after (m : Receiver) : Board.Event → Receiver
  | .write address byte => m.receive address byte
  | _ => m

theorem after_register {e : Board.Event} {address : UInt16} {byte : UInt8}
    (h : e.register? = some (address, byte)) (m : Receiver) :
    m.after e = m.receive address byte := by
  cases e with
  | write address' byte' =>
      simp only [Board.Event.register?, Option.ite_none_right_eq_some, Option.some.injEq,
        Prod.mk.injEq] at h
      obtain ⟨-, rfl, rfl⟩ := h
      rfl
  | _ => cases h

/-- A write below the upper half is not received. -/
theorem after_idle {e : Board.Event} (h : e.register? = none) (m : Receiver) : m.after e = m := by
  cases e with
  | write address byte =>
      have hlower : ¬ 0x8000 ≤ address := by simpa [Board.Event.register?] using h
      exact if_pos (UInt16.not_le.1 hlower)
  | _ => rfl

end Receiver

namespace SerialCircuit

variable {s : SerialCircuit} {m : Receiver} {b : Board}

theorem Represents.after (h : s.Represents m) (hb : b.circuit = .serial s) {e : Board.Event}
    (he : ¬ e.Loads) :
    ∃ s', (b.after e).circuit = .serial s' ∧ s'.Represents (m.after e) := by
  obtain ⟨address, byte, hregister, hupper, hcircuit⟩ | ⟨hregister, hcircuit⟩ |
    ⟨_, _, hcounting, _⟩ := Board.circuit_after b he
  · rw [hb] at hcircuit
    refine ⟨_, hcircuit, ?_⟩
    rw [Receiver.after_register hregister]
    exact h.receive b.cartridge hupper byte
  · refine ⟨s, hcircuit.trans hb, ?_⟩
    rw [Receiver.after_idle hregister]
    exact h
  · rw [hb] at hcounting
    cases hcounting

/-- **A history.** Whatever happens to the board but loading, its circuit goes on to
represent the receiver. -/
theorem Represents.afterAll (h : s.Represents m) (hb : b.circuit = .serial s)
    (events : List Board.Event) (hloads : ∀ e ∈ events, ¬ e.Loads) :
    ∃ s', (b.afterAll events).circuit = .serial s' ∧
      s'.Represents (events.foldl Receiver.after m) := by
  induction events generalizing b s m with
  | nil => exact ⟨s, hb, h⟩
  | cons e rest ih =>
      obtain ⟨s', hb', h'⟩ := h.after hb (hloads e List.mem_cons_self)
      exact ih h' hb' fun e he => hloads e (List.mem_cons_of_mem _ he)

end SerialCircuit

/-- **The marker counts the bits.** Take any sequence of writes of the processor to a
fresh serial board, with starts over, changing addresses and writes to other memory in
it as they come. The four registers are those of the receiver that keeps the bits in a
list: it puts them into a register when the fifth one arrives, by the address of that
write alone. -/
theorem registers_eq_receiver {c : Cartridge} (hkind : c.kind = .serial)
    (writes : List (UInt16 × UInt8)) :
    ∃ s, ((Board.ofCartridge c).afterAll (writes.map fun w => .write w.1 w.2)).circuit =
        .serial s ∧
      s.registers = (Receiver.powerOn.receiveAll writes).registers := by
  have hfresh : (Board.ofCartridge c).circuit = .serial (.powerOn c) := by
    simp only [Board.ofCartridge, Circuit.powerOn, hkind]
  have hplain : ∀ e ∈ writes.map fun w => Board.Event.write w.1 w.2, ¬ e.Loads := by
    intro e he
    obtain ⟨w, _, rfl⟩ := List.mem_map.1 he
    exact id
  obtain ⟨s, hs, hrepresents⟩ :=
    (SerialCircuit.represents_powerOn c).afterAll hfresh _ hplain
  refine ⟨s, hs, ?_⟩
  rw [hrepresents.registers, List.foldl_map]
  rfl

/-- A bit that is given up, a write to work memory, and five bits that go to four
different registers: the last one decides. -/
theorem registers_eq_receiver_scattered :
    let writes : List (UInt16 × UInt8) :=
      [(0x8000, 1), (0xFFFF, 0x80), (0xA000, 1), (0xC000, 0), (0x6000, 0xFF), (0x8000, 1),
        (0xA000, 0x7E), (0xE000, 1)]
    (minimal .serial).kind = .serial ∧
      ∃ s, ((Board.ofCartridge (minimal .serial)).afterAll
            (writes.map fun w => .write w.1 w.2)).circuit = .serial s ∧
        s.registers = { control := 0x0C, pattern0 := 0, pattern1 := 0, program := 5 } := by
  intro writes
  obtain ⟨s, hs, hregisters⟩ := registers_eq_receiver (c := minimal .serial) rfl writes
  have hreceived : (Receiver.powerOn.receiveAll writes).registers =
      { control := 0x0C, pattern0 := 0, pattern1 := 0, program := 5 } := by
    decide
  exact ⟨rfl, s, hs, hregisters.trans hreceived⟩

end Famicom.Cartridge
