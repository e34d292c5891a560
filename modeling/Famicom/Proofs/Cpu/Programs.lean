import Famicom.Proofs.Cpu.Return
import Mathlib.Data.List.Basic
import Mathlib.Data.Nat.Digits.Defs

/-!
# Programs, instruction by instruction

A byte is all that an instruction works on. Longer numbers are worked on byte by byte,
and the carry is what one instruction leaves for the next.

* **numbers** — some bytes are a number, the lowest byte first, and no other bytes of that
  count are the same number (`number_inj`);
* **steps** — a processor that neither waits nor has an interrupt latched carries out the
  instruction at its program counter (`registers_reads`, `registers_internal`);
* **carry** — most instructions leave the carry to those that follow (`carry_afterStep`);
* **code** — in memory without side effects an instruction is its bytes
  (`Holds.immediate`, `Holds.absolute`), as long as nothing is written there (`Holds.write`).
-/

namespace Famicom

/-- A chip that an image describes shows the image. -/
theorem Memory.read_ofImage {α : Type} {n : Nat} [ChipSize n] (blank : α) (image : Array α)
    (i : Nat) : (ofImage blank image : Memory α n).read i = image.getD (i % n) blank := by
  simp only [read, ofImage, Vector.getElem_ofFn]

end Famicom

namespace Famicom.Cpu

open AddressSpace Processor

/-! ## Numbers -/

/-- The number with these bytes, the lowest first. -/
def number (bytes : List UInt8) : Nat := Nat.ofDigits 256 (bytes.map UInt8.toNat)

@[simp] theorem number_nil : number [] = 0 := rfl

theorem number_cons (byte : UInt8) (bytes : List UInt8) :
    number (byte :: bytes) = byte.toNat + 256 * number bytes :=
  Nat.ofDigits_cons

theorem number_append (low high : List UInt8) :
    number (low ++ high) = number low + 256 ^ low.length * number high := by
  simp only [number, List.map_append, Nat.ofDigits_append, List.length_map]

theorem digits_lt (bytes : List UInt8) : ∀ d ∈ bytes.map UInt8.toNat, d < 256 := by
  intro d hd
  obtain ⟨byte, -, rfl⟩ := List.mem_map.1 hd
  exact byte.toNat_lt

theorem number_lt (bytes : List UInt8) : number bytes < 256 ^ bytes.length := by
  have hlt := Nat.ofDigits_lt_base_pow_length (by decide) (digits_lt bytes)
  rwa [List.length_map] at hlt

/-- As many bytes for the same number are the same bytes. -/
theorem number_inj {a b : List UInt8} (hlength : a.length = b.length)
    (h : number a = number b) : a = b := by
  have hdigits := Nat.ofDigits_inj_of_len_eq (by decide)
    (by rw [List.length_map, List.length_map, hlength]) (digits_lt a) (digits_lt b) h
  exact List.map_injective_iff.2 (fun _ _ => UInt8.toNat_inj.1) hdigits

/-- There is an even number of numbers with so many bytes. -/
theorem even_modulus {length : Nat} (h : length ≠ 0) : 256 ^ length % 2 = 0 := by
  obtain ⟨n, rfl⟩ := Nat.exists_eq_add_one_of_ne_zero h
  rw [Nat.pow_succ]
  omega

/-- The result and the carry of a sum that is less than twice the modulus. -/
theorem eq_mod_of_carry {r sum modulus : Nat} {carry : Bool} (hr : r < modulus)
    (hsum : sum < 2 * modulus) (h : r + modulus * carry.toNat = sum) :
    r = sum % modulus ∧ (carry = true ↔ modulus ≤ sum) := by
  subst h
  rw [Nat.add_mul_mod_self_left, Nat.mod_eq_of_lt hr]
  refine ⟨rfl, ?_⟩
  cases carry
  · simpa using hr
  · simp

/-! ## Flags -/

namespace Status

theorem has_set (p : Status) {mask mask' : UInt8} (i j : Nat) (hmask : mask.toNat = 2 ^ i)
    (hmask' : mask'.toNat = 2 ^ j) :
    (p.set mask).has mask' = if i = j then true else p.has mask' := by
  have hbit : (p.bits ||| mask).toNat.testBit j = (p.bits.toNat.testBit j || decide (i = j)) := by
    rw [UInt8.toNat_or, Nat.testBit_or, hmask, Nat.testBit_two_pow]
  rw [has, has, Byte.hasBits_eq_testBit _ j hmask', Byte.hasBits_eq_testBit _ j hmask']
  refine hbit.trans ?_
  by_cases h : i = j <;> simp [h]

theorem has_clear (p : Status) {mask mask' : UInt8} (i j : Nat) (hmask : mask.toNat = 2 ^ i)
    (hmask' : mask'.toNat = 2 ^ j) :
    (p.clear mask).has mask' = if i = j then false else p.has mask' := by
  have hj : j < 8 := by
    have hlt := mask'.toNat_lt
    rw [hmask'] at hlt
    exact (Nat.pow_lt_pow_iff_right (by decide)).1 hlt
  have hrest : (~~~mask).toNat.testBit j = !decide (i = j) := by
    have hlt := mask.toNat_lt
    rw [UInt8.toNat_not, show UInt8.size - 1 - mask.toNat = 2 ^ 8 - (mask.toNat + 1) by
      simp only [UInt8.size]; omega, Nat.testBit_two_pow_sub_succ hlt, hmask, Nat.testBit_two_pow,
      decide_eq_true hj, Bool.true_and]
  have hbit : (p.bits &&& ~~~mask).toNat.testBit j =
      (p.bits.toNat.testBit j && !decide (i = j)) := by
    rw [UInt8.toNat_and, Nat.testBit_and, hrest]
  rw [has, has, Byte.hasBits_eq_testBit _ j hmask', Byte.hasBits_eq_testBit _ j hmask']
  refine hbit.trans ?_
  by_cases h : i = j <;> simp [h]

/-- A flag is what it was assigned last. -/
theorem has_assign (p : Status) (condition : Bool) {mask mask' : UInt8} (i j : Nat)
    (hmask : mask.toNat = 2 ^ i) (hmask' : mask'.toNat = 2 ^ j) :
    (p.assign mask condition).has mask' = if i = j then condition else p.has mask' := by
  cases condition with
  | false => exact p.has_clear i j hmask hmask'
  | true => exact p.has_set i j hmask hmask'

/-- A result leaves the carry and the overflow alone. -/
@[simp] theorem carry_withResult (p : Status) (v : UInt8) :
    (p.withResult v).has carry = p.has carry := by
  rw [withResult, has_assign _ _ 1 0 rfl rfl, has_assign _ _ 7 0 rfl rfl]
  rfl

@[simp] theorem overflow_withResult (p : Status) (v : UInt8) :
    (p.withResult v).has overflow = p.has overflow := by
  rw [withResult, has_assign _ _ 1 6 rfl rfl, has_assign _ _ 7 6 rfl rfl]
  rfl

@[simp] theorem negative_withResult (p : Status) (v : UInt8) :
    (p.withResult v).has negative = hasBits v 0x80 := by
  rw [withResult, has_assign _ _ 1 7 rfl rfl, has_assign _ _ 7 7 rfl rfl]
  rfl

@[simp] theorem carry_assign_carry (p : Status) (condition : Bool) :
    (p.assign carry condition).has carry = condition :=
  p.has_assign condition 0 0 rfl rfl

@[simp] theorem carry_assign_overflow (p : Status) (condition : Bool) :
    (p.assign overflow condition).has carry = p.has carry :=
  p.has_assign condition 6 0 rfl rfl

@[simp] theorem overflow_assign_overflow (p : Status) (condition : Bool) :
    (p.assign overflow condition).has overflow = condition :=
  p.has_assign condition 6 6 rfl rfl

end Status

/-! ## Steps -/

/-- There is nothing to wait for and no interrupt to take. -/
structure Processor.Ready (c : Processor) : Prop where
  stall : c.stall = 0
  pending : c.pending = none

section

variable {σ : Type} [AddressSpace σ]

/-- A step behind a state of the processor and of all that it can reach. -/
def afterStep (state : Processor × σ) : Processor × σ := (state.1.step state.2).2

/-- The instruction at the program counter. -/
def instructionAt (state : Processor × σ) : Instruction :=
  Instruction.decode (AddressSpace.read state.1.registers.pc state.2).1

/-- Its operand, and the space in which that was found. -/
def operandAt (state : Processor × σ) : Operand × σ :=
  Operand.resolve (instructionAt state).mode state.1.registers
    (AddressSpace.read state.1.registers.pc state.2).2

/-- The byte that the space shows at the operand. -/
def byteAt (state : Processor × σ) : UInt8 :=
  (AddressSpace.read (operandAt state).1.address (operandAt state).2).1

/-- The registers when the instruction is carried out. -/
def advanced (state : Processor × σ) : Registers :=
  { state.1.registers with pc := state.1.registers.pc + (instructionAt state).size }

variable {state : Processor × σ}

theorem Processor.Ready.afterStep (h : state.1.Ready) : (afterStep state).1.Ready := by
  obtain ⟨hstall, hpending⟩ := ready_step h.stall state.2
  exact ⟨hstall, hpending⟩

/-- A step carries out the instruction. -/
theorem afterStep_execute (h : state.1.Ready) :
    let result :=
      execute (instructionAt state) (operandAt state).1 (advanced state) (operandAt state).2
    (afterStep state).1.registers = result.1 ∧ (afterStep state).2 = result.2 :=
  step_eq_runInstruction h.stall h.pending state.2

theorem registers_reads (h : state.1.Ready) {update : Registers → UInt8 → Registers}
    (heffect : (instructionAt state).mnemonic.effect = .reads update) :
    (afterStep state).1.registers = update (advanced state) (byteAt state) := by
  rw [(afterStep_execute h).1]
  unfold execute
  rw [heffect]
  rfl

theorem registers_internal (h : state.1.Ready) {update : Registers → Registers}
    (heffect : (instructionAt state).mnemonic.effect = .internal update) :
    (afterStep state).1.registers = update (advanced state) := by
  rw [(afterStep_execute h).1]
  unfold execute
  rw [heffect]

/-! ### The carry -/

/-- The carry of a state. -/
def carryOf (state : Processor × σ) : Bool := state.1.registers.p.has Status.carry

/-- The instructions that leave the carry alone: all but those that add, subtract, compare,
shift or pull the status, and the two that are for the carry. -/
def Mnemonic.sparesCarry : Mnemonic → Bool
  | adc | sbc | cmp | cpx | cpy | asl | lsr | rol | ror | clc | sec | plp | rti => false
  | _ => true

/-- Whatever the effect does to the registers, the carry stays. -/
def Effect.SparesCarry : Effect → Prop
  | .internal update => ∀ r, (update r).p.has Status.carry = r.p.has Status.carry
  | .reads update | .pulls update => ∀ r v, (update r v).p.has Status.carry = r.p.has Status.carry
  | .modifies update => ∀ p v, (update p v).1.has Status.carry = p.has Status.carry
  | .resumes => False
  | _ => True

/-- What is recorded is a result, or the bits of a byte; flag instructions have flags of
their own. -/
theorem Mnemonic.effect_sparesCarry {m : Mnemonic} (h : m.sparesCarry = true) :
    m.effect.SparesCarry := by
  cases m with
  | adc | sbc | cmp | cpx | cpy | asl | lsr | rol | ror | clc | sec | plp | rti => nomatch h
  | lda | ldx | ldy | and | ora | eor | pla => exact fun r v => Status.carry_withResult _ _
  | tax | tay | txa | tya | tsx | inx | iny | dex | dey =>
      exact fun r => Status.carry_withResult _ _
  | inc | dec => exact fun p v => Status.carry_withResult _ _
  | bit =>
      intro r v
      show Status.has (Status.assign (Status.assign (Status.assign r.p _ _) _ _) _ _) _ = _
      rw [Status.has_assign _ _ 1 0 rfl rfl, Status.has_assign _ _ 7 0 rfl rfl,
        Status.has_assign _ _ 6 0 rfl rfl]
      rfl
  | cli => exact fun r => Status.has_clear _ 2 0 rfl rfl
  | sei => exact fun r => Status.has_set _ 2 0 rfl rfl
  | cld => exact fun r => Status.has_clear _ 3 0 rfl rfl
  | sed => exact fun r => Status.has_set _ 3 0 rfl rfl
  | clv => exact fun r => Status.has_clear _ 6 0 rfl rfl
  | sta | stx | sty | pha | php | jmp | jsr | rts | brk | bcc | bcs | bne | beq | bpl | bmi | bvc
  | bvs => trivial
  | _ => exact fun r => rfl

theorem carry_execute {i : Instruction} (h : i.mnemonic.effect.SparesCarry) (o : Operand)
    (r : Registers) (s : σ) :
    (execute i o r s).1.p.has Status.carry = r.p.has Status.carry := by
  unfold execute
  cases heffect : i.mnemonic.effect with
  | internal update =>
      rw [heffect] at h
      exact h r
  | reads update | pulls update =>
      rw [heffect] at h
      exact h _ _
  | modifies update =>
      rw [heffect] at h
      simp only []
      split
      · exact h _ _
      · exact h _ _
  | branches taken =>
      simp only []
      split <;> rfl
  | breaks => exact Status.has_set _ 2 0 rfl rfl
  | resumes =>
      rw [heffect] at h
      exact h.elim
  | writes | pushes | jumps | calls | returns => rfl

/-- **Most instructions leave the carry to those that follow.** -/
theorem carry_afterStep (h : state.1.Ready)
    (hspares : (instructionAt state).mnemonic.sparesCarry = true) :
    carryOf (afterStep state) = carryOf state := by
  rw [carryOf, (afterStep_execute h).1]
  exact carry_execute (Mnemonic.effect_sparesCarry hspares) _ _ _

end

/-! ## Code in memory -/

/-- Memory holds these bytes from an address on. -/
def Holds (m : FlatMemory) : UInt16 → List UInt8 → Prop
  | _, [] => True
  | address, byte :: rest => m.read address.toNat = byte ∧ Holds m (address + 1) rest

/-- So many cells, from an address on. -/
def places : UInt16 → Nat → List UInt16
  | _, 0 => []
  | address, n + 1 => address :: places (address + 1) n

/-- The cells are consecutive, as long as they do not go beyond the last one. -/
theorem toNat_places {address x : UInt16} {n : Nat} (h : x ∈ places address n)
    (hn : address.toNat + n ≤ 0x10000) :
    address.toNat ≤ x.toNat ∧ x.toNat < address.toNat + n := by
  induction n generalizing address with
  | zero => nomatch h
  | succ n ih =>
      rcases List.mem_cons.1 h with rfl | hrest
      · omega
      · by_cases hlast : address.toNat + 1 = 0x10000
        · obtain rfl : n = 0 := by omega
          nomatch hrest
        · have hnext := Word.toNat_succ (w := address) (by omega)
          have hplace := ih hrest (by omega)
          omega

theorem read_write_flat (m : FlatMemory) (x y : UInt16) (v : UInt8) :
    (m.write x.toNat v).read y.toNat = if x = y then v else m.read y.toNat := by
  have hmod (z : UInt16) : z.toNat % 0x10000 = z.toNat := Nat.mod_eq_of_lt z.toNat_lt
  rw [Memory.read_write, hmod, hmod]
  simp only [UInt16.toNat_inj]

/-- What is written elsewhere does not change code. -/
theorem Holds.write {m : FlatMemory} {address x : UInt16} {code : List UInt8}
    (h : Holds m address code) (hx : x ∉ places address code.length) (v : UInt8) :
    Holds (m.write x.toNat v) address code := by
  induction code generalizing address with
  | nil => trivial
  | cons byte rest ih =>
      have hhere : x ≠ address := fun heq => hx (heq ▸ List.mem_cons_self)
      refine ⟨?_, ih h.2 fun hmem => hx (List.mem_cons_of_mem _ hmem)⟩
      rw [read_write_flat, if_neg hhere]
      exact h.1

/-- Memory that begins with some bytes holds them. -/
theorem holds_ofImage (code : List UInt8) (hlength : code.length ≤ 0x10000) :
    Holds (.ofImage 0 code.toArray) 0 code := by
  -- what is left of the code stands where it is
  have hrest (k : Nat) (rest : List UInt8) (hrest : code.drop k = rest) :
      Holds (.ofImage 0 code.toArray) (.ofNat k) rest := by
    induction rest generalizing k with
    | nil => trivial
    | cons byte rest ih =>
        have hk : k < code.length := by
          by_contra hover
          rw [List.drop_eq_nil_of_le (Nat.le_of_not_lt hover)] at hrest
          cases hrest
        have hsplit := List.drop_eq_getElem_cons hk
        rw [hrest, List.cons.injEq] at hsplit
        have hplace : (UInt16.ofNat k).toNat % 0x10000 = k := by
          rw [UInt16.toNat_ofNat']
          omega
        refine ⟨?_, ?_⟩
        · rw [Memory.read_ofImage, hplace, hsplit.1]
          simp [hk]
        · have hnext := ih (k + 1) hsplit.2.symm
          rwa [UInt16.ofNat_add] at hnext
  exact hrest 0 code rfl

section

variable {state : Processor × FlatMemory} {opcode : UInt8} {rest : List UInt8}

theorem Holds.instruction (h : Holds state.2 state.1.registers.pc (opcode :: rest)) :
    instructionAt state = Instruction.decode opcode :=
  congrArg Instruction.decode h.1

/-- A byte that is part of the instruction. -/
theorem Holds.immediate {v : UInt8}
    (h : Holds state.2 state.1.registers.pc (opcode :: v :: rest))
    (hmode : (Instruction.decode opcode).mode = .immediate) : byteAt state = v := by
  unfold byteAt operandAt
  rw [h.instruction, hmode]
  exact h.2.1

/-- An address that is part of the instruction. -/
theorem Holds.absolute {low high : UInt8}
    (h : Holds state.2 state.1.registers.pc (opcode :: low :: high :: rest))
    (hmode : (Instruction.decode opcode).mode = .absolute) :
    (operandAt state).1.address = Word.ofBytes low high := by
  have hlow : state.2.read (state.1.registers.pc + 1).toNat = low := h.2.1
  have hhigh : state.2.read (state.1.registers.pc + 1 + 1).toNat = high := h.2.2.1
  unfold operandAt
  rw [h.instruction, hmode, ← hlow, ← hhigh]
  rfl

/-- To find an operand changes nothing in memory. -/
theorem space_operandAt (state : Processor × FlatMemory) : (operandAt state).2 = state.2 :=
  resolve_memory _ _ _

end

end Famicom.Cpu
