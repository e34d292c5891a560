import Famicom.Proofs.Checked
import Famicom.Proofs.Cpu.Morphism

/-!
# The checked processor

The processor over a space whose accesses may be faults. Nearly everything that
it does wraps around on purpose, as the registers of the real one do. What is
checked are the opcode, the sums of the arithmetic unit, the cost of an instruction
and the count of waiting cycles; the count of cycles comes to an end.

* **accesses** — a space with faults is an address space once more, in which
  nothing happens any more after a fault. So operands, stack and handlers are the
  ones of the plain processor (`joined`);
* **agreement** — where all accesses are harmless, a checked step agrees with the
  plain one unless the count of cycles ends in it (`Processor.checkedStep_agrees`).
-/

namespace Famicom.Cpu

open Checked

/-! ## The arithmetic unit -/

namespace Registers

/-- Add a byte and the carry to the accumulator. The sum is one of words. -/
def checkedAdd (r : Registers) (v : UInt8) : Checked Registers := do
  let carryIn : UInt16 := if r.p.has Status.carry then 1 else 0
  let sum ← plus r.a.toUInt16 v.toUInt16
  let sum ← plus sum carryIn
  let result := sum.toUInt8
  let overflow := !hasBits (r.a ^^^ v) 0x80 && hasBits (r.a ^^^ result) 0x80
  let p := (r.p.assign Status.carry (sum > 0xFF)).assign Status.overflow overflow
  return { r with a := result, p := p.withResult result }

/-- Subtract a byte and the borrow from the accumulator. The difference is one of
signed words. -/
def checkedSubtract (r : Registers) (v : UInt8) : Checked Registers := do
  let borrow : UInt8 := if r.p.has Status.carry then 0 else 1
  let difference ← signed 16 (r.a.toNat - v.toNat)
  let difference ← signed 16 (difference - borrow.toNat)
  let result := UInt8.ofInt difference
  let overflow := hasBits (r.a ^^^ v) 0x80 && hasBits (r.a ^^^ result) 0x80
  let p := (r.p.assign Status.carry (difference ≥ 0)).assign Status.overflow overflow
  return { r with a := result, p := p.withResult result }

theorem checkedAdd_eq (r : Registers) (v : UInt8) : r.checkedAdd v = .ok (r.add v) := by
  have ha := r.a.toNat_lt
  have hv := v.toNat_lt
  -- at most 255 + 255 + 1
  have hsum : (r.a.toUInt16 + v.toUInt16).toNat = r.a.toNat + v.toNat := by
    rw [UInt16.toNat_add, UInt8.toNat_toUInt16, UInt8.toNat_toUInt16]
    omega
  have hcarry : (if r.p.has Status.carry then 1 else 0 : UInt16).toNat ≤ 1 := by
    split <;> decide
  have hplus : plus r.a.toUInt16 v.toUInt16 = .ok (r.a.toUInt16 + v.toUInt16) :=
    plus_word (by rw [UInt8.toNat_toUInt16, UInt8.toNat_toUInt16]; omega)
  have hplusCarry := plus_word (a := r.a.toUInt16 + v.toUInt16)
    (b := if r.p.has Status.carry then 1 else 0) (by omega)
  simp only [checkedAdd, hplus, ok_bind, hplusCarry]
  rfl

theorem ofInt_difference (a v borrow : UInt8) :
    UInt8.ofInt (a.toNat - v.toNat - borrow.toNat) = a - v - borrow := by
  have hbyte (b : UInt8) : UInt8.ofInt b.toNat = b := by
    have hb := b.toNat_lt
    rw [← UInt8.toNat_inj, UInt8.ofInt, UInt8.toNat_ofNat']
    omega
  rw [Int.sub_eq_add_neg, Int.sub_eq_add_neg, UInt8.ofInt_add, UInt8.ofInt_add, UInt8.ofInt_neg,
    UInt8.ofInt_neg, hbyte, hbyte, hbyte, ← UInt8.sub_eq_add_neg, ← UInt8.sub_eq_add_neg]

theorem checkedSubtract_eq (r : Registers) (v : UInt8) :
    r.checkedSubtract v = .ok (r.subtract v) := by
  have ha := r.a.toNat_lt
  have hv := v.toNat_lt
  unfold checkedSubtract subtract
  generalize hborrow : (if r.p.has Status.carry then 0 else 1 : UInt8) = borrow
  have hle : borrow.toNat ≤ 1 := by
    rw [← hborrow]
    split <;> decide
  have hfirst : signed 16 ((r.a.toNat : Int) - v.toNat) = .ok (r.a.toNat - v.toNat) :=
    signed_ok (by omega)
  have hsecond : signed 16 ((r.a.toNat : Int) - v.toNat - borrow.toNat) =
      .ok (r.a.toNat - v.toNat - borrow.toNat) :=
    signed_ok (by omega)
  -- the sign of the difference is what the plain unit compares
  have hcarry : ((r.a.toNat : Int) - v.toNat - borrow.toNat ≥ 0) ↔
      r.a.toUInt16 ≥ v.toUInt16 + borrow.toUInt16 := by
    rw [ge_iff_le, ge_iff_le, UInt16.le_iff_toNat_le, UInt16.toNat_add, UInt8.toNat_toUInt16,
      UInt8.toNat_toUInt16, UInt8.toNat_toUInt16]
    omega
  simp only [hfirst, hsecond, ok_bind, ofInt_difference, hcarry]
  rfl

end Registers

/-! ## Spaces with faults -/

/-- A space whose accesses may be faults. -/
class CheckedSpace (σ : Type) where
  /-- The byte at an address, and the space after it was read. -/
  read : UInt16 → σ → Checked (UInt8 × σ)
  /-- The space after a byte was written to an address. -/
  write : UInt16 → UInt8 → σ → Checked σ

/-- A space, unless there was a fault in it. After a fault there are no more
accesses. -/
instance {σ : Type} [CheckedSpace σ] : AddressSpace (Checked σ) where
  read address s :=
    match s >>= CheckedSpace.read address with
    | .ok (value, s) => (value, .ok s)
    | .error fault => (0, .error fault)
  write address value s := s >>= CheckedSpace.write address value

/-- The result of some accesses, unless there was a fault among them. -/
def joined {α σ : Type} (result : α × Checked σ) : Checked (α × σ) := do
  let s ← result.2
  return (result.1, s)

/-- What the processor does with copies of one space has the same result on all of
them, without a fault. -/
theorem joined_eq {α σ : Type} {P : σ → Prop} {result : α × { s : σ // P s }}
    {x : α × Checked σ} {y : α × σ} (hx : x = (result.1, .ok result.2.val))
    (hy : y = (result.1, result.2.val)) : joined x = .ok y ∧ P y.2 := by
  rw [hx, hy]
  exact ⟨rfl, result.2.property⟩

variable {σ : Type} [CheckedSpace σ]

/-! ## Instructions -/

def checkedExecute (i : Instruction) (o : Operand) (r : Registers) (s : σ) :
    Checked (Registers × σ) :=
  match i.mnemonic with
  | .adc => do
    let (v, s) ← CheckedSpace.read o.address s
    return (← r.checkedAdd v, s)
  | .sbc => do
    let (v, s) ← CheckedSpace.read o.address s
    return (← r.checkedSubtract v, s)
  | _ => joined (execute i o r (.ok s))

namespace Processor

/-- The base cost of an instruction, with the costs of leaving a page and of
branching added to it. -/
def checkedCost (i : Instruction) (o : Operand) (r : Registers) : Checked UInt32 := do
  let paging : UInt8 := if o.pageCrossed then i.pageCycles else 0
  let cost ← plus i.cycles.toUInt32 paging.toUInt32
  plus cost (branchCycles i o r)

def checkedInstruction (r : Registers) (s : σ) : Checked (UInt32 × Registers × σ) := do
  let (opcode, s) ← CheckedSpace.read r.pc s
  let i ← lookup decodeTable opcode.toNat
  let (o, s) ← joined (Operand.resolve i.mode r (.ok s))
  let r := { r with pc := r.pc + i.size }
  let cost ← checkedCost i o r
  return (cost, ← checkedExecute i o r s)

/-- One step. An instruction takes as many cycles as there are more of them in the
end. -/
def checkedStep (c : Processor) (s : σ) : Checked (UInt32 × Processor × σ) :=
  if c.stall > 0 then do
    let stall ← minus c.stall 1
    let cycles ← count c.cycles 1
    return (1, { c with stall, cycles }, s)
  else do
    let (entry, entered) := takeInterrupt c.pending c.registers (.ok s)
    let (r, s) ← joined entered
    let (cost, r, s) ← checkedInstruction r s
    let n ← plus entry cost
    let cycles ← count c.cycles n.toUInt64
    let taken ← minus cycles c.cycles
    return (taken.toUInt32, { c with registers := r, cycles, pending := none }, s)

end Processor

theorem branchCycles_le (i : Instruction) (o : Operand) (r : Registers) :
    (branchCycles i o r).toNat ≤ 2 := by
  unfold branchCycles
  split
  · split
    · split <;> decide
    · decide
  · decide

/-- Two bytes and a branch do not come near the end of a word. -/
theorem Processor.checkedCost_eq (i : Instruction) (o : Operand) (r : Registers) :
    checkedCost i o r =
        .ok (i.cycles.toUInt32 + (if o.pageCrossed then i.pageCycles else 0).toUInt32 +
          branchCycles i o r) ∧
      (i.cycles.toUInt32 + (if o.pageCrossed then i.pageCycles else 0).toUInt32 +
        branchCycles i o r).toNat ≤ 512 := by
  have hbranch := branchCycles_le i o r
  have hbase := i.cycles.toNat_lt
  unfold checkedCost
  generalize (if o.pageCrossed then i.pageCycles else 0) = paging
  have hpaging := paging.toNat_lt
  have hsum : (i.cycles.toUInt32 + paging.toUInt32).toNat = i.cycles.toNat + paging.toNat := by
    rw [UInt32.toNat_add, UInt8.toNat_toUInt32, UInt8.toNat_toUInt32]
    omega
  have hplus : plus i.cycles.toUInt32 paging.toUInt32 = .ok (i.cycles.toUInt32 + paging.toUInt32) :=
    plus_long (by rw [UInt8.toNat_toUInt32, UInt8.toNat_toUInt32]; omega)
  constructor
  · simp only [hplus, ok_bind]
    exact plus_long (by omega)
  · rw [UInt32.toNat_add, hsum]
    omega

/-! ## Agreement -/

variable [AddressSpace σ]

/-- An invariant that makes all accesses harmless. -/
structure Harmless (P : σ → Prop) : Prop extends Invariant P where
  checkedRead : ∀ address s, P s → CheckedSpace.read address s = .ok (AddressSpace.read address s)
  checkedWrite : ∀ address value s, P s →
    CheckedSpace.write address value s = .ok (AddressSpace.write address value s)

namespace Harmless

variable {P : σ → Prop} {s : σ}

/-- A space without a fault is a copy of the plain one. -/
theorem morphism (h : Harmless P) :
    @Morphism _ _ h.space _ (fun s : { s : σ // P s } => (.ok s.val : Checked σ)) :=
  let _ := h.space
  { read := fun address s => by
      show (match CheckedSpace.read address s.val with
        | .ok (value, s) => (value, (.ok s : Checked σ))
        | .error fault => (0, .error fault)) = _
      rw [h.checkedRead address s.val s.property]
      rfl
    write := fun address value s => h.checkedWrite address value s.val s.property }

theorem resolve (h : Harmless P) (hs : P s) (mode : Mode) (r : Registers) :
    joined (Operand.resolve mode r (.ok s)) = .ok (Operand.resolve mode r s) ∧
      P (Operand.resolve mode r s).2 :=
  let _ := h.space
  joined_eq (h.morphism.resolve mode r ⟨s, hs⟩) (h.forget.resolve mode r ⟨s, hs⟩)

theorem execute (h : Harmless P) (hs : P s) (i : Instruction) (o : Operand) (r : Registers) :
    joined (Cpu.execute i o r (.ok s)) = .ok (Cpu.execute i o r s) :=
  let _ := h.space
  (joined_eq (h.morphism.execute i o r ⟨s, hs⟩) (h.forget.execute i o r ⟨s, hs⟩)).1

theorem takeInterrupt (h : Harmless P) (hs : P s) (pending : Option Interrupt) (r : Registers) :
    (Processor.takeInterrupt pending r (.ok s : Checked σ)).1 =
        (Processor.takeInterrupt pending r s).1 ∧
      joined (Processor.takeInterrupt pending r (.ok s)).2 =
        .ok (Processor.takeInterrupt pending r s).2 ∧
      P (Processor.takeInterrupt pending r s).2.2 := by
  let _ := h.space
  have hchecked := h.morphism.takeInterrupt pending r ⟨s, hs⟩
  have hplain := h.forget.takeInterrupt pending r ⟨s, hs⟩
  exact ⟨(congrArg (·.1) hchecked).trans (congrArg (·.1) hplain).symm,
    joined_eq (congrArg (·.2) hchecked) (congrArg (·.2) hplain)⟩

/-- The arithmetic unit does not overflow, and nothing else computes. -/
theorem checkedExecute_eq (h : Harmless P) (hs : P s) (i : Instruction) (o : Operand)
    (r : Registers) : checkedExecute i o r s = .ok (Cpu.execute i o r s) := by
  unfold checkedExecute
  split
  · rename_i hadc
    simp only [h.checkedRead _ _ hs, ok_bind, Registers.checkedAdd_eq, Cpu.execute, hadc,
      Mnemonic.effect]
    rfl
  · rename_i hsbc
    simp only [h.checkedRead _ _ hs, ok_bind, Registers.checkedSubtract_eq, Cpu.execute, hsbc,
      Mnemonic.effect]
    rfl
  · exact h.execute hs i o r

theorem checkedInstruction_eq (h : Harmless P) (hs : P s) (r : Registers) :
    Processor.checkedInstruction r s = .ok (Processor.runInstruction r s) ∧
      (Processor.runInstruction r s).1.toNat ≤ 512 := by
  have hopcode : (AddressSpace.read r.pc s).1.toNat < 256 := (AddressSpace.read r.pc s).1.toNat_lt
  have hread := h.read r.pc s hs
  have hresolve := h.resolve hread
  refine ⟨?_, (Processor.checkedCost_eq _ _ _).2⟩
  simp only [Processor.checkedInstruction, h.checkedRead _ _ hs, ok_bind, lookup_ok _ hopcode,
    (hresolve _ _).1, (Processor.checkedCost_eq _ _ _).1, h.checkedExecute_eq (hresolve _ _).2]
  rfl

end Harmless

theorem takeInterrupt_cost_le {τ : Type} [AddressSpace τ] (pending : Option Interrupt)
    (r : Registers) (s : τ) :
    (Processor.takeInterrupt pending r s).1.toNat ≤ 7 := by
  rcases pending with _ | interrupt
  · exact Nat.zero_le 7
  cases interrupt with
  | reset => exact Nat.le_refl 7
  | nmi => exact Nat.le_refl 7
  | irq =>
      simp only [Processor.takeInterrupt]
      split
      · exact Nat.zero_le 7
      · exact Nat.le_refl 7

/-- What a counter has moved on by can be read off it. -/
theorem minus_counter {counter n : UInt64} (h : counter.toNat + n.toNat < 2 ^ 64) :
    minus (counter + n) counter = .ok n := by
  have hsum : (counter + n).toNat = counter.toNat + n.toNat := by
    rw [UInt64.toNat_add]
    omega
  have hle : counter ≤ counter + n := by
    rw [UInt64.le_iff_toNat_le]
    omega
  rw [minus_wide hle, UInt64.add_comm, UInt64.add_sub_cancel]

/-- A step with harmless accesses is a plain one, as long as the cycles can be
counted. -/
theorem Processor.checkedStep_agrees {P : σ → Prop} (h : Harmless P) {s : σ} (hs : P s)
    (c : Processor) :
    Agrees (c.checkedStep s) (c.step s) (2 ^ 64 ≤ c.cycles.toNat + (c.step s).1.toNat) := by
  unfold checkedStep step
  by_cases hstall : c.stall > 0
  · have hle : 1 ≤ c.stall := UInt32.le_iff_toNat_le.2 (UInt32.lt_iff_toNat_lt.1 hstall)
    rw [if_pos hstall, if_pos hstall, minus_long hle, ok_bind]
    exact (count_agrees c.cycles 1).bind (.of_eq rfl)
  · -- the vector is fetched before the opcode, in a space that it may have changed
    obtain ⟨hentry, hjoined, hentered⟩ := h.takeInterrupt hs c.pending c.registers
    have hlow := takeInterrupt_cost_le c.pending c.registers s
    obtain ⟨hran, hhigh⟩ :=
      h.checkedInstruction_eq hentered (takeInterrupt c.pending c.registers s).2.1
    rw [if_neg hstall, if_neg hstall]
    simp only [hentry, hjoined, ok_bind, hran]
    -- the instruction is done; only its cycles are left to be counted
    generalize takeInterrupt c.pending c.registers s = entered at hlow hhigh ⊢
    generalize runInstruction entered.2.1 entered.2.2 = result at hhigh ⊢
    rw [plus_long (by omega), ok_bind]
    generalize entered.1 + result.1 = n
    obtain ⟨hroom, hcount⟩ | ⟨hends, hstop⟩ := count_cases c.cycles n.toUInt64
    · rw [hcount, ok_bind, minus_counter hroom, ok_bind, UInt32.toUInt32_toUInt64]
      exact .of_eq rfl
    · rw [hstop]
      exact .inr ⟨rfl, UInt32.toNat_toUInt64 n ▸ hends⟩

end Famicom.Cpu
