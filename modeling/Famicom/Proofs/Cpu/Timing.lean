import Famicom.Proofs.Cpu.Accesses

/-!
# The cost of a step

The data sheet gives every opcode its cycles, in a chart of sixteen rows
(`baseCycles`), and names the opcodes that take one cycle more when indexing leaves a
page (`pagingOpcodes`) and the branches (`branchTable`). What a step costs can be read
off these three and the bytes that the step reads (`StepTrace.cycles`):

* **chart** — the decode table agrees with the chart, opcode by opcode
  (`decode_timing`);
* **paging** — an index leaves the page if it and the low byte of the base address add
  up to more than 255 (`samePage_index`, `StepTrace.crosses_eq`);
* **branching** — a branch is taken by its flag (`branchCycles_eq`).

`step_timing` puts them together with the cost of an interrupt and of waiting.
-/

namespace Famicom.Cpu

open AddressSpace Processor

/-! ## The data sheet -/

/-- The base costs, a row for each high digit of the opcode and a column for each low
one. -/
def timingChart : Vector (Vector Nat 16) 16 := #v[
  #v[7, 6, 2, 8, 3, 3, 5, 5, 3, 2, 2, 2, 4, 4, 6, 6],
  #v[2, 5, 2, 8, 4, 4, 6, 6, 2, 4, 2, 7, 4, 4, 7, 7],
  #v[6, 6, 2, 8, 3, 3, 5, 5, 4, 2, 2, 2, 4, 4, 6, 6],
  #v[2, 5, 2, 8, 4, 4, 6, 6, 2, 4, 2, 7, 4, 4, 7, 7],
  #v[6, 6, 2, 8, 3, 3, 5, 5, 3, 2, 2, 2, 3, 4, 6, 6],
  #v[2, 5, 2, 8, 4, 4, 6, 6, 2, 4, 2, 7, 4, 4, 7, 7],
  #v[6, 6, 2, 8, 3, 3, 5, 5, 4, 2, 2, 2, 5, 4, 6, 6],
  #v[2, 5, 2, 8, 4, 4, 6, 6, 2, 4, 2, 7, 4, 4, 7, 7],
  #v[2, 6, 2, 6, 3, 3, 3, 3, 2, 2, 2, 2, 4, 4, 4, 4],
  #v[2, 6, 2, 6, 4, 4, 4, 4, 2, 5, 2, 5, 5, 5, 5, 5],
  #v[2, 6, 2, 6, 3, 3, 3, 3, 2, 2, 2, 2, 4, 4, 4, 4],
  #v[2, 5, 2, 5, 4, 4, 4, 4, 2, 4, 2, 4, 4, 4, 4, 4],
  #v[2, 6, 2, 8, 3, 3, 5, 5, 2, 2, 2, 2, 4, 4, 6, 6],
  #v[2, 5, 2, 8, 4, 4, 6, 6, 2, 4, 2, 7, 4, 4, 7, 7],
  #v[2, 6, 2, 8, 3, 3, 5, 5, 2, 2, 2, 2, 4, 4, 6, 6],
  #v[2, 5, 2, 8, 4, 4, 6, 6, 2, 4, 2, 7, 4, 4, 7, 7]
]

/-- The base cost of an opcode. -/
def baseCycles (opcode : UInt8) : Nat :=
  have hrow : opcode.toNat / 16 < 16 := Nat.div_lt_of_lt_mul opcode.toNat_lt
  have hcolumn : opcode.toNat % 16 < 16 := Nat.mod_lt _ (by decide)
  timingChart[opcode.toNat / 16][opcode.toNat % 16]

/-- The indexed reads that take one cycle more when the index leaves the page. Stores and
shifts take that cycle in any case. -/
def pagingOpcodes : List UInt8 :=
  [0x11, 0x19, 0x1C, 0x1D, 0x31, 0x39, 0x3C, 0x3D, 0x51, 0x59, 0x5C, 0x5D, 0x71, 0x79, 0x7C, 0x7D,
   0xB1, 0xB3, 0xB9, 0xBB, 0xBC, 0xBD, 0xBE, 0xBF, 0xD1, 0xD9, 0xDC, 0xDD, 0xF1, 0xF9, 0xFC, 0xFD]

/-- The branches, with the flag that each of them tests and the value at which it is
taken. -/
def branchTable : List (UInt8 × UInt8 × Bool) :=
  [(0x10, Status.negative, false), (0x30, Status.negative, true),
   (0x50, Status.overflow, false), (0x70, Status.overflow, true),
   (0x90, Status.carry, false), (0xB0, Status.carry, true),
   (0xD0, Status.zero, false), (0xF0, Status.zero, true)]

namespace StepTrace

/-- The low byte of the base address. Its high byte is the last one that finds the
operand. -/
def baseLow? (t : StepTrace) : Option UInt8 :=
  match t.operand with
  | [.read _ low, .read _ _] => some low
  | [.read _ _, .read _ low, .read _ _] => some low
  | _ => none

/-- The index leaves the page of the base address. -/
def crosses (t : StepTrace) : Bool :=
  t.baseLow?.any fun low => 255 < low.toNat + (t.instruction.mode.index t.registers).toNat

/-- The instruction is a branch that is taken. -/
def branches (t : StepTrace) : Bool :=
  (branchTable.lookup t.opcode).any fun (flag, value) => t.registers.p.has flag == value

/-- The target of a branch lies in another page than the following instruction. -/
def leaps (t : StepTrace) : Bool := Word.high t.address != Word.high t.advanced.pc

/-- The cycles of the instruction by the data sheet. -/
def cycles (t : StepTrace) : Nat :=
  baseCycles t.opcode + (if t.opcode ∈ pagingOpcodes ∧ t.crosses then 1 else 0) +
    if t.branches then if t.leaps then 2 else 1 else 0

end StepTrace

/-- The next step that does not wait serves the latched interrupt. -/
def Processor.serves (c : Processor) : Bool :=
  match c.pending with
  | none => false
  | some .irq => !c.registers.p.has Status.interruptDisable
  | some _ => true

/-! ## The decode table -/

/-- The flag that a branch tests and the value at which it is taken, by its mnemonic. -/
def Mnemonic.branchTest? : Mnemonic → Option (UInt8 × Bool)
  | bcc => some (Status.carry, false)
  | bcs => some (Status.carry, true)
  | bne => some (Status.zero, false)
  | beq => some (Status.zero, true)
  | bpl => some (Status.negative, false)
  | bmi => some (Status.negative, true)
  | bvc => some (Status.overflow, false)
  | bvs => some (Status.overflow, true)
  | _ => none

/-- **The decode table agrees with the data sheet.** -/
theorem decode_timing (opcode : UInt8) :
    (Instruction.decode opcode).cycles.toNat = baseCycles opcode ∧
      (Instruction.decode opcode).pageCycles.toNat = (if opcode ∈ pagingOpcodes then 1 else 0) ∧
      (Instruction.decode opcode).mnemonic.branchTest? = branchTable.lookup opcode := by
  have table : ∀ row ∈ decodeTable.toList.zipIdx,
      row.1.cycles.toNat = baseCycles (.ofNat row.2) ∧
        row.1.pageCycles.toNat = (if UInt8.ofNat row.2 ∈ pagingOpcodes then 1 else 0) ∧
        row.1.mnemonic.branchTest? = branchTable.lookup (.ofNat row.2) := by
    decide +kernel
  have hrow : (Instruction.decode opcode, opcode.toNat) ∈ decodeTable.toList.zipIdx := by
    rw [List.mk_mem_zipIdx_iff_getElem?, Vector.getElem?_toList]
    exact Vector.getElem?_eq_getElem opcode.toNat_lt
  have hopcode := table _ hrow
  rwa [UInt8.ofNat_toNat] at hopcode

/-! ## Pages -/

/-- Two addresses lie in the same page if their high bytes are equal. -/
theorem samePage_eq (a b : UInt16) : Word.samePage a b = (Word.high a == Word.high b) := by
  have hpage (w : UInt16) : (w &&& 0xFF00).toNat = 256 * (Word.high w).toNat := by
    have hlt := w.toNat_lt
    rw [Word.toNat_and_field w 8 8 rfl, Word.toNat_high]
    omega
  rw [Word.samePage, Bool.eq_iff_iff, beq_iff_eq, beq_iff_eq, ← UInt16.toNat_inj,
    ← UInt8.toNat_inj, hpage, hpage]
  omega

/-- An index stays in the page if there is no carry from the low bytes. -/
theorem samePage_index (low high index : UInt8) :
    Word.samePage (Word.ofBytes low high) (Word.ofBytes low high + index.toUInt16) =
      !decide (255 < low.toNat + index.toNat) := by
  have hlow := low.toNat_lt
  have hhigh := high.toNat_lt
  have hindex := index.toNat_lt
  have hnext : (Word.high (Word.ofBytes low high + index.toUInt16)).toNat =
      (256 * high.toNat + (low.toNat + index.toNat)) % 65536 / 256 := by
    rw [Word.toNat_high, UInt16.toNat_add, Word.toNat_ofBytes, UInt8.toNat_toUInt16]
    omega
  rw [samePage_eq, Word.high_ofBytes, ← decide_not, Bool.beq_eq_decide_eq]
  refine decide_eq_decide.2 ?_
  rw [← UInt8.toNat_inj, hnext]
  omega

/-- The bytes that find an operand tell whether the index leaves the page. -/
theorem StepTrace.crosses_eq {t : StepTrace}
    (h : Locates t.registers t.instruction.mode t.operand t.address) :
    t.crosses =
      !Word.samePage (t.address - (t.instruction.mode.index t.registers).toUInt16) t.address := by
  have hnothing (b : UInt8) : ¬ 255 < b.toNat + (0 : UInt8).toNat :=
    Nat.not_lt.2 (Nat.le_of_lt_succ b.toNat_lt)
  unfold crosses baseLow?
  generalize t.instruction.mode = mode at *
  generalize t.operand = operand at *
  generalize t.address = address at *
  -- only three modes add an index to a base that was read; the others have none to add
  cases h with
  | absoluteX | absoluteY | indirectIndexed =>
      simp only [Mode.index, UInt16.add_sub_cancel, samePage_index, Option.any_some, Bool.not_not]
      rfl
  | _ =>
      simp only [Mode.index, samePage_unindexed, hnothing, Option.any_some, Option.any_none,
        decide_false, Bool.not_true]

/-! ## Branches -/

/-- What a branch costs follows from its flag and its target. -/
theorem branchCycles_eq (i : Instruction) (address : UInt16) (r : Registers) :
    (branchCycles i (.direct address) r).toNat =
      if i.mnemonic.branchTest?.any fun (flag, value) => r.p.has flag == value then
        if Word.high address != Word.high r.pc then 2 else 1
      else 0 := by
  have htaken (taken : Bool) :
      (if taken then if Word.samePage r.pc address then 1 else 2 else 0 : UInt32).toNat =
        if taken then if Word.high address != Word.high r.pc then 2 else 1 else 0 := by
    rw [samePage_eq, BEq.comm, bne]
    cases taken <;> cases Word.high address == Word.high r.pc <;> rfl
  obtain ⟨m, mode, cycles, pageCycles⟩ := i
  cases m with
  | bcs | beq | bmi | bvs =>
      simp only [Mnemonic.branchTest?, Option.any_some, beq_true]
      exact htaken _
  | bcc | bne | bpl | bvc =>
      simp only [Mnemonic.branchTest?, Option.any_some, beq_false]
      exact htaken _
  | _ => rfl

/-! ## Steps -/

/-- An interrupt that is served costs seven cycles, and one that is dropped nothing. -/
theorem takeInterrupt_cost {σ : Type} [AddressSpace σ] (c : Processor) (s : σ) :
    (takeInterrupt c.pending c.registers s).1.toNat = if c.serves then 7 else 0 := by
  unfold serves takeInterrupt
  rcases c.pending with _ | interrupt
  · rfl
  cases interrupt with
  | reset | nmi => rfl
  | irq => cases c.registers.p.has Status.interruptDisable <;> rfl

/-- An interrupt that is not served leaves registers and bus alone. -/
theorem Takes.nothing_of_not_serves {c : Processor} {accesses : List Access} {r : Registers}
    (h : Takes c.registers c.pending accesses r) (hserves : c.serves = false) :
    accesses = [] ∧ r = c.registers := by
  unfold serves at hserves
  generalize c.pending = pending at *
  cases h with
  | nothing => exact ⟨rfl, rfl⟩
  | disabled => exact ⟨rfl, rfl⟩
  | irq _ _ henabled => simp [henabled] at hserves
  | nmi => cases hserves
  | reset => cases hserves

namespace StepTrace

theorem cycles_lt (t : StepTrace) : t.cycles < 2 ^ 9 := by
  have hbase : baseCycles t.opcode < 256 := (decode_timing t.opcode).1 ▸ UInt8.toNat_lt _
  unfold cycles
  split <;> split <;> (try split) <;> omega

/-- The cost of the instruction of a trace is the one by the data sheet. -/
theorem costAt_eq {t : StepTrace}
    (h : Locates t.registers t.instruction.mode t.operand t.address) :
    (t.instruction.costAt t.address t.registers).toNat = t.cycles := by
  obtain ⟨hbase, hpaging, hbranch⟩ :
      t.instruction.cycles.toNat = baseCycles t.opcode ∧
        t.instruction.pageCycles.toNat = (if t.opcode ∈ pagingOpcodes then 1 else 0) ∧
        t.instruction.mnemonic.branchTest? = branchTable.lookup t.opcode :=
    decode_timing t.opcode
  have hbranches : (branchCycles t.instruction (.direct t.address) t.advanced).toNat =
      if t.branches then if t.leaps then 2 else 1 else 0 := by
    rw [branchCycles_eq, branches, ← hbranch]
    rfl
  have hpages : (if Word.samePage (t.address - (t.instruction.mode.index t.registers).toUInt16)
      t.address then 0 else t.instruction.pageCycles).toNat =
      if t.opcode ∈ pagingOpcodes ∧ t.crosses then 1 else 0 := by
    rw [crosses_eq h]
    cases Word.samePage _ t.address with
    | true => simp
    | false => simpa using hpaging
  have hsum : (t.instruction.costAt t.address t.registers).toNat = t.cycles % 2 ^ 32 := by
    rw [cycles, ← hbase, ← hpages, ← hbranches, ← UInt8.toNat_toUInt32, ← UInt8.toNat_toUInt32,
      Instruction.costAt, UInt32.toNat_add, UInt32.toNat_add, Nat.mod_add_mod]
    rfl
  rw [hsum, Nat.mod_eq_of_lt (Nat.lt_trans t.cycles_lt (by decide))]

end StepTrace

/-- **The cost of a step.** A step that waits takes one cycle, of which it waits one less,
and touches neither the registers nor the bus. Any other step takes the sum of

* seven cycles if it serves an interrupt (a request that was latched while requests are
  disabled is dropped for free),
* the cycles of the opcode in the chart of the data sheet,
* one cycle for the opcodes that read with an index, if the index and the low byte of the
  base address add up to more than 255,
* one cycle for a branch that is taken, and one more if its target lies in another page
  than the following instruction.

The counter of cycles goes on by as many cycles as the step takes. -/
theorem step_timing {σ : Type} [AddressSpace σ] (c : Processor) (s : σ) :
    (0 < c.stall →
      c.step s = (1, { c with stall := c.stall - 1, cycles := c.cycles + 1 }, s) ∧
        (c.step (⟨s, []⟩ : Traced σ)).2.2.history = []) ∧
    (c.stall = 0 → ∃ trace : StepTrace, trace.Follows c ∧
      (c.step (⟨s, []⟩ : Traced σ)).2.2.history = trace.accesses.reverse ∧
      Answered s trace.accesses (c.step s).2.2 ∧
      (c.step s).1.toNat = (if c.serves then 7 else 0) + trace.cycles ∧
      (c.serves = false → trace.entry = [] ∧ trace.registers = c.registers) ∧
      (c.step s).2.1.pending = none) ∧
    (c.step s).2.1.cycles = c.cycles + (c.step s).1.toUInt64 := by
  refine ⟨fun hstall => ?_, fun hstall => ?_, ?_⟩
  · have hwaits {τ : Type} [AddressSpace τ] (s : τ) :
        c.step s = (1, { c with stall := c.stall - 1, cycles := c.cycles + 1 }, s) := if_pos hstall
    exact ⟨hwaits s, by rw [hwaits]⟩
  · -- the step on a space that records its accesses, which does the same to the space below
    obtain ⟨trace, hfollows, hhistory, -, hcost⟩ :=
      step_traced_cost c hstall (⟨s, []⟩ : Traced σ)
    have hanswered : Answered s (c.step (⟨s, []⟩ : Traced σ)).2.2.history.reverse
        (c.step (⟨s, []⟩ : Traced σ)).2.2.space :=
      step_invariant (invariant_answered s) c (s := (⟨s, []⟩ : Traced σ)) rfl
    have hspace : c.step s = _ := morphism_space.step c (⟨s, []⟩ : Traced σ)
    rw [List.append_nil] at hhistory
    rw [hhistory, List.reverse_reverse] at hanswered
    have hentry := takeInterrupt_cost c (⟨s, []⟩ : Traced σ)
    have hinstruction := trace.costAt_eq hfollows.operand
    have hsmall := trace.cycles_lt
    refine ⟨trace, hfollows, hhistory, ?_, ?_, hfollows.entry.nothing_of_not_serves, ?_⟩
    · rw [hspace]
      exact hanswered
    · rw [hspace, hcost, UInt32.toNat_add, hentry, hinstruction, Nat.mod_eq_of_lt]
      split <;> omega
    · rw [step, if_neg (by rw [hstall]; decide)]
  · unfold step
    split <;> rfl

/-- A processor that waits, and one that enters the reset routine, whose first instruction
reads with an index and leaves the page: seven cycles, four, and one. -/
theorem step_timing_reset :
    let c : Processor := { powerOff with stall := 2 }
    let d : Processor :=
      { powerOff with registers := { Registers.powerOn with x := 0x43 }, pending := some .reset }
    let s : FlatMemory := .filled 0xBD
    0 < c.stall ∧ (c.step s).1 = 1 ∧ d.stall = 0 ∧ (d.step s).1 = 12 ∧
      ∃ trace : StepTrace, trace.Follows d ∧ 12 = (if d.serves then 7 else 0) + trace.cycles := by
  intro c d s
  have hwaits : 0 < c.stall := by decide
  have hdecode : Instruction.decode 0xBD = ⟨.lda, .absoluteX, 4, 1⟩ := by decide +kernel
  -- The memory stays a variable here, for its 65536 bytes are not to be written out.
  have hfilled (t : FlatMemory) (hread : ∀ address, AddressSpace.read address t = (0xBD, t)) :
      (d.step t).1 = 12 := by
    rw [step, if_neg (by decide)]
    simp only [takeInterrupt, enterReset, runInstruction, Operand.resolve, AddressSpace.readWord,
      hread, hdecode, d]
    decide
  have hcost : (d.step s).1 = 12 := hfilled s fun _ => Prod.ext (Memory.read_filled _ _) rfl
  obtain ⟨hwait, -⟩ := (step_timing c s).1 hwaits
  obtain ⟨trace, hfollows, -, -, htrace, -⟩ := (step_timing d s).2.1 rfl
  rw [hcost] at htrace
  exact ⟨hwaits, congrArg Prod.fst hwait, rfl, hcost, trace, hfollows, htrace⟩

end Famicom.Cpu
