import Famicom.Proofs.Cpu.Morphism
import Famicom.Proofs.Word

/-!
# Which accesses a step makes

Reading is not harmless on this bus, so it matters which bytes a step reads and writes,
and in which order. A step that does not wait makes the accesses of an interrupt that is
taken (`Takes`), reads the opcode, finds the operand (`Locates`), and makes the accesses
of the instruction (`Acts`). Each of the three is a table of its own: it names addresses
only by registers and by bytes that were read before.

A space that remembers its accesses shows that there are no others (`step_accesses`).
What it remembers is answered by the space below it (`Answered`).
-/

namespace Famicom.Cpu

open AddressSpace Processor

/-! ## Tables -/

/-- The cell of page one that a stack pointer stands for. -/
def stackCell (s : UInt8) : UInt16 := 0x0100 ||| s.toUInt16

/-- The accesses with which a handler is entered: three pushes, and the vector. -/
def entryAccesses (vector : UInt16) (r : Registers) (low high : UInt8) : List Access :=
  [.write (stackCell r.s) (Word.high r.pc), .write (stackCell (r.s - 1)) (Word.low r.pc),
    .write (stackCell (r.s - 2)) (r.p.bits ||| 0x30),
    .read vector low, .read (vector + 1) high]

/-- The registers of a handler that begins. -/
def entered (r : Registers) (low high : UInt8) : Registers :=
  { r with s := r.s - 3, p := r.p.set Status.interruptDisable, pc := Word.ofBytes low high }

/-- The accesses with which a latched interrupt is taken, and the registers behind it. -/
inductive Takes (r : Registers) : Option Interrupt → List Access → Registers → Prop
  | nothing : Takes r none [] r
  | disabled : r.p.has Status.interruptDisable = true → Takes r (some .irq) [] r
  | irq (low high : UInt8) : r.p.has Status.interruptDisable = false →
      Takes r (some .irq) (entryAccesses 0xFFFE r low high) (entered r low high)
  | nmi (low high : UInt8) :
      Takes r (some .nmi) (entryAccesses 0xFFFA r low high) (entered r low high)
  | reset (low high : UInt8) :
      Takes r (some .reset) [.read 0xFFFC low, .read 0xFFFD high] (entered r low high)

/-- The accesses that find the operand, and its address. The opcode is at the program
counter. A pointer wraps inside its page, be that page zero or any other. -/
inductive Locates (r : Registers) : Mode → List Access → UInt16 → Prop
  | implied : Locates r .implied [] 0
  | accumulator : Locates r .accumulator [] 0
  | immediate : Locates r .immediate [] (r.pc + 1)
  | zeroPage (base : UInt8) : Locates r .zeroPage [.read (r.pc + 1) base] base.toUInt16
  | zeroPageX (base : UInt8) :
      Locates r .zeroPageX [.read (r.pc + 1) base] (base + r.x).toUInt16
  | zeroPageY (base : UInt8) :
      Locates r .zeroPageY [.read (r.pc + 1) base] (base + r.y).toUInt16
  | relative (offset : UInt8) :
      Locates r .relative [.read (r.pc + 1) offset] (r.pc + 2 + Word.signExtend offset)
  | absolute (low high : UInt8) :
      Locates r .absolute [.read (r.pc + 1) low, .read (r.pc + 2) high] (Word.ofBytes low high)
  | absoluteX (low high : UInt8) :
      Locates r .absoluteX [.read (r.pc + 1) low, .read (r.pc + 2) high]
        (Word.ofBytes low high + r.x.toUInt16)
  | absoluteY (low high : UInt8) :
      Locates r .absoluteY [.read (r.pc + 1) low, .read (r.pc + 2) high]
        (Word.ofBytes low high + r.y.toUInt16)
  | indirect (place page low high : UInt8) :
      Locates r .indirect
        [.read (r.pc + 1) place, .read (r.pc + 2) page,
          .read (Word.ofBytes place page) low, .read (Word.ofBytes (place + 1) page) high]
        (Word.ofBytes low high)
  | indexedIndirect (base low high : UInt8) :
      Locates r .indexedIndirect
        [.read (r.pc + 1) base,
          .read (base + r.x).toUInt16 low, .read (base + r.x + 1).toUInt16 high]
        (Word.ofBytes low high)
  | indirectIndexed (base low high : UInt8) :
      Locates r .indirectIndexed
        [.read (r.pc + 1) base, .read base.toUInt16 low, .read (base + 1).toUInt16 high]
        (Word.ofBytes low high + r.y.toUInt16)

namespace Mnemonic

/-- The read instructions. -/
def readsOperand : Mnemonic → Bool
  | lda | ldx | ldy | adc | sbc | and | ora | eor | bit | cmp | cpx | cpy => true
  | _ => false

/-- What the stores write. -/
def stored (r : Registers) : Mnemonic → Option UInt8
  | sta => some r.a
  | stx => some r.x
  | sty => some r.y
  | _ => none

/-- What the shifts and counters make of a byte. -/
def modified (carry : Bool) (v : UInt8) : Mnemonic → Option UInt8
  | inc => some (v + 1)
  | dec => some (v - 1)
  | asl => some (v <<< 1)
  | lsr => some (v >>> 1)
  | rol => some (v <<< 1 ||| if carry then 0x01 else 0)
  | ror => some (v >>> 1 ||| if carry then 0x80 else 0)
  | _ => none

/-- What is pushed. -/
def pushed (r : Registers) : Mnemonic → Option UInt8
  | pha => some r.a
  | php => some (r.p.bits ||| 0x30)
  | _ => none

/-- The instructions that pull a byte. -/
def pullsByte : Mnemonic → Bool
  | pla | plp => true
  | _ => false

/-- The instructions that are about registers only. -/
def quiet : Mnemonic → Bool
  | tax | tay | txa | tya | tsx | txs | inx | iny | dex | dey => true
  | clc | sec | cli | sei | cld | sed | clv => true
  | bcc | bcs | bne | beq | bpl | bmi | bvc | bvs | jmp => true
  | nop => true
  | m => m.undocumented

/-- The instructions that do nothing: the one that is meant for it, and all that the data
sheet does not list. -/
def idle : Mnemonic → Bool
  | nop => true
  | m => m.undocumented

end Mnemonic

/-- The accesses of an instruction whose operand is found. The program counter of `r`
points behind the instruction. -/
inductive Acts (i : Instruction) (address : UInt16) (r : Registers) : List Access → Prop
  | reads (v : UInt8) : i.mnemonic.readsOperand = true → Acts i address r [.read address v]
  | stores (v : UInt8) : i.mnemonic.stored r = some v → Acts i address r [.write address v]
  | modifies (v w : UInt8) : i.mode ≠ .accumulator →
      i.mnemonic.modified (r.p.has Status.carry) v = some w →
        Acts i address r [.read address v, .write address w]
  | accumulates (w : UInt8) : i.mode = .accumulator →
      i.mnemonic.modified (r.p.has Status.carry) r.a = some w → Acts i address r []
  | pushes (v : UInt8) : i.mnemonic.pushed r = some v →
      Acts i address r [.write (stackCell r.s) v]
  | pulls (v : UInt8) : i.mnemonic.pullsByte = true →
      Acts i address r [.read (stackCell (r.s + 1)) v]
  | calls : i.mnemonic = .jsr →
      Acts i address r [.write (stackCell r.s) (Word.high (r.pc - 1)),
        .write (stackCell (r.s - 1)) (Word.low (r.pc - 1))]
  | returns (low high : UInt8) : i.mnemonic = .rts →
      Acts i address r [.read (stackCell (r.s + 1)) low, .read (stackCell (r.s + 2)) high]
  | resumes (p low high : UInt8) : i.mnemonic = .rti →
      Acts i address r [.read (stackCell (r.s + 1)) p, .read (stackCell (r.s + 2)) low,
        .read (stackCell (r.s + 3)) high]
  | breaks (low high : UInt8) : i.mnemonic = .brk →
      Acts i address r (entryAccesses 0xFFFE r low high)
  | quiet : i.mnemonic.quiet = true → Acts i address r []

/-! ## Accesses that a space answers -/

variable {σ : Type} [AddressSpace σ]

/-- Every byte that is read is the one that the space has there by then. -/
def Answered : σ → List Access → σ → Prop
  | s, [], s' => s' = s
  | s, .read address v :: rest, s' =>
    v = (AddressSpace.read address s).1 ∧ Answered (AddressSpace.read address s).2 rest s'
  | s, .write address v :: rest, s' => Answered (AddressSpace.write address v s) rest s'

theorem Answered.append {s s' s'' : σ} {first second : List Access} (hfirst : Answered s first s')
    (hsecond : Answered s' second s'') : Answered s (first ++ second) s'' := by
  induction first generalizing s with
  | nil =>
      obtain rfl : s' = s := hfirst
      exact hsecond
  | cons access rest ih =>
      cases access with
      | read address v => exact ⟨hfirst.1, ih hfirst.2⟩
      | write address v => exact ih hfirst

/-- A space that remembers its accesses is answered by the space below it. -/
theorem invariant_answered (s : σ) :
    Invariant fun t : Traced σ => Answered s t.history.reverse t.space where
  read address t ht := by
    show Answered s (Access.read address (AddressSpace.read address t.space).1 ::
      t.history).reverse (AddressSpace.read address t.space).2
    rw [List.reverse_cons]
    exact ht.append ⟨rfl, rfl⟩
  write address v t ht := by
    show Answered s (Access.write address v :: t.history).reverse
      (AddressSpace.write address v t.space)
    rw [List.reverse_cons]
    exact ht.append rfl

/-- To forget the accesses is to see the space below. -/
theorem morphism_space : Morphism (Traced.space : Traced σ → σ) where
  read _ _ := rfl
  write _ _ _ := rfl

/-! ## The operand -/

/-- Behind the last byte of a page comes its first. -/
theorem nextInPage_ofBytes (low high : UInt8) :
    (Word.ofBytes low high &&& 0xFF00) ||| ((Word.ofBytes low high + 1) &&& 0x00FF) =
      Word.ofBytes (low + 1) high := by
  have hlow := low.toNat_lt
  have hhigh := high.toNat_lt
  have hpage : (Word.ofBytes low high &&& 0xFF00 : UInt16) = high.toUInt16 <<< 8 := by
    rw [← UInt16.toNat_inj, Word.toNat_and_field _ 8 8 rfl, Word.toNat_ofBytes,
      UInt16.toNat_shiftLeft, UInt8.toNat_toUInt16, Nat.shiftLeft_eq]
    simp only [UInt16.reduceToNat, Nat.reduceMod, Nat.reducePow]
    omega
  have hplace : (Word.ofBytes low high + 1) &&& 0x00FF = (low + 1).toUInt16 := by
    rw [← UInt16.toNat_inj, Word.toNat_and_low _ 8 rfl, UInt16.toNat_add, Word.toNat_ofBytes,
      UInt8.toNat_toUInt16, UInt8.toNat_add]
    simp only [UInt16.reduceToNat, UInt8.reduceToNat]
    omega
  rw [hpage, hplace]
  rfl

/-- A byte is a word of page zero. -/
theorem ofBytes_zero (low : UInt8) : Word.ofBytes low 0 = low.toUInt16 := by
  rw [← UInt16.toNat_inj, Word.toNat_ofBytes, UInt8.toNat_toUInt16]
  exact Nat.zero_add _

/-! ### Reading -/

theorem read_traced (address : UInt16) (t : Traced σ) :
    ∃ v s, AddressSpace.read address t = (v, ⟨s, .read address v :: t.history⟩) :=
  ⟨_, _, rfl⟩

theorem readWord_traced (address : UInt16) (t : Traced σ) :
    ∃ low high s, readWord address t =
      (Word.ofBytes low high,
        ⟨s, .read (address + 1) high :: .read address low :: t.history⟩) :=
  ⟨_, _, _, rfl⟩

theorem readWordInPage_traced (place page : UInt8) (t : Traced σ) :
    ∃ low high s, readWordInPage (Word.ofBytes place page) t =
      (Word.ofBytes low high,
        ⟨s, .read (Word.ofBytes (place + 1) page) high ::
          .read (Word.ofBytes place page) low :: t.history⟩) := by
  rw [← nextInPage_ofBytes]
  exact ⟨_, _, _, rfl⟩

theorem readWordInPage_zero_traced (place : UInt8) (t : Traced σ) :
    ∃ low high s, readWordInPage place.toUInt16 t =
      (Word.ofBytes low high,
        ⟨s, .read (place + 1).toUInt16 high :: .read place.toUInt16 low :: t.history⟩) := by
  rw [← ofBytes_zero, ← ofBytes_zero]
  exact readWordInPage_traced place 0 t

theorem locates_resolve (mode : Mode) (r : Registers) (t : Traced σ) :
    ∃ accesses, Locates r mode accesses (Operand.resolve mode r t).1.address ∧
      (Operand.resolve mode r t).2.history = accesses.reverse ++ t.history := by
  have hnext : r.pc + 1 + 1 = r.pc + 2 := UInt16.add_assoc ..
  obtain ⟨base, s, hread⟩ := read_traced (r.pc + 1) t
  obtain ⟨low, high, s', hword⟩ := readWord_traced (r.pc + 1) t
  rw [hnext] at hword
  cases mode with
  | implied => exact ⟨_, .implied, rfl⟩
  | accumulator => exact ⟨_, .accumulator, rfl⟩
  | immediate => exact ⟨_, .immediate, rfl⟩
  | zeroPage => simp only [Operand.resolve, hread]; exact ⟨_, .zeroPage base, rfl⟩
  | zeroPageX => simp only [Operand.resolve, hread]; exact ⟨_, .zeroPageX base, rfl⟩
  | zeroPageY => simp only [Operand.resolve, hread]; exact ⟨_, .zeroPageY base, rfl⟩
  | relative => simp only [Operand.resolve, hread]; exact ⟨_, .relative base, rfl⟩
  | absolute => simp only [Operand.resolve, hword]; exact ⟨_, .absolute low high, rfl⟩
  | absoluteX => simp only [Operand.resolve, hword]; exact ⟨_, .absoluteX low high, rfl⟩
  | absoluteY => simp only [Operand.resolve, hword]; exact ⟨_, .absoluteY low high, rfl⟩
  | indirect =>
      obtain ⟨l, h, _, hpointer⟩ := readWordInPage_traced low high
        ⟨s', .read (r.pc + 2) high :: .read (r.pc + 1) low :: t.history⟩
      simp only [Operand.resolve, hword, hpointer]
      exact ⟨_, .indirect low high l h, rfl⟩
  | indexedIndirect =>
      obtain ⟨l, h, _, hpointer⟩ := readWordInPage_zero_traced (base + r.x)
        ⟨s, .read (r.pc + 1) base :: t.history⟩
      simp only [Operand.resolve, hread, hpointer]
      exact ⟨_, .indexedIndirect base l h, rfl⟩
  | indirectIndexed =>
      obtain ⟨l, h, _, hpointer⟩ := readWordInPage_zero_traced base
        ⟨s, .read (r.pc + 1) base :: t.history⟩
      simp only [Operand.resolve, hread, hpointer]
      exact ⟨_, .indirectIndexed base l h, rfl⟩

/-- The index that a mode adds to the base address. In the other modes nothing is added. -/
def Mode.index (r : Registers) : Mode → UInt8
  | absoluteX => r.x
  | absoluteY | indirectIndexed => r.y
  | _ => 0

/-- Where nothing is added no page is left. -/
theorem samePage_unindexed (address : UInt16) :
    Word.samePage (address - (0 : UInt8).toUInt16) address = true := by
  rw [show (0 : UInt8).toUInt16 = 0 from rfl, UInt16.sub_zero]
  exact beq_self_eq_true _

/-- Indexing has left the page if the address without the index is in another one. -/
theorem pageCrossed_resolve (mode : Mode) (r : Registers) (s : σ) :
    (Operand.resolve mode r s).1.pageCrossed =
      !Word.samePage ((Operand.resolve mode r s).1.address - (mode.index r).toUInt16)
        (Operand.resolve mode r s).1.address := by
  cases mode with
  | absoluteX | absoluteY | indirectIndexed =>
      simp only [Operand.resolve, Operand.indexed, Mode.index, UInt16.add_sub_cancel]
  | _ => simp only [Operand.resolve, Operand.direct, Mode.index, samePage_unindexed, Bool.not_true]

/-! ## Interrupts -/

theorem Status.pushed_eq (p : Status) : p.pushed = p.bits ||| 0x30 :=
  UInt8.or_assoc ..

/-- Entering a handler, access by access. -/
theorem enterHandler_eq (vector : UInt16) (r : Registers) (s : σ) :
    enterHandler vector r s =
      let s := AddressSpace.write (stackCell r.s) (Word.high r.pc) s
      let s := AddressSpace.write (stackCell (r.s - 1)) (Word.low r.pc) s
      let s := AddressSpace.write (stackCell (r.s - 2)) (r.p.bits ||| 0x30) s
      let (low, s) := AddressSpace.read vector s
      let (high, s) := AddressSpace.read (vector + 1) s
      (entered r low high, s) := by
  have htwo : r.s - 1 - 1 = r.s - 2 := by grind
  have hthree : r.s - 1 - 1 - 1 = r.s - 3 := by grind
  unfold entered
  rw [← Status.pushed_eq, ← hthree, ← htwo]
  rfl

theorem enterHandler_traced (vector : UInt16) (r : Registers) (t : Traced σ) :
    ∃ low high s, enterHandler vector r t =
      (entered r low high, ⟨s, (entryAccesses vector r low high).reverse ++ t.history⟩) := by
  rw [enterHandler_eq]
  exact ⟨_, _, _, rfl⟩

theorem takes_takeInterrupt (pending : Option Interrupt) (r : Registers) (t : Traced σ) :
    ∃ accesses, Takes r pending accesses (takeInterrupt pending r t).2.1 ∧
      (takeInterrupt pending r t).2.2.history = accesses.reverse ++ t.history := by
  rcases pending with _ | interrupt
  · exact ⟨_, .nothing, rfl⟩
  cases interrupt with
  | reset =>
      obtain ⟨low, high, _, hvector⟩ := readWord_traced resetVector t
      simp only [takeInterrupt, enterReset, hvector]
      exact ⟨_, .reset low high, rfl⟩
  | nmi =>
      obtain ⟨low, high, _, henter⟩ := enterHandler_traced nmiVector r t
      simp only [takeInterrupt, henter]
      exact ⟨_, .nmi low high, rfl⟩
  | irq =>
      cases hdisabled : r.p.has Status.interruptDisable with
      | true =>
          simp only [takeInterrupt, hdisabled, if_true]
          exact ⟨_, .disabled hdisabled, rfl⟩
      | false =>
          obtain ⟨low, high, _, henter⟩ := enterHandler_traced requestVector r t
          simp only [takeInterrupt, hdisabled, henter]
          exact ⟨_, .irq low high hdisabled, rfl⟩

/-! ## Instructions -/

theorem pullByte_traced (r : Registers) (t : Traced σ) :
    ∃ v s, pullByte r t =
      (v, { r with s := r.s + 1 }, ⟨s, .read (stackCell (r.s + 1)) v :: t.history⟩) :=
  ⟨_, _, rfl⟩

theorem pullWord_traced (r : Registers) (t : Traced σ) :
    ∃ low high s, pullWord r t =
      (Word.ofBytes low high, { r with s := r.s + 2 },
        ⟨s, .read (stackCell (r.s + 2)) high :: .read (stackCell (r.s + 1)) low :: t.history⟩) := by
  have htwo : r.s + 1 + 1 = r.s + 2 := UInt8.add_assoc ..
  rw [← htwo]
  exact ⟨_, _, _, rfl⟩

/-- What replaces a byte makes no access in accumulator mode, and else two. -/
theorem acts_modifies {i : Instruction} {update : Status → UInt8 → Status × UInt8}
    (heffect : i.mnemonic.effect = .modifies update)
    (hmodified : ∀ p v, i.mnemonic.modified (p.has Status.carry) v = some (update p v).2)
    (o : Operand) (r : Registers) (t : Traced σ) :
    ∃ accesses, Acts i o.address r accesses ∧
      (execute i o r t).2.history = accesses.reverse ++ t.history := by
  unfold execute
  rw [heffect]
  by_cases hmode : i.mode = .accumulator
  · simp only [hmode, if_true]
    exact ⟨_, .accumulates _ hmode (hmodified r.p r.a), rfl⟩
  · simp only [hmode, if_false]
    exact ⟨_, .modifies _ _ hmode (hmodified r.p _), rfl⟩

theorem acts_execute (i : Instruction) (o : Operand) (r : Registers) (t : Traced σ) :
    ∃ accesses, Acts i o.address r accesses ∧
      (execute i o r t).2.history = accesses.reverse ++ t.history := by
  obtain ⟨m, mode, cycles, pageCycles⟩ := i
  cases m with
  | lda | ldx | ldy | adc | sbc | and | ora | eor | bit | cmp | cpx | cpy =>
      exact ⟨_, .reads _ rfl, rfl⟩
  | sta | stx | sty => exact ⟨_, .stores _ rfl, rfl⟩
  | inc | dec | asl | lsr | rol => exact acts_modifies rfl (fun _ _ => rfl) o r t
  | ror =>
      refine acts_modifies rfl (fun p v => ?_) o r t
      show some (v >>> 1 ||| if p.has Status.carry then (0x80 : UInt8) else 0) =
        some (v >>> 1 ||| (if p.has Status.carry then (1 : UInt8) else 0) <<< 7)
      split <;> rfl
  | pha => exact ⟨_, .pushes _ rfl, rfl⟩
  | php =>
      refine ⟨_, .pushes _ rfl, ?_⟩
      rw [← Status.pushed_eq]
      rfl
  | pla | plp => exact ⟨_, .pulls _ rfl, rfl⟩
  | jsr => exact ⟨_, .calls rfl, rfl⟩
  | rts =>
      obtain ⟨low, high, _, hpull⟩ := pullWord_traced r t
      simp only [execute, Mnemonic.effect, hpull]
      exact ⟨_, .returns low high rfl, rfl⟩
  | rti =>
      obtain ⟨p, s, hbyte⟩ := pullByte_traced r t
      obtain ⟨low, high, _, hword⟩ := pullWord_traced
        { r with s := r.s + 1, p := Status.pulled p }
        ⟨s, .read (stackCell (r.s + 1)) p :: t.history⟩
      have htwo : r.s + 1 + 1 = r.s + 2 := UInt8.add_assoc ..
      have hthree : r.s + 1 + 2 = r.s + 3 := UInt8.add_assoc ..
      simp only [htwo, hthree] at hword
      simp only [execute, Mnemonic.effect, hbyte, hword]
      exact ⟨_, .resumes p low high rfl, rfl⟩
  | brk =>
      obtain ⟨low, high, _, henter⟩ := enterHandler_traced requestVector r t
      refine ⟨_, .breaks low high rfl, ?_⟩
      exact congrArg (fun result => result.2.history) henter
  | _ => exact ⟨_, .quiet rfl, rfl⟩

theorem effect_idle {m : Mnemonic} (h : m.idle = true) : m.effect = .internal fun r => r := by
  cases m <;> first | rfl | exact absurd h (by decide)

/-- What does nothing makes no access either. -/
theorem execute_idle {i : Instruction} (h : i.mnemonic.idle = true) (o : Operand) (r : Registers)
    (s : σ) : execute i o r s = (r, s) := by
  unfold execute
  rw [effect_idle h]

/-! ## Steps -/

/-- A step that takes an interrupt, if there is one, and an instruction. -/
structure StepTrace where
  /-- The accesses of the interrupt. -/
  entry : List Access
  /-- The registers when the opcode is read. -/
  registers : Registers
  opcode : UInt8
  /-- The accesses that find the operand. -/
  operand : List Access
  address : UInt16
  /-- The accesses of the instruction itself. -/
  action : List Access

namespace StepTrace

def instruction (t : StepTrace) : Instruction := Instruction.decode t.opcode

/-- The registers when the instruction is carried out. -/
def advanced (t : StepTrace) : Registers :=
  { t.registers with pc := t.registers.pc + t.instruction.size }

/-- All accesses in order. -/
def accesses (t : StepTrace) : List Access :=
  t.entry ++ .read t.registers.pc t.opcode :: (t.operand ++ t.action)

/-- The parts of the step are what the tables say. -/
structure Follows (t : StepTrace) (c : Processor) : Prop where
  entry : Takes c.registers c.pending t.entry t.registers
  operand : Locates t.registers t.instruction.mode t.operand t.address
  action : Acts t.instruction t.address t.advanced t.action

end StepTrace

/-- The cost of an instruction whose operand is found. -/
def Instruction.costAt (i : Instruction) (address : UInt16) (r : Registers) : UInt32 :=
  let base := address - (i.mode.index r).toUInt16
  let paging := if Word.samePage base address then 0 else i.pageCycles
  i.cycles.toUInt32 + paging.toUInt32 +
    branchCycles i (.direct address) { r with pc := r.pc + i.size }

theorem runInstruction_traced (r : Registers) (t : Traced σ) :
    ∃ opcode operand address action,
      let i := Instruction.decode opcode
      let r' := { r with pc := r.pc + i.size }
      Locates r i.mode operand address ∧ Acts i address r' action ∧
        (runInstruction r t).2.2.history =
          (.read r.pc opcode :: (operand ++ action)).reverse ++ t.history ∧
        (i.mnemonic.idle = true → action = [] ∧ (runInstruction r t).2.1 = r') ∧
        (runInstruction r t).1 = i.costAt address r := by
  obtain ⟨opcode, s, hread⟩ := read_traced r.pc t
  obtain ⟨operand, hlocates, hoperand⟩ := locates_resolve (Instruction.decode opcode).mode r
    ⟨s, .read r.pc opcode :: t.history⟩
  have hcrossed := pageCrossed_resolve (Instruction.decode opcode).mode r
    (⟨s, .read r.pc opcode :: t.history⟩ : Traced σ)
  refine ⟨opcode, operand, ?_⟩
  unfold runInstruction
  simp only [hread]
  generalize Instruction.decode opcode = i at *
  generalize Operand.resolve i.mode r (⟨s, .read r.pc opcode :: t.history⟩ : Traced σ) = resolved
    at *
  obtain ⟨o, t'⟩ := resolved
  obtain ⟨action, hacts, haction⟩ := acts_execute i o { r with pc := r.pc + i.size } t'
  have hhistory : (execute i o { r with pc := r.pc + i.size } t').2.history =
      (.read r.pc opcode :: (operand ++ action)).reverse ++ t.history := by
    rw [haction, hoperand]
    simp only [List.reverse_cons, List.reverse_append, List.append_assoc, List.singleton_append]
  refine ⟨o.address, action, hlocates, hacts, hhistory, fun hidle => ?_, ?_⟩
  · rw [execute_idle hidle] at haction ⊢
    exact ⟨List.reverse_eq_nil_iff.1 (List.self_eq_append_left.1 haction), rfl⟩
  · have hpaging : o.pageCrossed =
        !Word.samePage (o.address - (i.mode.index r).toUInt16) o.address := hcrossed
    simp only [Instruction.costAt, hpaging]
    cases Word.samePage (o.address - (i.mode.index r).toUInt16) o.address <;> rfl

/-- A step on a space that remembers its accesses makes those of the tables, and costs what
its interrupt and its instruction cost. -/
theorem step_traced_cost (c : Processor) (hstall : c.stall = 0) (t : Traced σ) :
    ∃ trace : StepTrace, trace.Follows c ∧
      (c.step t).2.2.history = trace.accesses.reverse ++ t.history ∧
      (trace.instruction.mnemonic.idle = true →
        trace.action = [] ∧ (c.step t).2.1.registers = trace.advanced) ∧
      (c.step t).1 = (takeInterrupt c.pending c.registers t).1 +
        trace.instruction.costAt trace.address trace.registers := by
  have hruns : ¬ c.stall > 0 := by
    rw [hstall]
    decide
  obtain ⟨entry, htakes, hentry⟩ := takes_takeInterrupt c.pending c.registers t
  simp only [step, if_neg hruns]
  generalize takeInterrupt c.pending c.registers t = taken at *
  obtain ⟨cost, r, t'⟩ := taken
  obtain ⟨opcode, operand, address, action, hlocates, hacts, hrun, hidle, hcost⟩ :=
    runInstruction_traced r t'
  refine ⟨⟨entry, r, opcode, operand, address, action⟩, ⟨htakes, hlocates, hacts⟩, ?_, hidle, ?_⟩
  · rw [hrun, hentry]
    simp only [StepTrace.accesses, List.reverse_append, List.append_assoc]
  · rw [hcost]
    rfl

theorem step_traced (c : Processor) (hstall : c.stall = 0) (t : Traced σ) :
    ∃ trace : StepTrace, trace.Follows c ∧
      (c.step t).2.2.history = trace.accesses.reverse ++ t.history ∧
      (trace.instruction.mnemonic.idle = true →
        trace.action = [] ∧ (c.step t).2.1.registers = trace.advanced) := by
  obtain ⟨trace, hfollows, hhistory, hidle, -⟩ := step_traced_cost c hstall t
  exact ⟨trace, hfollows, hhistory, hidle⟩

/-- **The accesses of a step.** A step that does not wait makes the accesses of the tables
in their order, and no others: those of the interrupt that is taken, the opcode, the
operand, and the instruction. Each byte that is read is the one that is there by then. A
step that does nothing makes no access at the operand and changes the program counter
only; so it is with 77 opcodes that the data sheet does not list. -/
theorem step_accesses (c : Processor) (hstall : c.stall = 0) (s : σ) :
    (∃ trace : StepTrace, trace.Follows c ∧
      c.step (⟨s, []⟩ : Traced σ) =
        ((c.step s).1, (c.step s).2.1, ⟨(c.step s).2.2, trace.accesses.reverse⟩) ∧
      Answered s trace.accesses (c.step s).2.2 ∧
      (trace.instruction.mnemonic.idle = true →
        trace.action = [] ∧ (c.step s).2.1.registers = trace.advanced)) ∧
    decodeTable.toList.countP (fun i => i.mnemonic.undocumented) = 77 := by
  refine ⟨?_, by decide +kernel⟩
  obtain ⟨trace, hfollows, hhistory, hidle⟩ := step_traced c hstall (⟨s, []⟩ : Traced σ)
  have hanswered : Answered s (c.step (⟨s, []⟩ : Traced σ)).2.2.history.reverse
      (c.step (⟨s, []⟩ : Traced σ)).2.2.space :=
    step_invariant (invariant_answered s) c (s := (⟨s, []⟩ : Traced σ)) rfl
  have hspace : c.step s = _ := morphism_space.step c (⟨s, []⟩ : Traced σ)
  rw [List.append_nil] at hhistory
  rw [hhistory, List.reverse_reverse] at hanswered
  refine ⟨trace, hfollows, ?_, ?_, ?_⟩
  · rw [hspace, ← hhistory]
  · rw [hspace]
    exact hanswered
  · rw [hspace]
    exact hidle

/-- With power just on and an NMI latched, in memory that holds one byte throughout. -/
theorem step_accesses_powerOff :
    ({ powerOff with pending := some .nmi } : Processor).stall = 0 ∧
      ∃ trace : StepTrace, trace.Follows { powerOff with pending := some .nmi } ∧
        Answered (.filled 0xEA : FlatMemory) trace.accesses
          (step { powerOff with pending := some .nmi } (.filled 0xEA : FlatMemory)).2.2 := by
  obtain ⟨⟨trace, hfollows, -, hanswered, -⟩, -⟩ :=
    step_accesses { powerOff with pending := some .nmi } rfl (.filled 0xEA : FlatMemory)
  exact ⟨rfl, trace, hfollows, hanswered⟩

end Famicom.Cpu
