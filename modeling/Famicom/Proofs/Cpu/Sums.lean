import Famicom.Proofs.Cpu.Programs

/-!
# Sums and differences of several bytes

The processor adds bytes. A program adds longer numbers by adding their bytes, the lowest
first, and the carry of each sum is part of the next.

* **byte** — a sum is exact if its carry counts 256, and a difference is the sum with the
  complement (`Registers.add_exact`, `Registers.subtract_eq_add`);
* **sign** — the highest bits of a sum say whether it is a number with a sign
  (`overflows_sum`);
* **chain** — the sum of all bytes is exact, and the flags behind the last one belong to the
  whole numbers, whatever is done between the bytes that leaves the carry alone
  (`Combines.exact`, `Combines.correct`).

`multibyte_arithmetic` says it of programs that begin with the instruction that clears or
sets the carry. There are such programs for all numbers (`exists_prepared`).
-/

namespace Famicom.Cpu

open AddressSpace Processor

/-! ## Numbers with a sign -/

/-- The highest bit of a number of so many bytes. -/
def signBit (bytes : List UInt8) : Bool := decide (256 ^ bytes.length ≤ 2 * number bytes)

/-- The number that the bytes are if the highest bit counts as negative. -/
def signed (bytes : List UInt8) : Int := Int.bmod (number bytes) (256 ^ bytes.length)

/-- A number that so many bytes can be, if the highest bit counts as negative. -/
def Fits (length : Nat) (x : Int) : Prop := -(256 : Int) ^ length ≤ 2 * x ∧ 2 * x < 256 ^ length

instance (length : Nat) (x : Int) : Decidable (Fits length x) :=
  inferInstanceAs (Decidable (_ ∧ _))

/-- The bytes with every bit turned over. -/
def complement (bytes : List UInt8) : List UInt8 := bytes.map fun b => ~~~b

theorem toNat_complement (b : UInt8) : (~~~b).toNat = 255 - b.toNat :=
  UInt8.toNat_not b

theorem signBit_singleton (b : UInt8) : signBit [b] = hasBits b 0x80 := by
  have hb := b.toNat_lt
  rw [signBit, Byte.hasBits_eq_testBit b 7 rfl, Nat.testBit_eq_decide_div_mod_eq, number_cons,
    number_nil]
  refine decide_eq_decide.2 ?_
  simp only [List.length_singleton]
  omega

/-- The highest bit is in the highest byte. -/
theorem signBit_cons (b : UInt8) {bytes : List UInt8} (h : bytes ≠ []) :
    signBit (b :: bytes) = signBit bytes := by
  have hb := b.toNat_lt
  obtain ⟨length, hlength⟩ := Nat.exists_eq_add_one_of_ne_zero (mt List.length_eq_zero_iff.1 h)
  rw [signBit, signBit, number_cons, List.length_cons, hlength, Nat.pow_succ, Nat.pow_succ]
  generalize 256 ^ length = power
  refine decide_eq_decide.2 ?_
  omega

theorem cast_modulus (length : Nat) : ((256 ^ length : Nat) : Int) = 256 ^ length :=
  Int.natCast_pow 256 length

theorem signed_eq {bytes : List UInt8} (h : bytes ≠ []) :
    signed bytes = number bytes - (if signBit bytes then (256 : Int) ^ bytes.length else 0) := by
  have hlt := number_lt bytes
  have heven := even_modulus (mt List.length_eq_zero_iff.1 h)
  rw [signed, ← cast_modulus, signBit]
  generalize 256 ^ bytes.length = modulus at *
  rw [Int.bmod_def, Int.emod_eq_of_lt (Int.natCast_nonneg _) (by exact_mod_cast hlt)]
  by_cases hsign : modulus ≤ 2 * number bytes
  · rw [if_neg (by omega), if_pos (decide_eq_true hsign)]
  · rw [if_pos (by omega), if_neg (by simpa using hsign)]
    omega

theorem number_complement (bytes : List UInt8) :
    number (complement bytes) + number bytes + 1 = 256 ^ bytes.length := by
  induction bytes with
  | nil => rfl
  | cons b bytes ih =>
      have hb := b.toNat_lt
      show number (~~~b :: complement bytes) + _ + 1 = _
      rw [number_cons, number_cons, toNat_complement, List.length_cons, Nat.pow_succ]
      omega

theorem signBit_complement {bytes : List UInt8} (h : bytes ≠ []) :
    signBit (complement bytes) = !signBit bytes := by
  have hsum := number_complement bytes
  have heven := even_modulus (mt List.length_eq_zero_iff.1 h)
  have hlength : (complement bytes).length = bytes.length := List.length_map _
  rw [signBit, signBit, hlength, ← decide_not]
  refine decide_eq_decide.2 ?_
  omega

/-! ## One byte -/

theorem hasBits_xor (a b : UInt8) :
    hasBits (a ^^^ b) 0x80 = (hasBits a 0x80 != hasBits b 0x80) := by
  have hbit (v : UInt8) : hasBits v 0x80 = v.toNat.testBit 7 := Byte.hasBits_eq_testBit v 7 rfl
  rw [hbit, hbit, hbit, UInt8.toNat_xor, Nat.testBit_xor]

theorem hasBits_complement (b : UInt8) : hasBits (~~~b) 0x80 = !hasBits b 0x80 := by
  rw [← signBit_singleton, ← signBit_singleton]
  exact signBit_complement (List.cons_ne_nil b [])

/-- Whether two numbers of one sign have a sum of the other. -/
def overflows (a b sum : Bool) : Bool := (a == b) && (sum != a)

theorem overflows_decide (a b sum : Prop) [Decidable a] [Decidable b] [Decidable sum] :
    overflows (decide a) (decide b) (decide sum) = decide ((a ↔ b) ∧ ¬ (sum ↔ a)) := by
  by_cases ha : a <;> by_cases hb : b <;> by_cases hsum : sum <;> simp [overflows, ha, hb, hsum]

theorem bne_decide (a b : Prop) [Decidable a] [Decidable b] :
    (decide a != decide b) = decide ¬ (a ↔ b) := by
  by_cases ha : a <;> by_cases hb : b <;> simp [ha, hb]

namespace Registers

/-- **The sum of two bytes and the carry**, with the flags that belong to it. -/
theorem add_exact (r : Registers) (v : UInt8) :
    (r.add v).a.toNat + 256 * ((r.add v).p.has Status.carry).toNat =
        r.a.toNat + v.toNat + (r.p.has Status.carry).toNat ∧
      (r.add v).p.has Status.negative = hasBits (r.add v).a 0x80 ∧
      (r.add v).p.has Status.overflow =
        overflows (hasBits r.a 0x80) (hasBits v 0x80) (hasBits (r.add v).a 0x80) := by
  have ha := r.a.toNat_lt
  have hv := v.toNat_lt
  unfold add
  simp only [Status.carry_withResult, Status.carry_assign_overflow, Status.carry_assign_carry,
    Status.negative_withResult, Status.overflow_withResult, Status.overflow_assign_overflow]
  refine ⟨?_, trivial, ?_⟩
  · -- the sum of three small numbers is exact in a word
    have hsum : (r.a.toUInt16 + v.toUInt16 +
        if r.p.has Status.carry = true then (1 : UInt16) else 0).toNat =
          r.a.toNat + v.toNat + (r.p.has Status.carry).toNat := by
      cases r.p.has Status.carry <;>
        simp only [UInt16.toNat_add, UInt8.toNat_toUInt16, if_true, Bool.false_eq_true, if_false,
          UInt16.reduceToNat, Bool.toNat_true, Bool.toNat_false] <;> omega
    have hcarry := Bool.toNat_le (r.p.has Status.carry)
    generalize (r.a.toUInt16 + v.toUInt16 +
      if r.p.has Status.carry = true then (1 : UInt16) else 0) = sum at hsum ⊢
    simp only [gt_iff_lt, UInt16.lt_iff_toNat_lt, UInt16.reduceToNat, UInt16.toNat_toUInt8]
    by_cases hover : 255 < sum.toNat
    · rw [decide_eq_true hover, Bool.toNat_true]
      omega
    · rw [decide_eq_false hover, Bool.toNat_false]
      omega
  · rw [hasBits_xor, hasBits_xor, overflows]
    cases hasBits r.a 0x80 <;> cases hasBits v 0x80 <;> cases hasBits _ 0x80 <;> rfl

/-- **A difference is the sum with the complement.** -/
theorem subtract_eq_add (r : Registers) (v : UInt8) : r.subtract v = r.add (~~~v) := by
  have ha := r.a.toNat_lt
  have hv := v.toNat_lt
  have hcomplement := toNat_complement v
  have hresult : r.a - v - (if r.p.has Status.carry then (0 : UInt8) else 1) =
      (r.a.toUInt16 + (~~~v).toUInt16 +
        if r.p.has Status.carry then (1 : UInt16) else 0).toUInt8 := by
    rw [← UInt8.toNat_inj]
    cases r.p.has Status.carry <;>
      simp only [UInt8.toNat_sub, UInt16.toNat_toUInt8, UInt16.toNat_add, UInt8.toNat_toUInt16,
        hcomplement, if_true, Bool.false_eq_true, if_false, UInt16.reduceToNat,
        UInt8.reduceToNat] <;> omega
  have hcarry : decide (r.a.toUInt16 ≥ v.toUInt16 +
      (if r.p.has Status.carry then (0 : UInt8) else 1).toUInt16) =
        decide (r.a.toUInt16 + (~~~v).toUInt16 +
          (if r.p.has Status.carry then (1 : UInt16) else 0) > 0xFF) := by
    refine decide_eq_decide.2 ?_
    cases r.p.has Status.carry <;>
      simp only [ge_iff_le, gt_iff_lt, UInt16.le_iff_toNat_le, UInt16.lt_iff_toNat_lt,
        UInt16.toNat_add, UInt8.toNat_toUInt16, hcomplement, if_true, Bool.false_eq_true, if_false,
        UInt16.reduceToNat, UInt8.reduceToNat] <;> omega
  have hsign : hasBits (r.a ^^^ v) 0x80 = !hasBits (r.a ^^^ ~~~v) 0x80 := by
    rw [hasBits_xor, hasBits_xor, hasBits_complement]
    cases hasBits r.a 0x80 <;> cases hasBits v 0x80 <;> rfl
  unfold subtract add
  simp only [hresult, hcarry, hsign]

end Registers

/-! ## The sign of a sum -/

/-- Numbers below an even modulus are taken as negative from its half on. A sum is too large
or too small if both have one sign and what is left of it has the other one; if so, the
sign of what is left is wrong. -/
theorem sum_signs {modulus a b r : Nat} (carryIn carryOut : Bool) (heven : modulus % 2 = 0)
    (ha : a < modulus) (hb : b < modulus) (hr : r < modulus)
    (hsum : r + modulus * carryOut.toNat = a + b + carryIn.toNat) :
    let sum : Int := (a - if modulus ≤ 2 * a then (modulus : Int) else 0) +
      (b - if modulus ≤ 2 * b then (modulus : Int) else 0) + carryIn.toNat
    let overflow := (modulus ≤ 2 * a ↔ modulus ≤ 2 * b) ∧ ¬ (modulus ≤ 2 * r ↔ modulus ≤ 2 * a)
    (overflow ↔ ¬ (-(modulus : Int) ≤ 2 * sum ∧ 2 * sum < modulus)) ∧
      (¬ (modulus ≤ 2 * r ↔ overflow) ↔ sum < 0) := by
  intro sum overflow
  have hcarry := Bool.toNat_le carryIn
  have hout : modulus * carryOut.toNat = if carryOut then modulus else 0 := by
    cases carryOut with
    | false => rfl
    | true => exact Nat.mul_one modulus
  rw [hout] at hsum
  simp only [sum, overflow]
  -- the carry that comes out is known from the signs
  refine ⟨?_, ?_⟩ <;> split_ifs at hsum ⊢ <;> omega

/-- **The overflow of a sum of several bytes**, and its true sign, from the highest bits. -/
theorem overflows_sum {a b results : List UInt8} (carryIn carryOut : Bool) (hne : results ≠ [])
    (ha : a.length = results.length) (hb : b.length = results.length)
    (hsum : number results + 256 ^ results.length * carryOut.toNat =
      number a + number b + carryIn.toNat) :
    let sum := signed a + signed b + (carryIn.toNat : Int)
    overflows (signBit a) (signBit b) (signBit results) = !decide (Fits results.length sum) ∧
      (signBit results != overflows (signBit a) (signBit b) (signBit results)) =
        decide (sum < 0) := by
  have hlength : results.length ≠ 0 := mt List.length_eq_zero_iff.1 hne
  have hsigned {bytes : List UInt8} (h : bytes.length = results.length) :
      signed bytes = number bytes -
        if 256 ^ results.length ≤ 2 * number bytes then ((256 ^ results.length : Nat) : Int)
        else 0 := by
    have hbytes : bytes ≠ [] := fun hnil => hlength (by rw [← h, hnil]; rfl)
    rw [signed_eq hbytes, signBit, h, cast_modulus]
    simp only [decide_eq_true_iff]
  have hlt {bytes : List UInt8} (h : bytes.length = results.length) :
      number bytes < 256 ^ results.length := h ▸ number_lt bytes
  obtain ⟨hoverflow, hsign⟩ := sum_signs carryIn carryOut (even_modulus hlength) (hlt ha) (hlt hb)
    (number_lt results) hsum
  simp only [hsigned ha, hsigned hb, signBit, ha, hb, Fits, ← cast_modulus, overflows_decide,
    bne_decide, ← decide_not]
  exact ⟨decide_eq_decide.2 hoverflow, decide_eq_decide.2 hsign⟩

/-! ## A chain of bytes -/

section

variable {σ : Type} [AddressSpace σ]

/-- The next instruction reads this byte. -/
structure Reads (m : Mnemonic) (v : UInt8) (state : Processor × σ) : Prop where
  mnemonic : (instructionAt state).mnemonic = m
  byte : byteAt state = v

/-- Whatever is done from one state to another leaves the carry alone. -/
inductive Between : Processor × σ → Processor × σ → Prop
  | done (state : Processor × σ) : Between state state
  | step {state state' : Processor × σ} : (instructionAt state).mnemonic.sparesCarry = true →
      Between (afterStep state) state' → Between state state'

/-- The state behind two steps. -/
def afterDigit (state : Processor × σ) : Processor × σ := afterStep (afterStep state)

/-- Of each pair of bytes the first one is loaded, and an instruction that reads the second
one leaves the next byte of the result in the accumulator. Between one pair and the next
there may be anything that leaves the carry alone. -/
inductive Combines (m : Mnemonic) :
    List (UInt8 × UInt8) → Processor × σ → List UInt8 → Processor × σ → Prop
  | last {a b : UInt8} {state : Processor × σ} :
      Reads .lda a state → Reads m b (afterStep state) →
        Combines m [(a, b)] state [(afterDigit state).1.registers.a] (afterDigit state)
  | more {a b : UInt8} {rest : List (UInt8 × UInt8)} {state next final : Processor × σ}
      {results : List UInt8} :
      Reads .lda a state → Reads m b (afterStep state) → Between (afterDigit state) next →
        Combines m rest next results final →
          Combines m ((a, b) :: rest) state ((afterDigit state).1.registers.a :: results) final

variable {m : Mnemonic} {state next final start : Processor × σ} {digits : List (UInt8 × UInt8)}
  {results : List UInt8}

theorem Between.ready (h : Between state next) (hready : state.1.Ready) : next.1.Ready := by
  induction h with
  | done state => exact hready
  | step _ _ ih => exact ih hready.afterStep

theorem Between.carry (h : Between state next) (hready : state.1.Ready) :
    carryOf next = carryOf state := by
  induction h with
  | done state => rfl
  | step hspares _ ih => rw [ih hready.afterStep, carry_afterStep hready hspares]

/-- An instruction that adds a byte, or what is made of it. -/
def Adds (m : Mnemonic) (operand : UInt8 → UInt8) : Prop :=
  m.effect = .reads fun r v => r.add (operand v)

theorem adds_adc : Adds .adc id := rfl

theorem adds_sbc : Adds .sbc fun v => ~~~v :=
  congrArg Effect.reads (funext fun r => funext fun v => r.subtract_eq_add v)

/-- The flags and the byte behind a pair. -/
theorem afterDigit_exact {operand : UInt8 → UInt8} {a b : UInt8} (hadds : Adds m operand)
    (hready : state.1.Ready) (hload : Reads .lda a state) (hread : Reads m b (afterStep state)) :
    let r := (afterDigit state).1.registers
    r.a.toNat + 256 * (carryOf (afterDigit state)).toNat =
        a.toNat + (operand b).toNat + (carryOf state).toNat ∧
      r.p.has Status.negative = hasBits r.a 0x80 ∧
      r.p.has Status.overflow =
        overflows (hasBits a 0x80) (hasBits (operand b) 0x80) (hasBits r.a 0x80) := by
  have hloads : (instructionAt state).mnemonic.effect = .reads fun r v => r.setA v := by
    rw [hload.mnemonic]
    rfl
  have hloaded : (afterStep state).1.registers = (advanced state).setA a := by
    rw [registers_reads hready hloads, hload.byte]
  have hcarry : (afterStep state).1.registers.p.has Status.carry = carryOf state :=
    carry_afterStep hready (by rw [hload.mnemonic]; rfl)
  have heffect : (instructionAt (afterStep state)).mnemonic.effect =
      .reads fun r v => r.add (operand v) := by
    rw [hread.mnemonic]
    exact hadds
  have hadded : (afterDigit state).1.registers =
      (advanced (afterStep state)).add (operand b) := by
    rw [afterDigit, registers_reads hready.afterStep heffect, hread.byte]
  have hexact := (advanced (afterStep state)).add_exact (operand b)
  have ha : (advanced (afterStep state)).a = a := by
    show (afterStep state).1.registers.a = a
    rw [hloaded]
    rfl
  have hp : (advanced (afterStep state)).p = (afterStep state).1.registers.p := rfl
  rw [← hadded, ha, hp, hcarry] at hexact
  exact hexact

/-- There is at least one pair, and so one byte of the result. -/
theorem Combines.ne_nil (h : Combines m digits state results final) :
    digits ≠ [] ∧ results ≠ [] := by
  cases h with
  | last | more => exact ⟨List.cons_ne_nil _ _, List.cons_ne_nil _ _⟩

/-- **The sum of all bytes is exact**, if what the instruction makes of the second operand
is added to the first one. The flags behind the last byte belong to the whole numbers. -/
theorem Combines.exact {operand : UInt8 → UInt8} (hadds : Adds m operand)
    (h : Combines m digits state results final) (hready : state.1.Ready) :
    let a := digits.map Prod.fst
    let b := digits.map fun digit => operand digit.2
    results.length = digits.length ∧
      number results + 256 ^ digits.length * (carryOf final).toNat =
        number a + number b + (carryOf state).toNat ∧
      final.1.registers.p.has Status.negative = signBit results ∧
      final.1.registers.p.has Status.overflow =
        overflows (signBit a) (signBit b) (signBit results) := by
  induction h with
  | last hload hread =>
      obtain ⟨hsum, hnegative, hoverflow⟩ := afterDigit_exact hadds hready hload hread
      refine ⟨rfl, ?_, ?_, ?_⟩
      · simp only [List.map_cons, List.map_nil, number_cons, number_nil, List.length_singleton]
        omega
      · rw [signBit_singleton]
        exact hnegative
      · simp only [List.map_cons, List.map_nil, signBit_singleton]
        exact hoverflow
  | @more a b rest state next final results hload hread hbetween hrest ih =>
      have hready' : next.1.Ready := hbetween.ready hready.afterStep.afterStep
      obtain ⟨hlength, hsum, hnegative, hoverflow⟩ := ih hready'
      have hfirst := (afterDigit_exact hadds hready hload hread).1
      have hcarry : carryOf next = carryOf (afterDigit state) :=
        hbetween.carry hready.afterStep.afterStep
      rw [hcarry] at hsum
      obtain ⟨hne, hne'⟩ := hrest.ne_nil
      refine ⟨congrArg (· + 1) hlength, ?_, ?_, ?_⟩
      · simp only [List.map_cons, number_cons, List.length_cons, Nat.pow_succ,
          Nat.mul_right_comm _ 256]
        omega
      · rw [hnegative, signBit_cons _ hne']
      · rw [hoverflow, List.map_cons, List.map_cons, signBit_cons _ hne',
          signBit_cons _ (mt List.map_eq_nil_iff.1 hne),
          signBit_cons _ (mt List.map_eq_nil_iff.1 hne)]

/-! ## Sums and differences -/

/-- A program that clears the carry and then adds the pairs of bytes. -/
def Sums (digits : List (UInt8 × UInt8)) (start : Processor × σ) (results : List UInt8)
    (final : Processor × σ) : Prop :=
  (instructionAt start).mnemonic = .clc ∧
    ∃ first, Between (afterStep start) first ∧ Combines .adc digits first results final

/-- A program that sets the carry and then subtracts in the pairs of bytes. -/
def Differences (digits : List (UInt8 × UInt8)) (start : Processor × σ) (results : List UInt8)
    (final : Processor × σ) : Prop :=
  (instructionAt start).mnemonic = .sec ∧
    ∃ first, Between (afterStep start) first ∧ Combines .sbc digits first results final

/-- An instruction that gives the carry a value. -/
def Prepares (m : Mnemonic) (carry : Bool) : Prop :=
  ∃ update, m.effect = .internal update ∧ ∀ r, (update r).p.has Status.carry = carry

theorem prepares_clc : Prepares .clc false :=
  ⟨_, rfl, fun r => Status.has_clear r.p 0 0 rfl rfl⟩

theorem prepares_sec : Prepares .sec true :=
  ⟨_, rfl, fun r => Status.has_set r.p 0 0 rfl rfl⟩

/-- **A chain behind an instruction that is for the carry**: the result and the carry, and
what the flags say of the numbers with a sign. -/
theorem Combines.correct {carry : Bool} {operand : UInt8 → UInt8}
    (hprepares : Prepares (instructionAt start).mnemonic carry) (hadds : Adds m operand)
    (hbetween : Between (afterStep start) state) (h : Combines m digits state results final)
    (hready : start.1.Ready) :
    let a := digits.map Prod.fst
    let b := digits.map fun digit => operand digit.2
    let n := digits.length
    let sum := signed a + signed b + (carry.toNat : Int)
    results.length = n ∧ number results = (number a + number b + carry.toNat) % 256 ^ n ∧
      (carryOf final = true ↔ 256 ^ n ≤ number a + number b + carry.toNat) ∧
      final.1.registers.p.has Status.overflow = !decide (Fits n sum) ∧
      (final.1.registers.p.has Status.negative != final.1.registers.p.has Status.overflow) =
        decide (sum < 0) := by
  obtain ⟨update, heffect, hcarry⟩ := hprepares
  have hprepared : carryOf state = carry := by
    rw [hbetween.carry hready.afterStep, carryOf, registers_internal hready heffect, hcarry]
  obtain ⟨hlength, hsum, hnegative, hoverflow⟩ :=
    h.exact hadds (hbetween.ready hready.afterStep)
  rw [hprepared] at hsum
  rw [hnegative, hoverflow]
  have ha : (digits.map Prod.fst).length = results.length := by rw [List.length_map, hlength]
  have hb : (digits.map fun digit => operand digit.2).length = results.length := by
    rw [List.length_map, hlength]
  rw [← hlength] at hsum ⊢
  have hbound : number (digits.map Prod.fst) + number (digits.map fun digit => operand digit.2) +
      carry.toNat < 2 * 256 ^ results.length := by
    have haLt := number_lt (digits.map Prod.fst)
    have hbLt := number_lt (digits.map fun digit => operand digit.2)
    have hcarryLe := Bool.toNat_le carry
    rw [ha] at haLt
    rw [hb] at hbLt
    omega
  obtain ⟨hresult, hcarryOut⟩ := eq_mod_of_carry (number_lt results) hbound hsum
  obtain ⟨hfits, hsign⟩ := overflows_sum carry (carryOf final) h.ne_nil.2 ha hb hsum
  exact ⟨rfl, hresult, hcarryOut, hfits, hsign⟩

theorem Sums.correct (h : Sums digits start results final) (hready : start.1.Ready) :
    let a := digits.map Prod.fst
    let b := digits.map Prod.snd
    let n := digits.length
    results.length = n ∧ number results = (number a + number b) % 256 ^ n ∧
      (carryOf final = true ↔ 256 ^ n ≤ number a + number b) ∧
      (final.1.registers.p.has Status.overflow = true ↔ ¬ Fits n (signed a + signed b)) := by
  obtain ⟨hclears, first, hbetween, hcombines⟩ := h
  obtain ⟨hlength, hresult, hcarry, hoverflow, -⟩ := hcombines.correct
    (hclears ▸ prepares_clc) adds_adc hbetween hready
  simp only [Bool.toNat_false, Nat.add_zero, Int.natCast_zero, Int.add_zero, id_eq] at *
  refine ⟨hlength, hresult, hcarry, ?_⟩
  rw [hoverflow, Bool.not_eq_true', decide_eq_false_iff_not]

/-- A number with a sign and its complement are minus one together. -/
theorem signed_complement {bytes : List UInt8} (h : bytes ≠ []) :
    signed (complement bytes) = -1 - signed bytes := by
  have hsum := number_complement bytes
  have hlength : (complement bytes).length = bytes.length := List.length_map _
  have hne : complement bytes ≠ [] := mt List.map_eq_nil_iff.1 h
  rw [signed_eq h, signed_eq hne, signBit_complement h, hlength, ← cast_modulus]
  cases signBit bytes <;>
    simp only [Bool.not_true, Bool.not_false, if_true, if_false, Bool.false_eq_true] <;> omega

theorem Differences.correct (h : Differences digits start results final)
    (hready : start.1.Ready) :
    let a := digits.map Prod.fst
    let b := digits.map Prod.snd
    let n := digits.length
    results.length = n ∧ (number results : Int) = (number a - number b) % 256 ^ n ∧
      (carryOf final = true ↔ number b ≤ number a) ∧
      (final.1.registers.p.has Status.overflow = true ↔ ¬ Fits n (signed a - signed b)) ∧
      ((final.1.registers.p.has Status.negative ^^ final.1.registers.p.has Status.overflow) = true ↔
        signed a < signed b) := by
  obtain ⟨hsets, first, hbetween, hcombines⟩ := h
  obtain ⟨hlength, hresult, hcarry, hoverflow, hsign⟩ := hcombines.correct
    (hsets ▸ prepares_sec) adds_sbc hbetween hready
  have hcomplement : (digits.map fun digit => ~~~digit.2) = complement (digits.map Prod.snd) :=
    List.map_map.symm
  have hne : digits.map Prod.snd ≠ [] := mt List.map_eq_nil_iff.1 hcombines.ne_nil.1
  have htogether := number_complement (digits.map Prod.snd)
  rw [List.length_map] at htogether
  rw [hcomplement, Bool.toNat_true] at hresult hcarry
  -- with the carry, the complement is what is left of minus one
  have hdifference : signed (digits.map Prod.fst) + signed (complement (digits.map Prod.snd)) +
      ((true.toNat : Nat) : Int) =
        signed (digits.map Prod.fst) - signed (digits.map Prod.snd) := by
    rw [signed_complement hne, Bool.toNat_true]
    omega
  rw [hcomplement, hdifference] at hoverflow hsign
  have hmodulus : number (digits.map Prod.fst) + number (complement (digits.map Prod.snd)) + 1 =
      number (digits.map Prod.fst) + 256 ^ digits.length - number (digits.map Prod.snd) := by
    omega
  refine ⟨hlength, ?_, ?_, ?_, ?_⟩
  · have hle : number (digits.map Prod.snd) ≤
        number (digits.map Prod.fst) + 256 ^ digits.length := by omega
    rw [hresult, hmodulus, ← Int.add_emod_right]
    push_cast [hle]
    congr 1
    omega
  · rw [hcarry]
    omega
  · rw [hoverflow, Bool.not_eq_true', decide_eq_false_iff_not]
  · show (_ != _) = true ↔ _
    rw [hsign, decide_eq_true_iff]
    omega

end

/-! ## Code -/

/-- The code that combines some pairs of bytes, which are part of it. -/
def combiningCode (opcode : UInt8) : List (UInt8 × UInt8) → List UInt8
  | [] => []
  | (a, b) :: rest => 0xA9 :: a :: opcode :: b :: combiningCode opcode rest

section

variable {state : Processor × FlatMemory} {opcode : UInt8} {digits : List (UInt8 × UInt8)}
  {m : Mnemonic}

/-- An instruction that reads a byte of itself goes on to the next one. -/
theorem Holds.reads {v : UInt8} {rest : List UInt8} {update : Registers → UInt8 → Registers}
    (h : Holds state.2 state.1.registers.pc (opcode :: v :: rest)) (hready : state.1.Ready)
    (hdecode : Instruction.decode opcode = ⟨m, .immediate, 2, 0⟩)
    (heffect : m.effect = .reads update) (hpc : ∀ r v, (update r v).pc = r.pc) :
    Reads m v state ∧ Holds (afterStep state).2 (afterStep state).1.registers.pc rest := by
  have hinstruction := h.instruction.trans hdecode
  have hbyte : byteAt state = v := h.immediate (by rw [hdecode])
  have hsize : (instructionAt state).size = 1 + 1 := by
    rw [hinstruction]
    cases m <;> rfl
  have hreads : (instructionAt state).mnemonic.effect = .reads update := by
    rw [hinstruction]
    exact heffect
  have hmemory : (afterStep state).2 = state.2 := by
    rw [(afterStep_execute hready).2]
    unfold execute
    rw [hreads]
    exact space_operandAt state
  refine ⟨⟨by rw [hinstruction], hbyte⟩, ?_⟩
  rw [hmemory, registers_reads hready hreads, hpc]
  show Holds state.2 (state.1.registers.pc + (instructionAt state).size) rest
  rw [hsize, ← UInt16.add_assoc]
  exact h.2.2

/-- An instruction about registers goes on to the next one. -/
theorem Holds.internal {rest : List UInt8} {update : Registers → Registers}
    (h : Holds state.2 state.1.registers.pc (opcode :: rest)) (hready : state.1.Ready)
    (hdecode : Instruction.decode opcode = ⟨m, .implied, 2, 0⟩)
    (heffect : m.effect = .internal update) (hpc : ∀ r, (update r).pc = r.pc) (hm : m ≠ .brk) :
    (instructionAt state).mnemonic = m ∧
      Holds (afterStep state).2 (afterStep state).1.registers.pc rest := by
  have hinstruction := h.instruction.trans hdecode
  have hsize : (instructionAt state).size = 1 := by
    rw [hinstruction]
    cases m <;> first | rfl | exact absurd rfl hm
  have hinternal : (instructionAt state).mnemonic.effect = .internal update := by
    rw [hinstruction]
    exact heffect
  have hmemory : (afterStep state).2 = state.2 := by
    rw [(afterStep_execute hready).2]
    unfold execute
    rw [hinternal]
    exact space_operandAt state
  refine ⟨by rw [hinstruction], ?_⟩
  rw [hmemory, registers_internal hready hinternal, hpc]
  show Holds state.2 (state.1.registers.pc + (instructionAt state).size) rest
  rw [hsize]
  exact h.2

theorem exists_combines {operand : UInt8 → UInt8} (hadds : Adds m operand)
    (hdecode : Instruction.decode opcode = ⟨m, .immediate, 2, 0⟩) (hready : state.1.Ready)
    (hdigits : digits ≠ [])
    (h : Holds state.2 state.1.registers.pc (combiningCode opcode digits)) :
    ∃ results final, Combines m digits state results final := by
  induction digits generalizing state with
  | nil => exact absurd rfl hdigits
  | cons digit rest ih =>
      obtain ⟨hload, hcode⟩ := Holds.reads h hready (m := .lda) rfl rfl fun r v => rfl
      obtain ⟨hread, hcode⟩ := hcode.reads hready.afterStep hdecode hadds fun r v => rfl
      by_cases hrest : rest = []
      · subst hrest
        exact ⟨_, _, .last hload hread⟩
      · obtain ⟨results, final, hcombines⟩ := ih hready.afterStep.afterStep hrest hcode
        exact ⟨_, final, .more hload hread (.done _) hcombines⟩

/-- With an instruction for the carry in front, the code is a program for any two numbers. -/
theorem exists_prepared {prepare : UInt8} {p : Mnemonic} {update : Registers → Registers}
    {operand : UInt8 → UInt8} (hprepare : Instruction.decode prepare = ⟨p, .implied, 2, 0⟩)
    (heffect : p.effect = .internal update) (hpc : ∀ r, (update r).pc = r.pc) (hp : p ≠ .brk)
    (hadds : Adds m operand) (hdecode : Instruction.decode opcode = ⟨m, .immediate, 2, 0⟩)
    (hready : state.1.Ready) (hdigits : digits ≠ [])
    (h : Holds state.2 state.1.registers.pc (prepare :: combiningCode opcode digits)) :
    ∃ results final, (instructionAt state).mnemonic = p ∧
      ∃ first, Between (afterStep state) first ∧ Combines m digits first results final := by
  obtain ⟨hprepares, hcode⟩ := h.internal hready hprepare heffect hpc hp
  obtain ⟨results, final, hcombines⟩ :=
    exists_combines hadds hdecode hready.afterStep hdigits hcode
  exact ⟨results, final, hprepares, _, .done _, hcombines⟩

end

/-- **Arithmetic of several bytes.** A processor that neither waits nor has an interrupt
latched, in whatever state it is otherwise, runs a program on two numbers of the same count
of bytes. Between the bytes the program may do anything that leaves the carry alone; loads
and stores, and counting up and down, are among that.

* If it clears the carry and adds the bytes, the bytes of the result are the sum modulo the
  count of such numbers. The carry is set if the sum is not one of them, and the overflow if
  the sum is none with a sign.
* If it sets the carry and subtracts the bytes, the result is the difference in the same way.
  The carry is set if the first number is not the smaller one, the overflow if the
  difference is none with a sign, and sign and overflow differ if the first number is the
  smaller one with a sign.
* Code for either is such a program, wherever it stands in memory without side effects. -/
theorem multibyte_arithmetic {σ : Type} [AddressSpace σ] (start : Processor × σ)
    (hready : start.1.Ready) (digits : List (UInt8 × UInt8)) :
    let a := digits.map Prod.fst
    let b := digits.map Prod.snd
    let n := digits.length
    (∀ results final, Sums digits start results final →
      results.length = n ∧ number results = (number a + number b) % 256 ^ n ∧
      (carryOf final = true ↔ 256 ^ n ≤ number a + number b) ∧
      (final.1.registers.p.has Status.overflow = true ↔ ¬ Fits n (signed a + signed b))) ∧
    (∀ results final, Differences digits start results final →
      results.length = n ∧ (number results : Int) = (number a - number b) % 256 ^ n ∧
      (carryOf final = true ↔ number b ≤ number a) ∧
      (final.1.registers.p.has Status.overflow = true ↔ ¬ Fits n (signed a - signed b)) ∧
      ((final.1.registers.p.has Status.negative ^^ final.1.registers.p.has Status.overflow) = true ↔
        signed a < signed b)) ∧
    (∀ state : Processor × σ, state.1.Ready →
      (instructionAt state).mnemonic ∈
          [Mnemonic.lda, .sta, .inx, .dex, .iny, .dey, .inc, .dec] →
        carryOf (afterStep state) = carryOf state) ∧
    (digits ≠ [] → ∀ m : FlatMemory,
      (Holds m start.1.registers.pc (0x18 :: combiningCode 0x69 digits) →
        ∃ results final, Sums digits (start.1, m) results final) ∧
      (Holds m start.1.registers.pc (0x38 :: combiningCode 0xE9 digits) →
        ∃ results final, Differences digits (start.1, m) results final)) := by
  intro a b n
  have hwith (m : FlatMemory) : (start.1, m).1.Ready := hready
  refine ⟨fun results final hsums => hsums.correct hready,
    fun results final hdifferences => hdifferences.correct hready, fun state hready' hmem => ?_,
    fun hdigits m => ⟨fun hcode => ?_, fun hcode => ?_⟩⟩
  · refine carry_afterStep hready' ?_
    simp only [List.mem_cons, List.not_mem_nil, or_false] at hmem
    rcases hmem with h | h | h | h | h | h | h | h <;> rw [h] <;> rfl
  · exact exists_prepared (p := .clc) rfl rfl (fun r => rfl) nofun adds_adc rfl (hwith m)
      hdigits hcode
  · exact exists_prepared (p := .sec) rfl rfl (fun r => rfl) nofun adds_sbc rfl (hwith m)
      hdigits hcode

/-- With decimal mode set, $7FFF and one, and then one less than nothing. -/
theorem multibyte_arithmetic_edges :
    let c := { powerOff with registers := { Registers.powerOn with p := ⟨0x2C⟩ } }
    let add : Processor × FlatMemory :=
      (c, .ofImage 0 #[0x18, 0xA9, 0xFF, 0x69, 0x01, 0xA9, 0x7F, 0x69, 0x00])
    let subtract : Processor × FlatMemory :=
      (c, .ofImage 0 #[0x38, 0xA9, 0x00, 0xE9, 0x01, 0xA9, 0x00, 0xE9, 0x00])
    c.Ready ∧ c.registers.p.has Status.decimal = true ∧
      (∃ results final, Sums [(0xFF, 0x01), (0x7F, 0x00)] add results final ∧
        number results = 0x8000 ∧ carryOf final = false ∧
        final.1.registers.p.has Status.overflow = true) ∧
      ∃ results final, Differences [(0x00, 0x01), (0x00, 0x00)] subtract results final ∧
        number results = 0xFFFF ∧ carryOf final = false := by
  intro c add subtract
  have hready : c.Ready := ⟨rfl, rfl⟩
  obtain ⟨hadd, -, -, hadding⟩ :=
    multibyte_arithmetic add hready [(0xFF, 0x01), (0x7F, 0x00)]
  obtain ⟨-, hsubtract, -, hsubtracting⟩ :=
    multibyte_arithmetic subtract hready [(0x00, 0x01), (0x00, 0x00)]
  obtain ⟨sum, summed, hsums⟩ := (hadding (List.cons_ne_nil _ _) add.2).1
    (holds_ofImage (0x18 :: combiningCode 0x69 [(0xFF, 0x01), (0x7F, 0x00)]) (by decide))
  obtain ⟨difference, subtracted, hdifferences⟩ :=
    (hsubtracting (List.cons_ne_nil _ _) subtract.2).2
      (holds_ofImage (0x38 :: combiningCode 0xE9 [(0x00, 0x01), (0x00, 0x00)]) (by decide))
  obtain ⟨-, hsum, hcarry, hoverflow⟩ := hadd sum summed hsums
  obtain ⟨-, hdifference, hborrow, -⟩ := hsubtract difference subtracted hdifferences
  refine ⟨hready, by decide, ⟨sum, summed, hsums, hsum, ?_, hoverflow.2 (by decide)⟩,
    difference, subtracted, hdifferences, ?_, ?_⟩
  · exact Bool.eq_false_iff.2 (mt hcarry.1 (by decide))
  · exact Int.natCast_inj.1 hdifference
  · exact Bool.eq_false_iff.2 (mt hborrow.1 (by decide))

end Famicom.Cpu
