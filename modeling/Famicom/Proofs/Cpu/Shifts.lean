import Famicom.Proofs.Cpu.Programs
import Mathlib.Data.List.Nodup
import Mathlib.Data.Nat.ModEq

/-!
# Shifts of several bytes

A program shifts a number in memory byte by byte. To the left it begins with the lowest
byte, to the right with the highest one, and the bit that leaves one byte waits in the
carry for the next.

* **cells** — a shift changes its own byte, and no read changes any
  (`afterStep_modifies`);
* **byte** — what a shift makes of a byte and the carry is as much as they were, twice or
  half (`doubles_exact`, `halves_exact`);
* **chain** — so it is with all bytes of a number (`Shifts.doubles`, `Shifts.halves`);
* **circle** — number and carry are bits in a circle, and a chain turns it by one
  (`turn_left`, `turn_right`), so that in the end it has been turned around
  (`eq_of_turned`).

`multibyte_shifts` is about the processor on any bus, as far as it is memory; in memory
without side effects there is a program for any chain (`exists_shifts`).
-/

namespace Famicom.Cpu

open AddressSpace Processor

section

variable {σ : Type} [AddressSpace σ]

/-! ## Cells -/

/-- The byte in a cell. -/
def contents (s : σ) (x : UInt16) : UInt8 := (AddressSpace.read x s).1

variable (σ) in
/-- These addresses are cells of memory: no read changes what is in them, and a write
changes one of them. -/
structure Cells (xs : List UInt16) : Prop where
  read : ∀ x ∈ xs, ∀ y (s : σ), contents (AddressSpace.read y s).2 x = contents s x
  write : ∀ x ∈ xs, ∀ v (s : σ), contents (AddressSpace.write x v s) x = v
  others : ∀ x ∈ xs, ∀ y ∈ xs, x ≠ y → ∀ v (s : σ),
    contents (AddressSpace.write y v s) x = contents s x

variable {xs : List UInt16} {x : UInt16} {m : Mnemonic} {state mid final : Processor × σ}

/-- Finding an operand takes reads only. -/
theorem resolve_reads {P : σ → Prop} (h : ∀ y s, P s → P (AddressSpace.read y s).2) (mode : Mode)
    (r : Registers) {s : σ} (hs : P s) : P (Operand.resolve mode r s).2 := by
  have hword {s : σ} (y : UInt16) (hs : P s) : P (AddressSpace.readWord y s).2 :=
    h _ _ (h _ _ hs)
  have hpage {s : σ} (y : UInt16) (hs : P s) : P (AddressSpace.readWordInPage y s).2 :=
    h _ _ (h _ _ hs)
  cases mode with
  | implied | accumulator | immediate => exact hs
  | zeroPage | zeroPageX | zeroPageY | relative => exact h _ _ hs
  | absolute | absoluteX | absoluteY => exact hword _ hs
  | indirect => exact hpage _ (hword _ hs)
  | indexedIndirect | indirectIndexed => exact hpage _ (h _ _ hs)

theorem contents_operandAt (hcells : Cells σ xs) (hx : x ∈ xs) (state : Processor × σ) :
    contents (operandAt state).2 x = contents state.2 x :=
  resolve_reads (P := fun s => contents s x = contents state.2 x)
    (fun y s hs => (hcells.read x hx y s).trans hs) _ _ (hcells.read x hx _ _)

/-- The next instruction replaces the byte in this cell. -/
structure Modifies (m : Mnemonic) (x : UInt16) (state : Processor × σ) : Prop where
  mnemonic : (instructionAt state).mnemonic = m
  mode : (instructionAt state).mode ≠ .accumulator
  address : (operandAt state).1.address = x

/-- **An instruction that replaces a byte** leaves what it makes of it in the cell, the
flags that belong to it, and every other cell as it was. -/
theorem afterStep_modifies (hcells : Cells σ xs) (hx : x ∈ xs) (hready : state.1.Ready)
    (h : Modifies m x state) {update : Status → UInt8 → Status × UInt8}
    (heffect : m.effect = .modifies update) :
    let result := update state.1.registers.p (contents state.2 x)
    contents (afterStep state).2 x = result.2 ∧ (afterStep state).1.registers.p = result.1 ∧
      ∀ y ∈ xs, y ≠ x → contents (afterStep state).2 y = contents state.2 y := by
  have hmodifies : (instructionAt state).mnemonic.effect = .modifies update := by
    rw [h.mnemonic, heffect]
  obtain ⟨hregisters, hspace⟩ := afterStep_execute hready
  unfold execute at hregisters hspace
  rw [hmodifies] at hregisters hspace
  simp only [if_neg h.mode, h.address] at hregisters hspace
  have hbyte : (AddressSpace.read x (operandAt state).2).1 = contents state.2 x :=
    contents_operandAt hcells hx state
  have hp : (advanced state).p = state.1.registers.p := rfl
  rw [hbyte, hp] at hregisters hspace
  rw [hregisters, hspace]
  refine ⟨hcells.write x hx _ _, rfl, fun y hy hne => ?_⟩
  rw [hcells.others y hy x hx hne, hcells.read y hy, contents_operandAt hcells hy]

/-! ## Programs that shift -/

/-- One state is like another in these cells, and in the carry. -/
structure Same (xs : List UInt16) (state state' : Processor × σ) : Prop where
  carry : carryOf state' = carryOf state
  contents : ∀ x ∈ xs, contents state'.2 x = contents state.2 x

theorem Same.refl (xs : List UInt16) (state : Processor × σ) : Same xs state state :=
  ⟨rfl, fun _ _ => rfl⟩

theorem Same.trans (h : Same xs state mid) (h' : Same xs mid final) : Same xs state final :=
  ⟨h'.carry.trans h.carry, fun x hx => (h'.contents x hx).trans (h.contents x hx)⟩

/-- A program that shifts one cell after the other. In between it may do anything that
leaves the carry and the cells alone. -/
inductive Shifts (xs : List UInt16) :
    List (Mnemonic × UInt16) → Processor × σ → Processor × σ → Prop
  | done (state : Processor × σ) : Shifts xs [] state state
  | shift {m : Mnemonic} {x : UInt16} {rest : List (Mnemonic × UInt16)}
      {state final : Processor × σ} :
      Modifies m x state → Shifts xs rest (afterStep state) final →
        Shifts xs ((m, x) :: rest) state final
  | between {script : List (Mnemonic × UInt16)} {state final : Processor × σ} :
      (instructionAt state).mnemonic.sparesCarry = true →
        (∀ x ∈ xs, contents (afterStep state).2 x = contents state.2 x) →
          Shifts xs script (afterStep state) final → Shifts xs script state final

variable {script rest front back : List (Mnemonic × UInt16)}

theorem Shifts.ready (h : Shifts xs script state final) (hready : state.1.Ready) :
    final.1.Ready := by
  induction h with
  | done state => exact hready
  | shift _ _ ih | between _ _ _ ih => exact ih hready.afterStep

/-- In front of the next shift nothing has happened to the cells. -/
theorem Shifts.cons (h : Shifts xs ((m, x) :: rest) state final) (hready : state.1.Ready) :
    ∃ mid, Same xs state mid ∧ mid.1.Ready ∧ Modifies m x mid ∧
      Shifts xs rest (afterStep mid) final := by
  generalize hscript : (m, x) :: rest = script at h
  induction h with
  | done state => cases hscript
  | @shift m' x' rest' state final hmodifies hrest _ =>
      cases hscript
      exact ⟨state, .refl xs state, hready, hmodifies, hrest⟩
  | @between script state final hspares hsame _ ih =>
      obtain ⟨mid, hmid, hready', hmodifies, hrest⟩ := ih hready.afterStep hscript
      have hstep : Same xs state (afterStep state) := ⟨carry_afterStep hready hspares, hsame⟩
      exact ⟨mid, hstep.trans hmid, hready', hmodifies, hrest⟩

theorem Shifts.nil (h : Shifts xs [] state final) (hready : state.1.Ready) :
    Same xs state final := by
  generalize hscript : ([] : List (Mnemonic × UInt16)) = script at h
  induction h with
  | done state => exact .refl xs state
  | shift => cases hscript
  | @between script state final hspares hsame _ ih =>
      have hstep : Same xs state (afterStep state) := ⟨carry_afterStep hready hspares, hsame⟩
      exact hstep.trans (ih hready.afterStep hscript)

theorem Shifts.append (h : Shifts xs (front ++ back) state final) :
    ∃ mid, Shifts xs front state mid ∧ Shifts xs back mid final := by
  generalize hscript : front ++ back = script at h
  induction h generalizing front with
  | done state =>
      obtain ⟨rfl, rfl⟩ := List.append_eq_nil_iff.1 hscript
      exact ⟨state, .done state, .done state⟩
  | @shift m x rest state final hmodifies hrest ih =>
      cases front with
      | nil =>
          rw [List.nil_append] at hscript
          subst hscript
          exact ⟨state, .done state, .shift hmodifies hrest⟩
      | cons step front =>
          rw [List.cons_append, List.cons.injEq] at hscript
          obtain ⟨rfl, hscript⟩ := hscript
          obtain ⟨mid, hfront, hback⟩ := ih hscript
          exact ⟨mid, .shift hmodifies hfront, hback⟩
  | between hspares hsame _ ih =>
      obtain ⟨mid, hfront, hback⟩ := ih hscript
      exact ⟨mid, .between hspares hsame hfront, hback⟩

/-! ## One byte -/

/-- The bit that a shift brings into a byte: the rotations take the carry, the others
nothing. -/
def Mnemonic.bitIn (carry : Bool) : Mnemonic → Nat
  | rol | ror => carry.toNat
  | _ => 0

theorem toNat_hasBits_high (v : UInt8) : (hasBits v 0x80).toNat = v.toNat / 128 := by
  have hv := v.toNat_lt
  rw [Byte.hasBits_eq_testBit v 7 rfl, Nat.toNat_testBit]
  omega

theorem toNat_hasBits_low (v : UInt8) : (hasBits v 0x01).toNat = v.toNat % 2 := by
  rw [Byte.hasBits_eq_testBit v 0 rfl, Nat.toNat_testBit, Nat.pow_zero, Nat.div_one]

/-- A shift to the left. -/
def Mnemonic.Doubles (m : Mnemonic) : Prop := m = .asl ∨ m = .rol

/-- A shift to the right. -/
def Mnemonic.Halves (m : Mnemonic) : Prop := m = .lsr ∨ m = .ror

/-- **A shift to the left** doubles byte and incoming bit; what is too much is in the carry. -/
theorem doubles_exact (hm : m.Doubles) :
    ∃ update, m.effect = .modifies update ∧ ∀ p v,
      (update p v).2.toNat + 256 * ((update p v).1.has Status.carry).toNat =
        2 * v.toNat + m.bitIn (p.has Status.carry) := by
  have hdouble (v : UInt8) : (v <<< 1).toNat = 2 * v.toNat % 256 := by
    rw [UInt8.toNat_shiftLeft, Nat.shiftLeft_eq]
    simp only [UInt8.reduceToNat, Nat.reduceMod, Nat.reducePow]
    omega
  rcases hm with rfl | rfl
  · refine ⟨Status.shiftLeft, rfl, fun p v => ?_⟩
    have hv := v.toNat_lt
    simp only [Status.shiftLeft, Status.carry_withResult, Status.carry_assign_carry,
      toNat_hasBits_high, hdouble, Mnemonic.bitIn]
    omega
  · refine ⟨Status.rotateLeft, rfl, fun p v => ?_⟩
    have hv := v.toNat_lt
    have hlow : (v <<< 1 ||| p.carryBit).toNat =
        2 * v.toNat % 256 + (p.has Status.carry).toNat := by
      unfold Status.carryBit
      cases p.has Status.carry with
      | false => simp only [Bool.false_eq_true, if_false, UInt8.or_zero, hdouble, Bool.toNat_false,
          Nat.add_zero]
      | true =>
          simp only [if_true, Byte.toNat_or_one, hdouble, Bool.toNat_true]
          omega
    simp only [Status.rotateLeft, Status.carry_withResult, Status.carry_assign_carry,
      toNat_hasBits_high, hlow, Mnemonic.bitIn]
    omega

/-- **A shift to the right** halves byte and incoming bit; the remainder is in the carry. -/
theorem halves_exact (hm : m.Halves) :
    ∃ update, m.effect = .modifies update ∧ ∀ p v,
      2 * (update p v).2.toNat + ((update p v).1.has Status.carry).toNat =
        v.toNat + 256 * m.bitIn (p.has Status.carry) := by
  have hhalf (v : UInt8) : (v >>> 1).toNat = v.toNat / 2 := by
    rw [UInt8.toNat_shiftRight, Nat.shiftRight_eq_div_pow]
    rfl
  rcases hm with rfl | rfl
  · refine ⟨Status.shiftRight, rfl, fun p v => ?_⟩
    simp only [Status.shiftRight, Status.carry_withResult, Status.carry_assign_carry,
      toNat_hasBits_low, hhalf, Mnemonic.bitIn]
    omega
  · refine ⟨Status.rotateRight, rfl, fun p v => ?_⟩
    have hv := v.toNat_lt
    have hhigh : (v >>> 1 ||| p.carryBit <<< 7).toNat =
        v.toNat / 2 + 128 * (p.has Status.carry).toNat := by
      unfold Status.carryBit
      cases p.has Status.carry with
      | false =>
          have hzero : (0 : UInt8) <<< 7 = 0 := rfl
          simp only [Bool.false_eq_true, if_false, hzero, UInt8.or_zero, hhalf, Bool.toNat_false,
            Nat.mul_zero, Nat.add_zero]
      | true =>
          have hor := Nat.shiftLeft_add_eq_or_of_lt (show v.toNat / 2 < 2 ^ 7 by omega) 1
          rw [if_pos rfl, UInt8.or_comm, UInt8.toNat_or, hhalf]
          show 1 <<< 7 ||| v.toNat / 2 = _
          rw [← hor, Bool.toNat_true]
          omega
    simp only [Status.rotateRight, Status.carry_withResult, Status.carry_assign_carry,
      toNat_hasBits_low, hhigh, Mnemonic.bitIn]
    omega

/-! ## All bytes -/

/-- The bytes in some cells. -/
def bytesIn (xs : List UInt16) (state : Processor × σ) : List UInt8 := xs.map (contents state.2)

@[simp] theorem length_bytesIn (xs : List UInt16) (state : Processor × σ) :
    (bytesIn xs state).length = xs.length :=
  List.length_map _

theorem bytesIn_congr {ys : List UInt16} {state state' : Processor × σ}
    (h : ∀ y ∈ ys, contents state'.2 y = contents state.2 y) :
    bytesIn ys state' = bytesIn ys state :=
  List.map_congr_left h

/-- One cell after the other is shifted, the first one by an instruction of its own. -/
def chain (head rest : Mnemonic) : List UInt16 → List (Mnemonic × UInt16)
  | [] => []
  | x :: xs => (head, x) :: chain rest rest xs

/-- The first shift of a chain, with all that it leaves alone. -/
theorem Shifts.head (ys : List UInt16) (hcells : Cells σ xs) (hx : x ∈ xs)
    (hys : ∀ y ∈ ys, y ∈ xs ∧ y ≠ x) {update : Status → UInt8 → Status × UInt8}
    (heffect : m.effect = .modifies update) (hready : state.1.Ready)
    (h : Shifts xs ((m, x) :: rest) state final) :
    ∃ next p, next.1.Ready ∧ p.has Status.carry = carryOf state ∧
      contents next.2 x = (update p (contents state.2 x)).2 ∧
      carryOf next = (update p (contents state.2 x)).1.has Status.carry ∧
      bytesIn ys next = bytesIn ys state ∧
      (∀ y ∈ xs, y ≠ x → contents next.2 y = contents state.2 y) ∧
      Shifts xs rest next final := by
  obtain ⟨mid, hsame, hready', hmodifies, hrest⟩ := h.cons hready
  obtain ⟨hbyte, hp, hothers⟩ := afterStep_modifies hcells hx hready' hmodifies heffect
  rw [hsame.contents x hx] at hbyte hp
  have hframe (y : UInt16) (hy : y ∈ xs) (hne : y ≠ x) :
      contents (afterStep mid).2 y = contents state.2 y :=
    (hothers y hy hne).trans (hsame.contents y hy)
  exact ⟨afterStep mid, mid.1.registers.p, hready'.afterStep, hsame.carry, hbyte,
    congrArg (fun p : Status => p.has Status.carry) hp,
    bytesIn_congr fun y hy => hframe y (hys y hy).1 (hys y hy).2, hframe, hrest⟩

/-- **A chain to the left doubles a number**, with the bit that comes in. -/
theorem Shifts.doubles (hcells : Cells σ xs) {ys : List UInt16} (hys : ∀ y ∈ ys, y ∈ xs)
    (hnodup : ys.Nodup) (hm : m.Doubles) (hhead : ys ≠ [] ∨ m = .rol) (hready : state.1.Ready)
    (h : Shifts xs (chain m .rol ys) state final) :
    number (bytesIn ys final) + 256 ^ ys.length * (carryOf final).toNat =
        2 * number (bytesIn ys state) + m.bitIn (carryOf state) ∧
      ∀ y ∈ xs, y ∉ ys → contents final.2 y = contents state.2 y := by
  induction ys generalizing m state with
  | nil =>
      obtain rfl : m = .rol := hhead.resolve_left fun hne => hne rfl
      have hsame := h.nil hready
      refine ⟨?_, fun y hy _ => hsame.contents y hy⟩
      rw [hsame.carry]
      exact Nat.add_comm 0 _ |>.trans (by simp [Mnemonic.bitIn, bytesIn])
  | cons x ys ih =>
      obtain ⟨hnotIn, hnodup'⟩ := List.nodup_cons.1 hnodup
      have hx : x ∈ xs := hys x List.mem_cons_self
      have hys' (y : UInt16) (hy : y ∈ ys) : y ∈ xs := hys y (List.mem_cons_of_mem x hy)
      obtain ⟨update, heffect, hexact⟩ := doubles_exact hm
      obtain ⟨next, p, hready', hp, hbyte, hcarry, hothers, hframe, hrest⟩ :=
        Shifts.head ys hcells hx (fun y hy => ⟨hys' y hy, fun heq => hnotIn (heq ▸ hy)⟩) heffect
          hready h
      obtain ⟨hsum, hkept⟩ := ih hys' hnodup' (.inr rfl) (.inr rfl) hready' hrest
      have hfirst := hexact p (contents state.2 x)
      rw [← hbyte, ← hcarry, hp] at hfirst
      refine ⟨?_, fun y hy hne => ?_⟩
      · show number (contents final.2 x :: bytesIn ys final) + _ = _
        rw [hkept x hx hnotIn, number_cons]
        show _ = 2 * number (contents state.2 x :: bytesIn ys state) + _
        rw [number_cons, List.length_cons, Nat.pow_succ, Nat.mul_right_comm _ 256, ← hothers]
        have hbit : Mnemonic.bitIn (carryOf next) .rol = (carryOf next).toNat := rfl
        rw [hbit] at hsum
        omega
      · obtain ⟨hnex, hney⟩ := List.ne_and_not_mem_of_not_mem_cons hne
        rw [hkept y hy hney, hframe y hy hnex]

/-- **A chain to the right halves a number**, with the bit that comes in above it. The
cells are in the order in which they are shifted. -/
theorem Shifts.halves (hcells : Cells σ xs) {ys : List UInt16} (hys : ∀ y ∈ ys, y ∈ xs)
    (hnodup : ys.Nodup) (hm : m.Halves) (hhead : ys ≠ [] ∨ m = .ror) (hready : state.1.Ready)
    (h : Shifts xs (chain m .ror ys) state final) :
    2 * number (bytesIn ys.reverse final) + (carryOf final).toNat =
        number (bytesIn ys.reverse state) + 256 ^ ys.length * m.bitIn (carryOf state) ∧
      ∀ y ∈ xs, y ∉ ys → contents final.2 y = contents state.2 y := by
  induction ys generalizing m state with
  | nil =>
      obtain rfl : m = .ror := hhead.resolve_left fun hne => hne rfl
      have hsame := h.nil hready
      refine ⟨?_, fun y hy _ => hsame.contents y hy⟩
      rw [hsame.carry]
      simp [Mnemonic.bitIn, bytesIn]
  | cons x ys ih =>
      obtain ⟨hnotIn, hnodup'⟩ := List.nodup_cons.1 hnodup
      have hx : x ∈ xs := hys x List.mem_cons_self
      have hys' (y : UInt16) (hy : y ∈ ys) : y ∈ xs := hys y (List.mem_cons_of_mem x hy)
      obtain ⟨update, heffect, hexact⟩ := halves_exact hm
      obtain ⟨next, p, hready', hp, hbyte, hcarry, hothers, hframe, hrest⟩ :=
        Shifts.head ys.reverse hcells hx
          (fun y hy => ⟨hys' y (List.mem_reverse.1 hy),
            fun heq => hnotIn (heq ▸ List.mem_reverse.1 hy)⟩) heffect hready h
      obtain ⟨hsum, hkept⟩ := ih hys' hnodup' (.inr rfl) (.inr rfl) hready' hrest
      have hfirst := hexact p (contents state.2 x)
      rw [← hbyte, ← hcarry, hp] at hfirst
      have hhigh (state : Processor × σ) : number (bytesIn (x :: ys).reverse state) =
          number (bytesIn ys.reverse state) + 256 ^ ys.length * (contents state.2 x).toNat := by
        rw [List.reverse_cons, bytesIn, List.map_append, number_append, List.length_map,
          List.length_reverse]
        show _ + _ * number [contents state.2 x] = _
        rw [number_cons, number_nil, Nat.mul_zero, Nat.add_zero]
        rfl
      refine ⟨?_, fun y hy hne => ?_⟩
      · have hbit : Mnemonic.bitIn (carryOf next) .ror = (carryOf next).toNat := rfl
        rw [hbit, hothers] at hsum
        rw [hhigh, hhigh, hkept x hx hnotIn, List.length_cons, Nat.pow_succ]
        -- the bit between the bytes is in the sum of the first byte and in that of the others
        have hscaled := congrArg (256 ^ ys.length * ·) hfirst
        simp only [Nat.mul_add] at hscaled
        have hassoc : 256 ^ ys.length * 256 * m.bitIn (carryOf state) =
            256 ^ ys.length * (256 * m.bitIn (carryOf state)) := Nat.mul_assoc _ _ _
        have htwo : 256 ^ ys.length * (2 * (contents next.2 x).toNat) =
            2 * (256 ^ ys.length * (contents next.2 x).toNat) := Nat.mul_left_comm _ _ _
        omega
      · obtain ⟨hnex, hney⟩ := List.ne_and_not_mem_of_not_mem_cons hne
        rw [hkept y hy hney, hframe y hy hnex]

/-! ## The circle -/

/-- Number and carry as one number, the carry on top. -/
def circle (xs : List UInt16) (state : Processor × σ) : Nat :=
  number (bytesIn xs state) + 256 ^ xs.length * (carryOf state).toNat

theorem number_bytesIn_lt (xs : List UInt16) (state : Processor × σ) :
    number (bytesIn xs state) < 256 ^ xs.length := by
  have hlt := number_lt (bytesIn xs state)
  rwa [length_bytesIn] at hlt

theorem circle_lt (xs : List UInt16) (state : Processor × σ) :
    circle xs state < 2 * 256 ^ xs.length := by
  have hlt := number_bytesIn_lt xs state
  have hcarry := Nat.mul_le_mul_left (256 ^ xs.length) (Bool.toNat_le (carryOf state))
  unfold circle
  omega

/-- The bytes and the carry are in it. -/
theorem circle_inj {state state' : Processor × σ} (h : circle xs state' = circle xs state) :
    bytesIn xs state' = bytesIn xs state ∧ carryOf state' = carryOf state := by
  have hlt := number_bytesIn_lt xs state
  have hlt' := number_bytesIn_lt xs state'
  have hnumber : number (bytesIn xs state') = number (bytesIn xs state) := by
    have hmod := congrArg (· % 256 ^ xs.length) h
    simp only [circle, Nat.add_mul_mod_self_left, Nat.mod_eq_of_lt hlt, Nat.mod_eq_of_lt hlt']
      at hmod
    exact hmod
  refine ⟨number_inj (by rw [length_bytesIn, length_bytesIn]) hnumber, ?_⟩
  rw [circle, circle, hnumber] at h
  have hcarry := Nat.eq_of_mul_eq_mul_left (Nat.pow_pos (by decide)) (Nat.add_left_cancel h)
  generalize carryOf state = carry at hcarry ⊢
  generalize carryOf state' = carry' at hcarry ⊢
  cases carry <;> cases carry' <;> first | rfl | cases hcarry

theorem circle_left (hcells : Cells σ xs) (hnodup : xs.Nodup) (hready : state.1.Ready)
    (h : Shifts xs (chain .rol .rol xs) state final) :
    circle xs final = 2 * number (bytesIn xs state) + (carryOf state).toNat :=
  (Shifts.doubles hcells (fun _ hx => hx) hnodup (.inr rfl) (.inr rfl) hready h).1

theorem circle_right (hcells : Cells σ xs) (hnodup : xs.Nodup) (hready : state.1.Ready)
    (h : Shifts xs (chain .ror .ror xs.reverse) state final) :
    2 * number (bytesIn xs final) + (carryOf final).toNat = circle xs state := by
  have hsum := (Shifts.halves hcells (fun _ hx => List.mem_reverse.1 hx)
    (List.nodup_reverse.2 hnodup) (.inr rfl) (.inr rfl) hready h).1
  rw [List.reverse_reverse, List.length_reverse] at hsum
  exact hsum

/-- A circle of so many bytes and one bit, turned to the left so many times. What leaves at
the top comes in again at the bottom, so that the bits at the top are a remainder. Only
nothing becomes nothing. -/
structure Turned (length times a b : Nat) : Prop where
  modEq : b ≡ 2 ^ times * a [MOD 2 * 256 ^ length - 1]
  zero : b = 0 ↔ a = 0

theorem Turned.refl (length a : Nat) : Turned length 0 a a :=
  ⟨by rw [Nat.pow_zero, Nat.one_mul], Iff.rfl⟩

theorem Turned.trans {length j k a b c : Nat} (h : Turned length j a b)
    (h' : Turned length k b c) : Turned length (j + k) a c := by
  refine ⟨h'.modEq.trans ?_, h'.zero.trans h.zero⟩
  rw [Nat.pow_add, Nat.mul_comm (2 ^ j), Nat.mul_assoc]
  exact h.modEq.mul_left _

/-- One turn, of the bit that is at the top. -/
theorem turned_once {length v : Nat} (bit : Bool) :
    Turned length 1 (v + 256 ^ length * bit.toNat) (2 * v + bit.toNat) := by
  have hpos : 0 < 256 ^ length := Nat.pow_pos (by decide)
  generalize hmodulus : 256 ^ length = modulus at hpos
  refine ⟨?_, ?_⟩
  · rw [hmodulus]
    have htwice : 2 ^ 1 * (v + modulus * bit.toNat) =
        2 * v + bit.toNat + (2 * modulus - 1) * bit.toNat := by
      rw [Nat.pow_one, Nat.sub_mul, Nat.mul_add, Nat.mul_assoc]
      have hle : bit.toNat ≤ 2 * (modulus * bit.toNat) := by
        have hmul := Nat.le_mul_of_pos_left bit.toNat hpos
        omega
      omega
    rw [htwice]
    exact Nat.left_modEq_add_iff.2 (Dvd.intro _ rfl)
  · cases bit with
    | false => simp
    | true =>
        simp only [Bool.toNat_true, Nat.mul_one]
        omega

theorem turn_left (hcells : Cells σ xs) (hnodup : xs.Nodup) (hready : state.1.Ready)
    (h : Shifts xs (chain .rol .rol xs) state final) :
    Turned xs.length 1 (circle xs state) (circle xs final) := by
  rw [circle_left hcells hnodup hready h]
  exact turned_once (carryOf state)

/-- A chain to the right turns back. -/
theorem turn_right (hcells : Cells σ xs) (hnodup : xs.Nodup) (hready : state.1.Ready)
    (h : Shifts xs (chain .ror .ror xs.reverse) state final) :
    Turned xs.length 1 (circle xs final) (circle xs state) := by
  rw [← circle_right hcells hnodup hready h]
  exact turned_once (carryOf final)

/-- **A circle that has been turned by all its bits is what it was.** -/
theorem eq_of_turned {length a b : Nat} (h : Turned length (8 * length + 1) a b)
    (ha : a < 2 * 256 ^ length) (hb : b < 2 * 256 ^ length) : a = b := by
  have hpos : 0 < 256 ^ length := Nat.pow_pos (by decide)
  have hbits : 2 ^ (8 * length + 1) = (2 * 256 ^ length - 1) + 1 := by
    rw [Nat.pow_succ, Nat.pow_mul]
    show 256 ^ length * 2 = _
    omega
  have hmod : b ≡ a [MOD 2 * 256 ^ length - 1] := by
    refine h.modEq.trans ?_
    rw [hbits, Nat.add_mul, Nat.one_mul]
    exact Nat.add_modEq_right_iff.2 (Dvd.intro _ rfl)
  have hzero := h.zero
  by_cases hnothing : a = 0
  · rw [hnothing, hzero.2 hnothing]
  · -- both are from one up to the modulus
    have hb' : b ≠ 0 := mt hzero.1 hnothing
    have hpred : b - 1 + 1 ≡ a - 1 + 1 [MOD 2 * 256 ^ length - 1] := by
      rw [Nat.sub_add_cancel (Nat.pos_of_ne_zero hb'),
        Nat.sub_add_cancel (Nat.pos_of_ne_zero hnothing)]
      exact hmod
    have heq := (Nat.ModEq.add_right_cancel' 1 hpred).eq_of_lt_of_lt (by omega) (by omega)
    omega

/-- What one run of a script does to the circle, many runs do many times. -/
theorem Shifts.replicate {T : Nat → Nat → Nat → Prop} (hrefl : ∀ a, T 0 a a)
    (htrans : ∀ {k a b c}, T 1 a b → T k b c → T (k + 1) a c)
    (hscript : ∀ {state final : Processor × σ}, state.1.Ready → Shifts xs script state final →
      T 1 (circle xs state) (circle xs final)) {times : Nat} (hready : state.1.Ready)
    (h : Shifts xs (List.replicate times script).flatten state final) :
    T times (circle xs state) (circle xs final) := by
  induction times generalizing state with
  | zero =>
      have hsame := h.nil hready
      have hcircle : circle xs final = circle xs state := by
        rw [circle, circle, hsame.carry, bytesIn_congr hsame.contents]
      rw [hcircle]
      exact hrefl _
  | succ n ih =>
      rw [List.replicate_succ, List.flatten_cons] at h
      obtain ⟨mid, hfirst, hrest⟩ := h.append
      exact htrans (hscript hready hfirst) (ih (hfirst.ready hready) hrest)

/-- As many turns as there are bits, to the left or to the right. -/
theorem Shifts.around (hcells : Cells σ xs) (hnodup : xs.Nodup) (hready : state.1.Ready)
    (hscript : script = chain .rol .rol xs ∨ script = chain .ror .ror xs.reverse)
    (h : Shifts xs (List.replicate (8 * xs.length + 1) script).flatten state final) :
    circle xs final = circle xs state := by
  rcases hscript with rfl | rfl
  · have hturned := Shifts.replicate (T := Turned xs.length) (Turned.refl _)
      (fun {k a b c} hfirst hrest => Nat.add_comm 1 k ▸ hfirst.trans hrest)
      (fun hready h => turn_left hcells hnodup hready h) hready h
    exact (eq_of_turned hturned (circle_lt xs state) (circle_lt xs final)).symm
  · have hturned := Shifts.replicate (T := fun k a b => Turned xs.length k b a) (Turned.refl _)
      (fun hfirst hrest => hrest.trans hfirst)
      (fun hready h => turn_right hcells hnodup hready h) hready h
    exact eq_of_turned hturned (circle_lt xs final) (circle_lt xs state)

/-- A chain to the left and one to the right undo each other, in either order. -/
theorem Shifts.undoes (hcells : Cells σ xs) (hnodup : xs.Nodup) (hready : state.1.Ready)
    (hscript : script = chain .rol .rol xs ++ chain .ror .ror xs.reverse ∨
      script = chain .ror .ror xs.reverse ++ chain .rol .rol xs)
    (h : Shifts xs script state final) : circle xs final = circle xs state := by
  rcases hscript with rfl | rfl
  · obtain ⟨mid, hleft, hright⟩ := h.append
    have hmid := circle_left hcells hnodup hready hleft
    rw [← circle_right hcells hnodup (hleft.ready hready) hright] at hmid
    -- halves and remainders are the same
    have hcarry := Bool.toNat_le (carryOf state)
    have hcarry' := Bool.toNat_le (carryOf final)
    have hnumber : number (bytesIn xs final) = number (bytesIn xs state) := by omega
    rw [circle, circle, hnumber]
    congr 2
    omega
  · obtain ⟨mid, hright, hleft⟩ := h.append
    rw [circle_left hcells hnodup (hright.ready hready) hleft,
      circle_right hcells hnodup hready hright]

/-- The top bit of a number of so many bytes. -/
theorem testBit_top {length v : Nat} (hlength : length ≠ 0) (hv : v < 256 ^ length) :
    v.testBit (8 * length - 1) = decide (256 ^ length ≤ 2 * v) := by
  have hpower : 256 ^ length = 2 * 2 ^ (8 * length - 1) := by
    rw [← Nat.pow_succ', show (8 * length - 1).succ = 8 * length by omega, Nat.pow_mul]
  have hpos : 0 < 2 ^ (8 * length - 1) := Nat.two_pow_pos _
  rw [hpower] at hv ⊢
  rw [Nat.testBit_eq_decide_div_mod_eq]
  generalize 2 ^ (8 * length - 1) = half at *
  refine decide_eq_decide.2 ?_
  by_cases htop : half ≤ v
  · have hone : v / half = 1 := Nat.div_eq_of_lt_le (by omega) (by omega)
    omega
  · rw [Nat.div_eq_of_lt (Nat.lt_of_not_le htop)]
    omega

/-- A chain to the left, whatever it begins with. -/
theorem Shifts.left (hne : xs ≠ []) (hcells : Cells σ xs) (hnodup : xs.Nodup) (hm : m.Doubles)
    (hready : state.1.Ready) (h : Shifts xs (chain m .rol xs) state final) :
    number (bytesIn xs final) =
        (2 * number (bytesIn xs state) + m.bitIn (carryOf state)) % 256 ^ xs.length ∧
      carryOf final = (number (bytesIn xs state)).testBit (8 * xs.length - 1) := by
  have hlength : xs.length ≠ 0 := mt List.length_eq_zero_iff.1 hne
  have hsum := (Shifts.doubles hcells (fun _ hx => hx) hnodup hm (.inl hne) hready h).1
  have hlt := number_bytesIn_lt xs state
  have heven := even_modulus hlength
  have hbit : m.bitIn (carryOf state) ≤ 1 := by
    rcases hm with rfl | rfl
    · exact Nat.zero_le 1
    · exact Bool.toNat_le _
  obtain ⟨hresult, hcarry⟩ := eq_mod_of_carry (number_bytesIn_lt xs final) (by omega) hsum
  refine ⟨hresult, ?_⟩
  rw [testBit_top hlength hlt, Bool.eq_iff_iff, hcarry, decide_eq_true_iff]
  omega

/-- A chain to the right, whatever it begins with. -/
theorem Shifts.right (hne : xs ≠ []) (hcells : Cells σ xs) (hnodup : xs.Nodup) (hm : m.Halves)
    (hready : state.1.Ready) (h : Shifts xs (chain m .ror xs.reverse) state final) :
    number (bytesIn xs final) =
        (number (bytesIn xs state) + 256 ^ xs.length * m.bitIn (carryOf state)) / 2 ∧
      carryOf final = (number (bytesIn xs state)).testBit 0 := by
  have hsum := (Shifts.halves hcells (fun _ hx => List.mem_reverse.1 hx)
    (List.nodup_reverse.2 hnodup) hm (.inl (mt List.reverse_eq_nil_iff.1 hne)) hready h).1
  rw [List.reverse_reverse, List.length_reverse] at hsum
  have hcarry := Bool.toNat_le (carryOf final)
  refine ⟨by omega, ?_⟩
  have heven : 256 ^ xs.length * m.bitIn (carryOf state) % 2 = 0 := by
    rw [Nat.mul_mod, even_modulus (mt List.length_eq_zero_iff.1 hne), Nat.zero_mul]
  rw [Nat.testBit_zero]
  cases hfinal : carryOf final with
  | false =>
      rw [hfinal, Bool.toNat_false] at hsum
      exact (decide_eq_false (by omega)).symm
  | true =>
      rw [hfinal, Bool.toNat_true] at hsum
      exact (decide_eq_true (by omega)).symm

/-- The instruction is the same in the accumulator as in memory. -/
theorem accumulator_agrees {inA inMemory : Processor × σ} (hcells : Cells σ xs) (hx : x ∈ xs)
    {update : Status → UInt8 → Status × UInt8} (heffect : m.effect = .modifies update)
    (hready : inA.1.Ready) (hready' : inMemory.1.Ready)
    (hmnemonic : (instructionAt inA).mnemonic = m)
    (hmode : (instructionAt inA).mode = .accumulator) (h : Modifies m x inMemory)
    (ha : inA.1.registers.a = contents inMemory.2 x)
    (hp : inA.1.registers.p = inMemory.1.registers.p) :
    (afterStep inA).1.registers.a = contents (afterStep inMemory).2 x ∧
      (afterStep inA).1.registers.p = (afterStep inMemory).1.registers.p := by
  have hmodifies : (instructionAt inA).mnemonic.effect = .modifies update := by
    rw [hmnemonic, heffect]
  obtain ⟨hbyte, hstatus, -⟩ := afterStep_modifies hcells hx hready' h heffect
  have hregisters := (afterStep_execute hready).1
  unfold execute at hregisters
  rw [hmodifies] at hregisters
  simp only [if_pos hmode] at hregisters
  rw [hregisters, hbyte, hstatus, ← ha, ← hp]
  exact ⟨rfl, rfl⟩

end

/-! ## Code -/

theorem contents_flat (m : FlatMemory) (x : UInt16) : contents m x = m.read x.toNat := rfl

/-- Memory without side effects consists of cells. -/
theorem cells_flat (xs : List UInt16) : Cells FlatMemory xs where
  read _ _ _ _ := rfl
  write x _ v m := (read_write_flat m x x v).trans (if_pos rfl)
  others x _ y _ hne v m := (read_write_flat m y x v).trans (if_neg hne.symm)

/-- The opcodes of the shifts at an address that is part of the instruction. -/
def shiftOpcode : Mnemonic → UInt8
  | .asl => 0x0E
  | .lsr => 0x4E
  | .rol => 0x2E
  | _ => 0x6E

/-- The code that shifts one cell after the other. -/
def shiftingCode : List (Mnemonic × UInt16) → List UInt8
  | [] => []
  | (m, x) :: rest => shiftOpcode m :: Word.low x :: Word.high x :: shiftingCode rest

theorem decode_shiftOpcode {m : Mnemonic} (h : m ∈ [Mnemonic.asl, .lsr, .rol, .ror]) :
    Instruction.decode (shiftOpcode m) = ⟨m, .absolute, 6, 0⟩ ∧
      ∃ update, m.effect = .modifies update := by
  simp only [List.mem_cons, List.not_mem_nil, or_false] at h
  rcases h with rfl | rfl | rfl | rfl <;> exact ⟨rfl, _, rfl⟩

section

variable {state : Processor × FlatMemory} {script : List (Mnemonic × UInt16)}

/-- A shift writes to its cell, and goes on to the next one. -/
theorem Holds.shift {m : Mnemonic} {x : UInt16} {rest : List UInt8}
    (hm : m ∈ [Mnemonic.asl, .lsr, .rol, .ror]) (hready : state.1.Ready)
    (h : Holds state.2 state.1.registers.pc
      (shiftOpcode m :: Word.low x :: Word.high x :: rest)) :
    Modifies m x state ∧ (afterStep state).1.registers.pc = state.1.registers.pc + 1 + 1 + 1 ∧
      ∃ v, (afterStep state).2 = state.2.write x.toNat v := by
  obtain ⟨hdecode, update, heffect⟩ := decode_shiftOpcode hm
  have hinstruction := h.instruction.trans hdecode
  have hmode : (instructionAt state).mode ≠ .accumulator := by
    rw [hinstruction]
    nofun
  have haddress : (operandAt state).1.address = x := by
    rw [h.absolute (by rw [hdecode]), Word.ofBytes_low_high]
  have hsize : (instructionAt state).size = 1 + (1 + 1) := by
    rw [hinstruction]
    cases m <;> first | rfl | nomatch heffect
  have hmodifies : (instructionAt state).mnemonic.effect = .modifies update := by
    rw [hinstruction]
    exact heffect
  obtain ⟨hregisters, hspace⟩ := afterStep_execute hready
  unfold execute at hregisters hspace
  rw [hmodifies] at hregisters hspace
  simp only [if_neg hmode, haddress, space_operandAt] at hregisters hspace
  refine ⟨⟨by rw [hinstruction], hmode, haddress⟩, ?_, _, hspace⟩
  rw [hregisters]
  show state.1.registers.pc + (instructionAt state).size = _
  rw [hsize, ← UInt16.add_assoc, ← UInt16.add_assoc]

/-- **There is a program for any shifts**, if the cells are not among those of its code. -/
theorem exists_shifts (xs : List UInt16)
    (hscript : ∀ step ∈ script, step.1 ∈ [Mnemonic.asl, .lsr, .rol, .ror])
    (hready : state.1.Ready) (h : Holds state.2 state.1.registers.pc (shiftingCode script))
    (hapart : ∀ step ∈ script,
      step.2 ∉ places state.1.registers.pc (shiftingCode script).length) :
    ∃ final, Shifts xs script state final := by
  induction script generalizing state with
  | nil => exact ⟨state, .done state⟩
  | cons step rest ih =>
      obtain ⟨m, x⟩ := step
      obtain ⟨hmodifies, hpc, v, hmemory⟩ :=
        Holds.shift (hscript _ List.mem_cons_self) hready h
      have hcode : Holds (afterStep state).2 (afterStep state).1.registers.pc
          (shiftingCode rest) := by
        rw [hmemory]
        have hwritten := h.write (hapart _ List.mem_cons_self) v
        rw [hpc]
        exact hwritten.2.2.2
      obtain ⟨final, hrest⟩ := ih (fun step hstep => hscript step (List.mem_cons_of_mem _ hstep))
        hready.afterStep hcode fun step hstep hmem =>
          hapart step (List.mem_cons_of_mem _ hstep) (List.mem_cons_of_mem _
            (List.mem_cons_of_mem _ (List.mem_cons_of_mem _ (hpc ▸ hmem))))
      exact ⟨final, .shift hmodifies hrest⟩

end

/-- **Shifts of several bytes.** Some cells, at least one and none of them twice, hold a
number, the lowest byte first. A processor that neither waits nor has an interrupt latched
runs a program that shifts one of them after the other, and leaves them and the carry alone
in between.

* Rotated to the left from the lowest byte on, the number is doubled, with the carry at its
  lower end, and the carry is what was its top bit. Rotated to the right from the highest
  byte on, it is halved, with the carry at its upper end, and the carry is what was its
  lowest bit. If a shift comes first it is the same with nothing brought in.
* One direction undoes the other, bytes and carry; so do as many repetitions of one
  direction as there are bits, the carry included.
* A byte is shifted in the accumulator as it is in a cell.
* Code for any shifts is such a program, wherever it stands in memory without side effects
  and apart from the cells. -/
theorem multibyte_shifts {σ : Type} [AddressSpace σ] {xs : List UInt16} (hne : xs ≠ [])
    (hnodup : xs.Nodup) (hcells : Cells σ xs) (start : Processor × σ) (hready : start.1.Ready) :
    let n := xs.length
    let v := number (bytesIn xs start)
    let c := (carryOf start).toNat
    let left := chain .rol .rol xs
    let right := chain .ror .ror xs.reverse
    (∀ final, Shifts xs left start final →
      number (bytesIn xs final) = (2 * v + c) % 256 ^ n ∧
        carryOf final = v.testBit (8 * n - 1)) ∧
    (∀ final, Shifts xs right start final →
      number (bytesIn xs final) = (v + 256 ^ n * c) / 2 ∧ carryOf final = v.testBit 0) ∧
    (∀ final, Shifts xs (chain .asl .rol xs) start final →
      number (bytesIn xs final) = 2 * v % 256 ^ n ∧ carryOf final = v.testBit (8 * n - 1)) ∧
    (∀ final, Shifts xs (chain .lsr .ror xs.reverse) start final →
      number (bytesIn xs final) = v / 2 ∧ carryOf final = v.testBit 0) ∧
    (∀ script ∈ [left ++ right, right ++ left, (List.replicate (8 * n + 1) left).flatten,
        (List.replicate (8 * n + 1) right).flatten],
      ∀ final, Shifts xs script start final →
        bytesIn xs final = bytesIn xs start ∧ carryOf final = carryOf start) ∧
    (∀ m ∈ [Mnemonic.asl, .lsr, .rol, .ror], ∀ inA inMemory : Processor × σ, ∀ x ∈ xs,
      inA.1.Ready → inMemory.1.Ready →
      (instructionAt inA).mnemonic = m → (instructionAt inA).mode = .accumulator →
      Modifies m x inMemory → inA.1.registers.a = contents inMemory.2 x →
      inA.1.registers.p = inMemory.1.registers.p →
        (afterStep inA).1.registers.a = contents (afterStep inMemory).2 x ∧
          (afterStep inA).1.registers.p = (afterStep inMemory).1.registers.p) ∧
    ∀ (m : FlatMemory) (script : List (Mnemonic × UInt16)),
      (∀ step ∈ script, step.1 ∈ [Mnemonic.asl, .lsr, .rol, .ror] ∧
        step.2 ∉ places start.1.registers.pc (shiftingCode script).length) →
      Holds m start.1.registers.pc (shiftingCode script) →
        ∃ final, Shifts xs script (start.1, m) final := by
  intro n v c left right
  refine ⟨fun final h => h.left hne hcells hnodup (.inr rfl) hready,
    fun final h => h.right hne hcells hnodup (.inr rfl) hready,
    fun final h => h.left hne hcells hnodup (.inl rfl) hready,
    fun final h => h.right hne hcells hnodup (.inl rfl) hready, fun script hscript final h => ?_,
    fun m hm inA inMemory x hx hready hready' hmnemonic hmode h ha hp => ?_,
    fun m script hscript hcode => exists_shifts xs (fun step hstep => (hscript step hstep).1)
      hready hcode fun step hstep => (hscript step hstep).2⟩
  · refine circle_inj ?_
    simp only [List.mem_cons, List.not_mem_nil, or_false] at hscript
    rcases hscript with hscript | hscript | rfl | rfl
    · exact h.undoes hcells hnodup hready (.inl hscript)
    · exact h.undoes hcells hnodup hready (.inr hscript)
    · exact h.around hcells hnodup hready (.inl rfl)
    · exact h.around hcells hnodup hready (.inr rfl)
  · simp only [List.mem_cons, List.not_mem_nil, or_false] at hm
    rcases hm with rfl | rfl | rfl | rfl <;>
      exact accumulator_agrees hcells hx rfl hready hready' hmnemonic hmode h ha hp

/-- Some shifts in memory, and the word $8081 at $0200. -/
def wordMemory (script : List (Mnemonic × UInt16)) : FlatMemory :=
  ((Memory.ofImage 0 (shiftingCode script).toArray).write (0x0200 : UInt16).toNat 0x81).write
    (0x0201 : UInt16).toNat 0x80

/-- A processor with the carry set, in front of these shifts. -/
def shiftingWord (script : List (Mnemonic × UInt16)) : Processor × FlatMemory :=
  ({ powerOff with registers := { Registers.powerOn with p := ⟨0x25⟩ } }, wordMemory script)

theorem exists_shifts_word (script : List (Mnemonic × UInt16))
    (hscript : ∀ step ∈ script, step.1 ∈ [Mnemonic.asl, .lsr, .rol, .ror])
    (hcells : ∀ step ∈ script, 0x0200 ≤ step.2.toNat)
    (hshort : (shiftingCode script).length ≤ 0x0200) :
    ∃ final, Shifts [0x0200, 0x0201] script (shiftingWord script) final := by
  -- the code ends in front of the word
  have hapart (x : UInt16) (hx : 0x0200 ≤ x.toNat) :
      x ∉ places 0 (shiftingCode script).length := by
    intro hmem
    have hplace := (toNat_places hmem (by simp only [UInt16.reduceToNat]; omega)).2
    simp only [UInt16.reduceToNat] at hplace
    omega
  have hcode : Holds (shiftingWord script).2 0 (shiftingCode script) :=
    ((holds_ofImage _ (by omega)).write (hapart 0x0200 (by decide)) 0x81).write
      (hapart 0x0201 (by decide)) 0x80
  exact exists_shifts _ hscript ⟨rfl, rfl⟩ hcode fun step hstep => hapart _ (hcells step hstep)

theorem bytesIn_shiftingWord (script : List (Mnemonic × UInt16)) :
    bytesIn [0x0200, 0x0201] (shiftingWord script) = [0x81, 0x80] := by
  have hmemory : (shiftingWord script).2 = wordMemory script := rfl
  have hlow : contents (shiftingWord script).2 0x0200 = 0x81 := by
    rw [hmemory, contents_flat, wordMemory, read_write_flat, if_neg (by decide), read_write_flat,
      if_pos rfl]
  have hhigh : contents (shiftingWord script).2 0x0201 = 0x80 := by
    rw [hmemory, contents_flat, wordMemory, read_write_flat, if_pos rfl]
  rw [bytesIn, List.map_cons, List.map_cons, List.map_nil, hlow, hhigh]

/-- A word is rotated once, and then all the way around. -/
theorem multibyte_shifts_word :
    let xs : List UInt16 := [0x0200, 0x0201]
    let left := chain .rol .rol xs
    let around := (List.replicate 17 left).flatten
    xs.Nodup ∧
      (∃ final, Shifts xs left (shiftingWord left) final ∧
        number (bytesIn xs final) = 0x0103 ∧ carryOf final = true) ∧
      ∃ final, Shifts xs around (shiftingWord around) final ∧
        bytesIn xs final = [0x81, 0x80] ∧ carryOf final = true := by
  intro xs left around
  have hnodup : xs.Nodup := by decide
  have hne : xs ≠ [] := List.cons_ne_nil _ _
  have hcarry (script : List (Mnemonic × UInt16)) : carryOf (shiftingWord script) = true := by
    show Status.has ⟨0x25⟩ Status.carry = true
    decide
  obtain ⟨once, honce⟩ :=
    exists_shifts_word left (by decide) (by decide) (by decide)
  obtain ⟨all, hall⟩ :=
    exists_shifts_word around (by decide) (by decide) (by decide)
  obtain ⟨hleft, -, -, -, -, -⟩ :=
    multibyte_shifts hne hnodup (cells_flat xs) (shiftingWord left) ⟨rfl, rfl⟩
  obtain ⟨-, -, -, -, hsame, -⟩ :=
    multibyte_shifts hne hnodup (cells_flat xs) (shiftingWord around) ⟨rfl, rfl⟩
  obtain ⟨hnumber, htop⟩ := hleft once honce
  obtain ⟨hback, hcarry'⟩ := hsame around (.tail _ (.tail _ (.head _))) all hall
  rw [bytesIn_shiftingWord, hcarry] at hnumber
  rw [bytesIn_shiftingWord] at htop hback
  exact ⟨hnodup, ⟨once, honce, hnumber.trans (by decide), htop.trans (by decide)⟩, all, hall, hback,
    hcarry'.trans (hcarry around)⟩

end Famicom.Cpu
