import Famicom.Proofs.Cpu.Accesses
import Famicom.Proofs.Cpu.Settled

/-!
# The status and its copies

Two bits of the status have no latch. In the register one of them is always set and the other
one always clear; in the copies that go to the stack both are set.

* **register** — whatever is done to a processor, the two bits have their values behind it
  (`ProcessorEvent.after_settled`, `ProcessorEvent.afterAll_settled`);
* **copies** — handlers that are entered, and two instructions, push the status. Each copy has
  the other six bits of the status at that moment (`Status.copy_pushed`,
  `StepTrace.Follows.of_mem_statusCopies`).

`status_copies` says both of every history of a processor.
-/

namespace Famicom.Cpu

open Processor

/-! ## Copies -/

namespace Status

/-- The byte is a copy as it goes to the stack: it has both bits without a latch, and the other
six as in the register. -/
structure Copy (p : Status) (v : UInt8) : Prop where
  unused : v.toBitVec.getLsbD 5 = true
  breakCopy : v.toBitVec.getLsbD 4 = true
  latches : ∀ i, i ≠ 5 → i ≠ 4 → v.toBitVec.getLsbD i = p.bits.toBitVec.getLsbD i

theorem copy_pushed (p : Status) : p.Copy (p.bits ||| 0x30) where
  unused := by
    rw [UInt8.toBitVec_or, BitVec.getLsbD_or]
    exact Bool.or_true _
  breakCopy := by
    rw [UInt8.toBitVec_or, BitVec.getLsbD_or]
    exact Bool.or_true _
  latches i hunused hbreak := by
    have hclear : (0x30 : UInt8).toBitVec.getLsbD i = false := by
      rcases i with _ | _ | _ | _ | _ | _ | _ | _ | i
      all_goals first | rfl | contradiction | exact BitVec.getLsbD_of_ge _ _ (by omega)
    rw [UInt8.toBitVec_or, BitVec.getLsbD_or, hclear, Bool.or_false]

end Status

/-! ## Histories -/

/-- What can be done to a processor. The space may be another one each time. -/
inductive ProcessorEvent (σ : Type) where
  | step (space : σ)
  | reset (space : σ)
  | addStall (cycles : UInt32)
  | request (interrupt : Interrupt)
  | save
  /-- Continue from any processor whatsoever. -/
  | load (saved : Processor)

namespace ProcessorEvent

variable {σ : Type} [AddressSpace σ]

/-- The processor behind an event. What is saved is the processor itself. -/
def after (c : Processor) : ProcessorEvent σ → Processor
  | step space => (c.step space).2.1
  | reset space => (c.powerOn space).1
  | addStall cycles => c.addStall cycles
  | request interrupt => c.request interrupt
  | save => c
  | load saved => saved.restore

/-- The processor behind some events. Nothing was fetched before them. -/
def afterAll (events : List (ProcessorEvent σ)) : Processor := events.foldl after powerOff

/-- No event gives the two bits other values, whatever is read or loaded in it. -/
theorem after_settled {c : Processor} (h : c.registers.p.Settled) (event : ProcessorEvent σ) :
    (event.after c).registers.p.Settled := by
  cases event with
  | step space => exact step_settled h space
  | reset space => exact powerOn_settled c space
  | addStall cycles => exact h
  | request interrupt =>
      show (c.request interrupt).registers.p.Settled
      rw [request_registers]
      exact h
  | save => exact h
  | load saved => exact Status.settled_restored saved.registers.p

theorem afterAll_settled (events : List (ProcessorEvent σ)) :
    (afterAll events).registers.p.Settled := by
  have hall {c : Processor} (h : c.registers.p.Settled) :
      (events.foldl after c).registers.p.Settled := by
    induction events generalizing c with
    | nil => exact h
    | cons event rest ih => exact ih (after_settled h event)
  exact hall Status.settled_powerOn

end ProcessorEvent

/-! ## What a step pushes -/

/-- The next step enters a handler before its instruction. -/
def Processor.EntersHandler (c : Processor) : Prop :=
  c.pending = some .nmi ∨
    (c.pending = some .irq ∧ c.registers.p.has Status.interruptDisable = false)

instance (c : Processor) : Decidable c.EntersHandler := inferInstanceAs (Decidable (_ ∨ _))

namespace Mnemonic

/-- Where among the accesses of an instruction the status is pushed. -/
def statusPush? : Mnemonic → Option Nat
  | php => some 0
  | brk => some 2
  | _ => none

end Mnemonic

section

variable {r r' : Registers} {accesses : List Access}

/-- The third access of a latched interrupt pushes the status, if a handler is entered. -/
theorem Takes.statusPush {c : Processor} (h : Takes c.registers c.pending accesses r') :
    accesses[2]? =
      if c.EntersHandler then
        some (.write (stackCell (c.registers.s - 2)) (c.registers.p.bits ||| 0x30))
      else none := by
  obtain ⟨r, cycles, stall, pending⟩ := c
  change Takes r pending accesses r' at h
  cases h with
  | nothing =>
      refine (if_neg ?_).symm
      rintro (hnmi | ⟨hirq, -⟩)
      · exact nomatch hnmi
      · exact nomatch hirq
  | disabled hdisabled =>
      refine (if_neg ?_).symm
      rintro (hnmi | ⟨-, henabled⟩)
      · exact nomatch hnmi
      · exact Bool.false_ne_true (henabled.symm.trans hdisabled)
  | irq low high henabled => exact (if_pos (.inr ⟨rfl, henabled⟩)).symm
  | nmi low high => exact (if_pos (.inl rfl)).symm
  | reset low high =>
      refine (if_neg ?_).symm
      rintro (hnmi | ⟨hirq, -⟩)
      · exact nomatch hnmi
      · exact nomatch hirq

theorem Takes.settled {pending : Option Interrupt} (h : Takes r pending accesses r')
    (hsettled : r.p.Settled) : r'.p.Settled := by
  cases h with
  | nothing => exact hsettled
  | disabled _ => exact hsettled
  | irq low high _ => exact hsettled.set Status.latched_interruptDisable
  | nmi low high => exact hsettled.set Status.latched_interruptDisable
  | reset low high => exact hsettled.set Status.latched_interruptDisable

variable {i : Instruction} {address : UInt16}

theorem Acts.of_php (h : Acts i address r accesses) (hphp : i.mnemonic = .php) :
    accesses = [.write (stackCell r.s) (r.p.bits ||| 0x30)] := by
  cases h
  case pushes v hpushed =>
    rw [hphp] at hpushed
    obtain rfl : r.p.bits ||| 0x30 = v := Option.some.inj hpushed
    rfl
  all_goals
    rename_i hother
    rw [hphp] at hother
    exact nomatch hother

theorem Acts.of_brk (h : Acts i address r accesses) (hbrk : i.mnemonic = .brk) :
    ∃ low high, accesses = entryAccesses 0xFFFE r low high := by
  cases h
  case breaks low high _ => exact ⟨low, high, rfl⟩
  all_goals
    rename_i hother
    rw [hbrk] at hother
    exact nomatch hother

/-- One instruction pushes the status alone, and the other one enters a handler. -/
theorem Acts.statusPush (h : Acts i address r accesses) :
    if i.mnemonic = .php ∨ i.mnemonic = .brk then
      ∃ pointer, i.mnemonic.statusPush?.bind (accesses[·]?) =
        some (.write (stackCell pointer) (r.p.bits ||| 0x30))
    else i.mnemonic.statusPush?.bind (accesses[·]?) = none := by
  by_cases hphp : i.mnemonic = .php
  · rw [if_pos (.inl hphp), h.of_php hphp, hphp]
    exact ⟨r.s, rfl⟩
  by_cases hbrk : i.mnemonic = .brk
  · obtain ⟨low, high, haccesses⟩ := h.of_brk hbrk
    rw [if_pos (.inr hbrk), haccesses, hbrk]
    exact ⟨r.s - 2, rfl⟩
  · have hnone : i.mnemonic.statusPush? = none := by
      unfold Mnemonic.statusPush?
      split
      · rename_i heq
        exact absurd heq hphp
      · rename_i heq
        exact absurd heq hbrk
      · rfl
    rw [if_neg (not_or.2 ⟨hphp, hbrk⟩), hnone]
    rfl

end

namespace StepTrace

/-- The pushes of the status in a step, each with the status at that moment. A handler that is
entered pushes it third, and an instruction where it does. -/
def statusCopies (t : StepTrace) (c : Processor) : List (Status × Access) :=
  (t.entry[2]?.map (c.registers.p, ·)).toList ++
    ((t.instruction.mnemonic.statusPush?.bind (t.action[·]?)).map (t.registers.p, ·)).toList

variable {t : StepTrace} {c : Processor}

/-- A step pushes the status as often as it enters a handler and carries out one of the two
instructions. -/
theorem Follows.length_statusCopies (h : t.Follows c) :
    (t.statusCopies c).length = (if c.EntersHandler then 1 else 0) +
      if t.instruction.mnemonic = .php ∨ t.instruction.mnemonic = .brk then 1 else 0 := by
  have haction := h.action.statusPush
  unfold statusCopies
  rw [h.entry.statusPush, List.length_append]
  congr 1
  · split <;> rfl
  · split at haction
    · rename_i hpushes
      obtain ⟨pointer, hpush⟩ := haction
      rw [if_pos hpushes, hpush]
      rfl
    · rename_i hother
      rw [if_neg hother, haction]
      rfl

/-- What is pushed is a copy of the status at that moment, on the stack. -/
theorem Follows.of_mem_statusCopies (h : t.Follows c) (hsettled : c.registers.p.Settled)
    {copy : Status × Access} (hcopy : copy ∈ t.statusCopies c) :
    copy.1.Settled ∧ copy.2 ∈ t.accesses ∧
      ∃ pointer v, copy.2 = .write (stackCell pointer) v ∧ copy.1.Copy v := by
  unfold accesses
  rcases List.mem_append.1 hcopy with hentry | haction
  · obtain ⟨a, ha, rfl⟩ := Option.map_eq_some_iff.1 (Option.mem_toList.1 hentry)
    refine ⟨hsettled, List.mem_append_left _ (List.mem_of_getElem? ha), ?_⟩
    have hpush := h.entry.statusPush.symm.trans ha
    split at hpush
    · obtain rfl := Option.some.inj hpush
      exact ⟨_, _, rfl, c.registers.p.copy_pushed⟩
    · exact nomatch hpush
  · obtain ⟨a, ha, rfl⟩ := Option.map_eq_some_iff.1 (Option.mem_toList.1 haction)
    obtain ⟨place, -, hplace⟩ := Option.bind_eq_some_iff.1 ha
    have hmem := List.mem_append_right t.operand (List.mem_of_getElem? hplace)
    refine ⟨h.entry.settled hsettled,
      List.mem_append_right _ (List.mem_cons_of_mem _ hmem), ?_⟩
    have hpush := h.action.statusPush
    split at hpush
    · obtain ⟨pointer, hpush⟩ := hpush
      obtain rfl := Option.some.inj (hpush.symm.trans ha)
      exact ⟨pointer, _, rfl, t.registers.p.copy_pushed⟩
    · exact nomatch hpush.symm.trans ha

end StepTrace

/-! ## Histories -/

section

variable {σ : Type} [AddressSpace σ]

/-- **The two bits without a latch.** Take any space and any history of a processor: steps and
resets on the space in any state, cycles to wait, requests, and processors that were saved or
made up and are loaded. Behind it bit 5 of the status is set and bit 4 is clear. If the processor
waits, then the next step makes no access. If not, the step pushes the status once for a handler
that it enters and once for an instruction that pushes it. Each push is one of its accesses and
goes to the stack, and what is pushed has both bits set and agrees in the other six with the
status at that moment, whose two bits have their values then, too. -/
theorem status_copies (events : List (ProcessorEvent σ)) (s : σ) :
    let c := ProcessorEvent.afterAll events
    c.registers.p.Settled ∧
    (0 < c.stall → (c.step (⟨s, []⟩ : Traced σ)).2.2.history = []) ∧
    (c.stall = 0 → ∃ trace : StepTrace, trace.Follows c ∧
      c.step (⟨s, []⟩ : Traced σ) =
        ((c.step s).1, (c.step s).2.1, ⟨(c.step s).2.2, trace.accesses.reverse⟩) ∧
      (trace.statusCopies c).length = (if c.EntersHandler then 1 else 0) +
        (if trace.instruction.mnemonic = .php ∨ trace.instruction.mnemonic = .brk then 1 else 0) ∧
      ∀ copy ∈ trace.statusCopies c, copy.1.Settled ∧ copy.2 ∈ trace.accesses ∧
        ∃ pointer v, copy.2 = .write (stackCell pointer) v ∧ copy.1.Copy v) := by
  intro c
  have hsettled : c.registers.p.Settled := ProcessorEvent.afterAll_settled events
  refine ⟨hsettled, fun hwaits => ?_, fun hruns => ?_⟩
  · unfold step
    rw [if_pos hwaits]
  · obtain ⟨⟨trace, hfollows, hstep, -, -⟩, -⟩ := step_accesses c hruns s
    refine ⟨trace, hfollows, hstep, hfollows.length_statusCopies, fun copy hcopy => ?_⟩
    exact hfollows.of_mem_statusCopies hsettled hcopy

/-- A processor is loaded that has both bits the wrong way around, and takes an NMI. -/
theorem status_copies_loaded :
    let saved : Processor := { powerOff with registers := { Registers.powerOn with p := ⟨0xDF⟩ } }
    let history : List (ProcessorEvent FlatMemory) := [.load saved, .request .nmi]
    let c := ProcessorEvent.afterAll history
    c.stall = 0 ∧ c.registers.p.Settled ∧ ∃ trace : StepTrace, trace.Follows c ∧
      1 ≤ (trace.statusCopies c).length ∧
      ∀ copy ∈ trace.statusCopies c, copy.1.Settled ∧ copy.2 ∈ trace.accesses ∧
        ∃ pointer v, copy.2 = .write (stackCell pointer) v ∧ copy.1.Copy v := by
  intro saved history c
  have hruns : c.stall = 0 := rfl
  have henters : c.EntersHandler := .inl rfl
  obtain ⟨hsettled, -, hstep⟩ := status_copies history (.filled 0xEA)
  obtain ⟨trace, hfollows, -, hlength, hcopies⟩ := hstep hruns
  rw [if_pos henters] at hlength
  exact ⟨hruns, hsettled, trace, hfollows, hlength ▸ Nat.le_add_right _ _, hcopies⟩

end

end Famicom.Cpu
