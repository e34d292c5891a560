import Famicom.Proofs.Machine.Looping

/-!
# Interrupt requests follow the level of their line

The sequencer and the board hold the request line up for as long as they want the
processor, and the line is looked at when a step is over. What is latched then
waits for the next step that executes something, which may be hundreds of waiting
steps away.

* **nothing spurious** — a latched request stands for a line that is still up and
  for a processor that still listens (`Latched`): whatever could take the line down
  is done by an instruction, and that takes the latch first (`Latched.run`);
* **nothing lost** — what is latched gives way to a more urgent interrupt only
  (`Waiting.pending`);
* **delivery** — so requests are entered exactly by the level
  (`requests_level_exact`).
-/

namespace Famicom.Cpu.Processor

variable {σ : Type} [AddressSpace σ]

/-- Enter the handler of an interrupt. -/
def enter (i : Interrupt) (r : Registers) (s : σ) : Registers × σ :=
  match i with
  | .reset => enterReset r s
  | .nmi => enterHandler nmiVector r s
  | .irq => enterHandler requestVector r s

/-- A step that enters a handler before anything else, and carries out the first
instruction of the handler. -/
def stepInto (i : Interrupt) (c : Processor) (s : σ) : UInt32 × Processor × σ :=
  let (r, s) := enter i c.registers s
  let (cost, r, s) := runInstruction r s
  let cycles := entryCycles + cost
  (cycles, { c with registers := r, cycles := c.cycles + cycles.toUInt64, pending := none }, s)

/-- The next step takes this interrupt from the latch and enters its handler. -/
structure Enters (i : Interrupt) (c : Processor) (s : σ) : Prop where
  stall : c.stall = 0
  pending : c.pending = some i
  step : c.step s = c.stepInto i s

/-- Only a request can be refused, and only while requests are disabled. -/
theorem enters {i : Interrupt} {c : Processor} (hstall : c.stall = 0)
    (hpending : c.pending = some i)
    (henabled : i = .irq → c.registers.p.has Status.interruptDisable = false) (s : σ) :
    c.Enters i s := by
  have hbusy : ¬ c.stall > 0 := by
    rw [hstall]
    decide
  refine ⟨hstall, hpending, ?_⟩
  simp only [step, if_neg hbusy, hpending]
  cases i with
  | reset => rfl
  | nmi => rfl
  | irq =>
      simp only [takeInterrupt, henabled rfl, Bool.false_eq_true, if_false]
      rfl

/-- Waiting touches neither the registers nor the latch. -/
theorem step_stalled {c : Processor} (h : 0 < c.stall) (s : σ) :
    c.step s = (1, { c with stall := c.stall - 1, cycles := c.cycles + 1 }, s) :=
  if_pos h

/-- Whatever a step executes, it has emptied the latch. -/
theorem pending_step {c : Processor} (h : c.stall = 0) (s : σ) : (c.step s).2.1.pending = none := by
  have hbusy : ¬ c.stall > 0 := by
    rw [h]
    decide
  simp only [step, if_neg hbusy]

/-- A blanking interrupt puts no request into the latch. -/
theorem pending_request_nmi {c : Processor} (h : (c.request .nmi).pending = some .irq) :
    c.pending = some .irq := by
  unfold request at h
  simp only [] at h
  split at h
  · exact h
  · cases h

/-- Nothing that is latched is lost. -/
theorem pending_request_ne_none {c : Processor} (i : Interrupt) (h : c.pending ≠ none) :
    (c.request i).pending ≠ none := by
  cases i with
  | reset => exact Option.some_ne_none _
  | nmi =>
      unfold request
      simp only []
      split
      · exact h
      · exact Option.some_ne_none _
  | irq =>
      unfold request
      simp only []
      split
      · exact Option.some_ne_none _
      · exact h

end Famicom.Cpu.Processor

namespace Famicom.Audio.SoundUnit

/-- No cycle takes the request of the sequencer back. -/
theorem irq_tick {u : SoundUnit} (h : u.sequencer.irq = true) : u.tick.sequencer.irq = true := by
  rw [sequencer_tick, Sequencer.next]
  split
  · simp only [Sequencer.advance, h, Bool.true_or]
  · exact h

end Famicom.Audio.SoundUnit

namespace Famicom.Cartridge.Board

/-- The flag of a circuit that counts lines is up. -/
def Raised (b : Board) : Prop := ∃ s, b.circuit = .counting s ∧ s.request = true

theorem request_iff (b : Board) : b.request = true ↔ b.Raised := by
  unfold request
  constructor
  · intro h
    split at h
    · rename_i s hcircuit
      exact ⟨s, hcircuit, h⟩
    · cases h
  · rintro ⟨s, hcircuit, h⟩
    simp only [hcircuit, h]

/-- No line that is counted takes the flag down. -/
theorem Raised.step {b : Board} (h : b.Raised) (line dot : UInt16) (rendering : Bool) :
    (b.step line dot rendering).Raised := by
  obtain ⟨s, hcircuit, hs⟩ := h
  unfold Board.step
  split
  · refine ⟨s.countLine, ?_, ?_⟩
    · simp only [hcircuit]
    · unfold CountingCircuit.countLine
      split
      · exact hs
      · simp only [hs, Bool.true_or]
  · exact ⟨s, hcircuit, hs⟩

end Famicom.Cartridge.Board

namespace Famicom.Machine

open Audio Cartridge Cpu Video

variable {make : Make} {m n : Machine}

/-! ## The line and the latch -/

/-- The level of the request line: the flag of the sequencer is up, or that of the
board. -/
def Requested (m : Machine) : Prop := m.bus.sound.sequencer.irq = true ∨ m.bus.board.Raised

/-- The processor listens to requests. -/
def Listening (m : Machine) : Prop := m.cpu.registers.p.has Status.interruptDisable = false

/-- A request is latched only while the line is up and the processor listens. -/
def Latched (m : Machine) : Prop := m.cpu.pending = some .irq → m.Requested ∧ m.Listening

theorem latched_of_ne (h : m.cpu.pending ≠ some .irq) : m.Latched := fun hirq => absurd hirq h

/-- The latch stays backed where it takes in no request, the line does not fall and
the registers stay. -/
theorem Latched.mono (h : m.Latched)
    (hpending : n.cpu.pending = some .irq → m.cpu.pending = some .irq)
    (hline : m.Requested → n.Requested) (hregisters : n.cpu.registers = m.cpu.registers) :
    n.Latched := by
  intro hirq
  obtain ⟨hrequested, hlistening⟩ := h (hpending hirq)
  refine ⟨hline hrequested, ?_⟩
  rw [Listening, hregisters]
  exact hlistening

/-! ### Catching up -/

/-- A cycle of sound leaves the latch and the registers, and the line stays up. -/
theorem Latched.tickSound (h : m.Latched) (hsound : m.bus.sound.InRange) :
    m.tickSound.Latched := by
  rw [tickSound_eq hsound]
  cases m.bus.sound.tick.request? with
  | none => exact h.mono id (Or.imp_left SoundUnit.irq_tick) rfl
  | some address => exact h.mono id (Or.imp_left SoundUnit.irq_tick) rfl

theorem pending_tickSound (hsound : m.bus.sound.InRange) :
    m.tickSound.cpu.pending = m.cpu.pending := by
  rw [tickSound_eq hsound]
  split <;> rfl

/-- A dot may put a blanking interrupt into the latch, and the line stays up. -/
theorem Latched.tickPicture (h : m.Latched) : m.tickPicture.Latched := by
  rw [tickPicture_eq]
  refine h.mono ?_ (Or.imp_right fun hboard => hboard.step _ _ _) ?_
  · simp only []
    split
    · exact Processor.pending_request_nmi
    · exact id
  · simp only []
    split
    · exact Processor.request_registers _ _
    · rfl

theorem pending_tickPicture (h : m.cpu.pending ≠ none) : m.tickPicture.cpu.pending ≠ none := by
  rw [tickPicture_eq]
  simp only []
  split
  · exact Processor.pending_request_ne_none .nmi h
  · exact h

theorem Latched.catchUpSound (h : m.Latched) (hintact : Intact make m) (cycles : Nat) :
    (m.catchUpSound cycles).Latched := by
  induction cycles generalizing m with
  | zero => exact h
  | succ n ih => exact ih (h.tickSound hintact.bus.sound) hintact.tickSound

theorem pending_catchUpSound (hintact : Intact make m) (cycles : Nat) :
    (m.catchUpSound cycles).cpu.pending = m.cpu.pending := by
  induction cycles generalizing m with
  | zero => rfl
  | succ n ih => exact (ih hintact.tickSound).trans (pending_tickSound hintact.bus.sound)

theorem Latched.catchUpPicture (h : m.Latched) (dots : Nat) : (m.catchUpPicture dots).Latched := by
  induction dots generalizing m with
  | zero => exact h
  | succ n ih => exact ih h.tickPicture

theorem pending_catchUpPicture (h : m.cpu.pending ≠ none) (dots : Nat) :
    (m.catchUpPicture dots).cpu.pending ≠ none := by
  induction dots generalizing m with
  | zero => exact h
  | succ n ih => exact ih (pending_tickPicture h)

/-! ### The end of a step -/

/-- What is polled at the end of a step are the two flags. -/
theorem requestIrq_cases (m : Machine) :
    m.Requested ∧ m.requestIrq = { m with cpu := m.cpu.request .irq } ∨
      ¬ m.Requested ∧ m.requestIrq = m := by
  have hpolled : (m.bus.sound.irq || m.bus.board.request) = true ↔ m.Requested := by
    rw [Bool.or_eq_true, Board.request_iff]
    rfl
  unfold requestIrq
  by_cases h : (m.bus.sound.irq || m.bus.board.request) = true
  · exact .inl ⟨hpolled.1 h, if_pos h⟩
  · exact .inr ⟨mt hpolled.2 h, if_neg h⟩

/-- The line is looked at and not moved. -/
theorem requested_requestIrq (m : Machine) : m.requestIrq.Requested ↔ m.Requested := by
  obtain ⟨-, h⟩ | ⟨-, h⟩ := m.requestIrq_cases
  · rw [h]
    rfl
  · rw [h]

theorem listening_requestIrq (m : Machine) : m.requestIrq.Listening ↔ m.Listening := by
  obtain ⟨-, h⟩ | ⟨-, h⟩ := m.requestIrq_cases
  · rw [h, Listening, Processor.request_registers]
    rfl
  · rw [h]

/-- What the end of a step puts into the latch is backed. -/
theorem Latched.requestIrq (h : m.Latched) : m.requestIrq.Latched := by
  obtain ⟨hrequested, heq⟩ | ⟨-, heq⟩ := m.requestIrq_cases
  · rw [heq]
    intro hirq
    refine ⟨hrequested, ?_⟩
    rw [Listening, Processor.request_registers]
    -- a processor that does not listen drops the request, so it was latched before
    cases hlistening : m.cpu.registers.p.has Status.interruptDisable with
    | false => rfl
    | true =>
        have hdropped : m.cpu.request .irq = m.cpu := by
          simp only [Processor.request, hlistening, Bool.not_true, Bool.false_and,
            Bool.false_eq_true, if_false]
        rw [hdropped] at hirq
        exact absurd (h hirq).2 (by rw [Listening, hlistening]; decide)
  · rw [heq]
    exact h

theorem pending_requestIrq_ne_none (h : m.cpu.pending ≠ none) :
    m.requestIrq.cpu.pending ≠ none := by
  obtain ⟨-, heq⟩ | ⟨-, heq⟩ := m.requestIrq_cases
  · rw [heq]
    exact Processor.pending_request_ne_none .irq h
  · rw [heq]
    exact h

/-- While the line is up and the processor listens, the latch is not left empty. -/
theorem pending_requestIrq (hrequested : m.Requested) (hlistening : m.Listening) :
    m.requestIrq.cpu.pending ≠ none := by
  obtain ⟨-, heq⟩ | ⟨hnot, -⟩ := m.requestIrq_cases
  · rw [heq]
    show (m.cpu.request .irq).pending ≠ none
    cases hpending : m.cpu.pending with
    | none =>
        have hlistens : m.cpu.registers.p.has Status.interruptDisable = false := hlistening
        simp [Processor.request, hlistens, hpending]
    | some i => exact Processor.pending_request_ne_none .irq (hpending ▸ Option.some_ne_none i)
  · exact absurd hrequested hnot

/-! ### Steps -/

/-- A transfer reads the bus and leaves the latch. -/
theorem pending_transferSprites (m : Machine) : m.transferSprites.cpu.pending = m.cpu.pending := by
  unfold transferSprites
  split <;> rfl

/-- A waiting processor leaves the bus alone. -/
theorem stepCpu_stalled (h : 0 < m.cpu.stall) :
    m.stepCpu =
      (1, { m with
        cpu := { m.cpu with stall := m.cpu.stall - 1, cycles := m.cpu.cycles + 1 } }) := by
  rw [stepCpu_eq, Processor.step_stalled h]

/-- When a step begins, either the latch is emptied or the processor waits. What
the step does to the line does not matter in the first case, and it does nothing in
the second. -/
theorem Latched.stepCpu (h : m.Latched) (hidle : m.bus.transferPage = none) :
    m.stepCpu.2.transferSprites.Latched := by
  by_cases hstall : m.cpu.stall = 0
  · refine latched_of_ne ?_
    rw [pending_transferSprites]
    have hempty : m.stepCpu.2.cpu.pending = none := Processor.pending_step hstall m.bus
    rw [hempty]
    exact Option.some_ne_none _ |>.symm
  · have hwaits := stepCpu_stalled (UInt32.pos_iff_ne_zero.2 hstall)
    have hstill : m.stepCpu.2.bus.transferPage = none := by
      rw [hwaits]
      exact hidle
    rw [transferSprites_idle hstill, hwaits]
    exact h.mono id id rfl

theorem Latched.run (h : m.Latched) (hintact : Intact make m) (hidle : m.bus.transferPage = none) :
    m.run.2.Latched :=
  (((h.stepCpu hidle).catchUpSound hintact.stepCpu.transferSprites _).catchUpPicture _).requestIrq

/-- A step that only waits loses nothing of what is latched. -/
theorem pending_run_stalled (hintact : Intact make m) (hidle : m.bus.transferPage = none)
    (hstall : 0 < m.cpu.stall) (h : m.cpu.pending ≠ none) : m.run.2.cpu.pending ≠ none := by
  have hwaits := stepCpu_stalled hstall
  have hstill : m.stepCpu.2.bus.transferPage = none := by
    rw [hwaits]
    exact hidle
  have hlatched : m.stepCpu.2.transferSprites.cpu.pending ≠ none := by
    rw [transferSprites_idle hstill, hwaits]
    exact h
  have hheard :
      (m.stepCpu.2.transferSprites.catchUpSound m.stepCpu.1.toNat).cpu.pending ≠ none := by
    rw [pending_catchUpSound hintact.stepCpu.transferSprites]
    exact hlatched
  rw [run_eq]
  exact pending_requestIrq_ne_none (pending_catchUpPicture hheard _)

/-- What the end of a step finds up is in the latch. -/
theorem pending_run (hrequested : m.run.2.Requested) (hlistening : m.run.2.Listening) :
    m.run.2.cpu.pending ≠ none :=
  pending_requestIrq ((requested_requestIrq _).1 hrequested) ((listening_requestIrq _).1 hlistening)

/-! ## Executions -/

theorem latched_perform (h : m.Latched) (hintact : Intact make m)
    (hidle : m.bus.transferPage = none) (op : Operation) : (perform op m).2.Latched := by
  cases op with
  | run => exact h.run hintact hidle
  | runFrame =>
      -- the steps of a frame keep what each of them needs
      have hsteps := runWhile_induction
        (P := fun m => m.Latched ∧ Intact make m ∧ m.bus.transferPage = none)
        (fun m ⟨h, hintact, hidle⟩ => ⟨h.run hintact hidle, hintact.run, transferPage_run m⟩)
        m.bus.picture.beam.frame stepsPerFrame 0 ⟨h, hintact, hidle⟩
      exact hsteps.1
  | reset => exact latched_of_ne (by simp [perform, reset, Processor.request])
  | hold player buttons =>
      show (m.hold player buttons).Latched
      unfold hold
      split
      · exact h
      · exact h
      · exact h
  | setWork data => exact h
  | takeSamples => exact h

theorem cpu_hold (player : Nat) (buttons : UInt8) (m : Machine) :
    (m.hold player buttons).cpu = m.cpu := by
  unfold hold
  split
  · rfl
  · rfl
  · rfl

theorem Reachable.run {c : Cartridge} {rate : UInt32} (h : Reachable c rate m) :
    Reachable c rate m.run.2 :=
  h.perform .run

theorem Reachable.afterSteps {c : Cartridge} {rate : UInt32} (h : Reachable c rate m)
    (steps : Nat) : Reachable c rate (afterSteps steps m) := by
  induction steps with
  | zero => exact h
  | succ n ih => exact ih.run

theorem Reachable.latched {c : Cartridge} {rate : UInt32} (h : Reachable c rate m) : m.Latched := by
  have hfresh : (ofCartridge c rate).Latched := latched_of_ne (Option.some_ne_none _).symm
  induction h with
  | cartridge => exact hfresh
  | image hc hm => exact ofImage_eq hc hm ▸ hfresh
  | perform op h ih => exact latched_perform ih h.intact h.transferPage op

/-- What may be done with a machine while its processor executes nothing. -/
inductive Waiting (m : Machine) : Machine → Prop
  | start : Waiting m m
  | run {n : Machine} : Waiting m n → 0 < n.cpu.stall → Waiting m n.run.2
  | reset {n : Machine} : Waiting m n → Waiting m n.reset
  | hold {n : Machine} (player : Nat) (buttons : UInt8) :
      Waiting m n → Waiting m (n.hold player buttons)

theorem Waiting.reachable {c : Cartridge} {rate : UInt32} (h : Waiting m n)
    (hm : Reachable c rate m) : Reachable c rate n := by
  induction h with
  | start => exact hm
  | run _ _ ih => exact ih.run
  | reset _ ih => exact ih.perform .reset
  | hold player buttons _ ih => exact ih.perform (.hold player buttons)

/-- However long the processor waits, the latch is not emptied. -/
theorem Waiting.pending {c : Cartridge} {rate : UInt32} (h : Waiting m n) (hm : Reachable c rate m)
    (hpending : m.cpu.pending ≠ none) : n.cpu.pending ≠ none := by
  induction h with
  | start => exact hpending
  | run hwaiting hstall ih =>
      have hn := hwaiting.reachable hm
      exact pending_run_stalled hn.intact hn.transferPage hstall ih
  | reset _ ih => exact Option.some_ne_none _
  | @hold n player buttons _ ih =>
      rw [cpu_hold]
      exact ih

/-- **Requests are delivered exactly by the level of their line.** Whatever was done
with a machine before,

* a step that takes a request from the latch and enters its handler begins with the
  line up and the processor listening;
* when the line is up and the processor listens at the end of a step, then the next
  step that does not wait enters a handler before it executes anything: that of the
  request, or of an interrupt that has taken its place. It does so however many
  waiting steps, pressed buttons and resets lie between. -/
theorem requests_level_exact {c : Cartridge} {rate : UInt32} (h : Reachable c rate m) :
    (m.cpu.Enters .irq m.bus → m.Requested ∧ m.Listening) ∧
    (m.run.2.Requested → m.run.2.Listening →
      ∀ n, Waiting m.run.2 n → n.cpu.stall = 0 → ∃ i, n.cpu.Enters i n.bus) := by
  constructor
  · intro henters
    exact h.latched henters.pending
  · intro hrequested hlistening n hwaiting hstall
    have hn : Reachable c rate n := hwaiting.reachable h.run
    have hpending := hwaiting.pending h.run (pending_run hrequested hlistening)
    obtain ⟨i, hi⟩ := Option.ne_none_iff_exists'.1 hpending
    -- a latched request is not refused, since the processor still listens
    refine ⟨i, Processor.enters hstall hi ?_ n.bus⟩
    intro hirq
    exact (hn.latched (hirq ▸ hi)).2

/-- A program that waits in a loop for the frame sequencer. The request comes up in its
9944th step and finds the processor listening. A button is pressed, and then the step
that follows enters the handler. -/
theorem requests_level_exact_looping :
    let m := afterSteps 9943 (ofCartridge looping defaultRate)
    let n := m.run.2.hold 0 1
    Reachable looping defaultRate m ∧ m.run.2.Requested ∧ m.run.2.Listening ∧
      Waiting m.run.2 n ∧ n.cpu.Enters .irq n.bus ∧ n.Requested ∧ n.Listening := by
  intro m n
  have hraised : Undisturbed looping ((inLoop 29831).request .irq) 29831 m.run.2 :=
    undisturbed_raised defaultRate
  have hstart : Reachable looping defaultRate (ofCartridge looping defaultRate) := .cartridge
  have hm : Reachable looping defaultRate m := hstart.afterSteps 9943
  have hrequested : m.run.2.Requested := .inl (hraised.sequencer.irq.2 (by decide))
  have hlistening : m.run.2.Listening := by
    rw [Listening, hraised.cpu]
    decide
  have hwaiting : Waiting m.run.2 n := .hold 0 1 .start
  have hn : Reachable looping defaultRate n := hwaiting.reachable hm.run
  have hcpu : n.cpu = (inLoop 29831).request .irq :=
    (cpu_hold 0 1 m.run.2).trans hraised.cpu
  -- the next step enters a handler, and the latch tells which
  have hstall : n.cpu.stall = 0 := by
    rw [hcpu]
    rfl
  obtain ⟨i, henters⟩ := (requests_level_exact hm).2 hrequested hlistening n hwaiting hstall
  have hirq : i = .irq := by
    have hpending := henters.pending
    rw [hcpu] at hpending
    exact (Option.some.inj hpending).symm
  subst hirq
  exact ⟨hm, hrequested, hlistening, hwaiting, henters, (requests_level_exact hn).1 henters⟩

end Famicom.Machine
