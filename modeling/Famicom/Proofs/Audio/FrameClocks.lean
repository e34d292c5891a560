import Famicom.Proofs.Audio.Enables
import Mathlib.Data.List.Basic
import Mathlib.Logic.Function.Iterate

/-!
# The clocks of the frame sequencer

The sequencer keeps a counter of cycles and the number of its next step. Counted from the
last write to its mode register, the cycles of its steps are known in advance:

* **position** — the counter is the number of the cycle modulo the length of the sequence,
  and lies between the boundaries of two steps (`Sequencer.AtCycle.next`);
* **events** — so the number of a cycle tells what it clocks (`SoundUnit.events_ticks`);
* **clocks** — a part of a channel that is clocked by the sequencer goes on by as many of
  its clocks as there are such cycles, and nothing else in a cycle changes it
  (`Clocked.ticks`).

`sequencer_closed_form` counts the cycles.
-/

namespace Famicom.Audio

/-! ## The sequence -/

namespace FrameEvent

/-- Whether envelopes and the linear counter are clocked. -/
def quarterFrame : FrameEvent → Bool
  | .nothing => false
  | .quarter => true
  | .half => true

/-- Whether length counters and sweeps are clocked. -/
def halfFrame : FrameEvent → Bool
  | .nothing => false
  | .quarter => false
  | .half => true

end FrameEvent

namespace SequencerMode

/-- Cycles of a whole sequence. -/
def period : SequencerMode → Nat
  | four => 29829
  | five => 37281

/-- What a cycle clocks. The first cycle behind the write to the mode register has
number one. -/
def eventAt (m : SequencerMode) (cycle : Nat) : FrameEvent :=
  if cycle % m.period ∈ [14913, 0] then .half
  else if cycle % m.period ∈ [7457, 22371] then .quarter
  else .nothing

/-- The cycle of the step before, or the beginning of the sequence. -/
def previous (m : SequencerMode) (step : UInt8) : Nat :=
  if step = 0 then 0 else (m.boundary (step - 1)).toNat

/-- The steps of a sequence: from where to where each of them waits, and what it clocks. -/
def rows : SequencerMode → List (Nat × Nat × FrameEvent)
  | four => [(0, 7457, .quarter), (7457, 14913, .half), (14913, 22371, .quarter),
      (22371, 29829, .half)]
  | five => [(0, 7457, .quarter), (7457, 14913, .half), (14913, 22371, .quarter),
      (22371, 29829, .nothing), (29829, 37281, .half)]

variable {m : SequencerMode} {step : UInt8}

theorem eventAt_mod (m : SequencerMode) (cycle : Nat) :
    m.eventAt (cycle % m.period) = m.eventAt cycle := by
  simp only [eventAt, Nat.mod_mod]

theorem eventAt_eq_nothing {cycle : Nat}
    (h : cycle % m.period ∉ [0, 7457, 14913, 22371]) : m.eventAt cycle = .nothing := by
  simp only [List.mem_cons, List.not_mem_nil, or_false, not_or] at h
  simp only [eventAt, List.mem_cons, List.not_mem_nil, or_false]
  rw [if_neg (by omega), if_neg (by omega)]

theorem mem_rows (h : step < m.steps) :
    (m.previous step, (m.boundary step).toNat, m.event step) ∈ m.rows := by
  rcases step_cases h with rfl | rfl | rfl | rfl | ⟨rfl, rfl⟩
  · cases m <;> decide
  · cases m <;> decide
  · cases m <;> decide
  · cases m <;> decide
  · decide

/-- Between two steps nothing is clocked. -/
theorem eventAt_between (h : step < m.steps) {cycle : Nat} (hlow : m.previous step < cycle)
    (hhigh : cycle < (m.boundary step).toNat) : m.eventAt cycle = .nothing := by
  have hrow := mem_rows h
  apply eventAt_eq_nothing
  cases m with
  | four =>
      simp only [rows, List.mem_cons, List.not_mem_nil, or_false, Prod.mk.injEq, not_or,
        period] at hrow ⊢
      omega
  | five =>
      simp only [rows, List.mem_cons, List.not_mem_nil, or_false, Prod.mk.injEq, not_or,
        period] at hrow ⊢
      omega

/-- At its boundary a step clocks what it clocks. -/
theorem eventAt_boundary (h : step < m.steps) :
    m.eventAt (m.boundary step).toNat = m.event step := by
  have hrows : ∀ row ∈ m.rows, m.eventAt row.2.1 = row.2.2 := by cases m <;> decide
  exact hrows _ (mem_rows h)

/-- The sequence ends with its last step. -/
theorem boundary_last (h : step + 1 = m.steps) : (m.boundary step).toNat = m.period := by
  have hstep : step = m.steps - 1 := by grind
  rw [hstep]
  cases m <;> decide

/-- Every other step is followed by one that waits longer, and to the end of the sequence
at most. -/
theorem boundary_next (h : step < m.steps) (hnext : step + 1 ≠ m.steps) :
    step + 1 < m.steps ∧ m.previous (step + 1) = (m.boundary step).toNat ∧
      (m.boundary step).toNat < (m.boundary (step + 1)).toNat ∧
      (m.boundary step).toNat < m.period := by
  rcases step_cases h with rfl | rfl | rfl | rfl | ⟨rfl, rfl⟩
  · cases m <;> decide
  · cases m <;> decide
  · cases m <;> decide
  · cases m with
    | four => exact absurd rfl hnext
    | five => decide
  · exact absurd rfl hnext

end SequencerMode

/-! ## Positions -/

namespace Sequencer

/-- What the next cycle clocks, and the sequencer behind it. -/
def next (s : Sequencer) : FrameEvent × Sequencer := if s.due then s.advance else (.nothing, s.wait)

/-- Where the sequencer is behind the cycle with this number. -/
structure AtCycle (s : Sequencer) (cycle : Nat) : Prop where
  step : s.step < s.mode.steps
  counter : s.counter.toNat = cycle % s.mode.period
  behind : s.mode.previous s.step ≤ s.counter.toNat
  ahead : s.counter.toNat < (s.mode.boundary s.step).toNat

variable {s : Sequencer} {cycle : Nat}

theorem atCycle_write (value : UInt8) (s : Sequencer) : (s.write value).AtCycle 0 := by
  unfold Sequencer.write
  cases hasBits value 0x80 with
  | true =>
      exact ⟨show (0 : UInt8) < SequencerMode.five.steps by decide, rfl, Nat.zero_le _,
        show 0 < (SequencerMode.five.boundary 0).toNat by decide⟩
  | false =>
      exact ⟨show (0 : UInt8) < SequencerMode.four.steps by decide, rfl, Nat.zero_le _,
        show 0 < (SequencerMode.four.boundary 0).toNat by decide⟩

theorem AtCycle.toNat_succ (h : s.AtCycle cycle) :
    (s.counter + 1).toNat = s.counter.toNat + 1 := by
  have hle := UInt16.le_iff_toNat_le.1 (s.mode.boundary_le s.step)
  have hahead := h.ahead
  simp only [UInt16.reduceToNat] at hle
  exact Word.toNat_succ (by omega)

/-- The step is due when the next cycle is its boundary. -/
theorem AtCycle.due_iff (h : s.AtCycle cycle) :
    s.due = true ↔ s.counter.toNat + 1 = (s.mode.boundary s.step).toNat := by
  have hahead := h.ahead
  rw [due, decide_eq_true_eq, ge_iff_le, UInt16.le_iff_toNat_le, h.toNat_succ]
  omega

/-- The next cycle is one without a step, or that of a step, or that of the last step. -/
theorem AtCycle.cases (h : s.AtCycle cycle) :
    (s.next = (.nothing, s.wait) ∧ s.counter.toNat + 1 < (s.mode.boundary s.step).toNat ∧
      (cycle + 1) % s.mode.period = s.counter.toNat + 1) ∨
    (s.next = s.advance ∧ s.counter.toNat + 1 = (s.mode.boundary s.step).toNat ∧
      s.step + 1 ≠ s.mode.steps ∧ (cycle + 1) % s.mode.period = s.counter.toNat + 1) ∨
    (s.next = s.advance ∧ s.counter.toNat + 1 = (s.mode.boundary s.step).toNat ∧
      s.step + 1 = s.mode.steps ∧ (cycle + 1) % s.mode.period = 0) := by
  have hnumber : (cycle + 1) % s.mode.period = (s.counter.toNat + 1) % s.mode.period := by
    rw [h.counter, Nat.mod_add_mod]
  have hend : s.step + 1 = s.mode.steps → (s.mode.boundary s.step).toNat = s.mode.period :=
    SequencerMode.boundary_last
  have hinside : s.step + 1 ≠ s.mode.steps → (s.mode.boundary s.step).toNat < s.mode.period :=
    fun hnext => (SequencerMode.boundary_next h.step hnext).2.2.2
  have hahead := h.ahead
  by_cases hdue : s.due = true
  · have hboundary := h.due_iff.1 hdue
    have hnext : s.next = s.advance := if_pos hdue
    by_cases hlast : s.step + 1 = s.mode.steps
    · refine .inr (.inr ⟨hnext, hboundary, hlast, ?_⟩)
      rw [hnumber, hboundary, hend hlast, Nat.mod_self]
    · refine .inr (.inl ⟨hnext, hboundary, hlast, ?_⟩)
      rw [hnumber, Nat.mod_eq_of_lt]
      exact hboundary ▸ hinside hlast
  · have hne := mt h.due_iff.2 hdue
    have hlt : s.counter.toNat + 1 < (s.mode.boundary s.step).toNat := by omega
    refine .inl ⟨if_neg hdue, hlt, ?_⟩
    rw [hnumber, Nat.mod_eq_of_lt]
    by_cases hlast : s.step + 1 = s.mode.steps
    · exact hend hlast ▸ hlt
    · exact Nat.lt_trans hlt (hinside hlast)

/-- The number of a cycle says what it clocks. -/
theorem AtCycle.event (h : s.AtCycle cycle) : s.next.1 = s.mode.eventAt (cycle + 1) := by
  have hbehind := h.behind
  have hevent : s.mode.eventAt (s.counter.toNat + 1) = s.mode.eventAt (cycle + 1) := by
    rw [← s.mode.eventAt_mod, h.counter, Nat.mod_add_mod, s.mode.eventAt_mod]
  rw [← hevent]
  rcases h.cases with ⟨hnext, hlt, -⟩ | ⟨hnext, heq, -, -⟩ | ⟨hnext, heq, -, -⟩
  · rw [hnext, SequencerMode.eventAt_between h.step (by omega) hlt]
  · rw [hnext, heq, SequencerMode.eventAt_boundary h.step]
    rfl
  · rw [hnext, heq, SequencerMode.eventAt_boundary h.step]
    rfl

theorem mode_next (s : Sequencer) : s.next.2.mode = s.mode := by
  unfold Sequencer.next
  split <;> rfl

theorem inhibit_next (s : Sequencer) : s.next.2.inhibit = s.inhibit := by
  unfold Sequencer.next
  split <;> rfl

/-- Behind the next cycle the sequencer is where the number of that cycle says. -/
theorem AtCycle.next (h : s.AtCycle cycle) : s.next.2.AtCycle (cycle + 1) := by
  have hbehind := h.behind
  rcases h.cases with ⟨hnext, hlt, hnumber⟩ | ⟨hnext, heq, hstep, hnumber⟩ |
      ⟨hnext, -, hlast, hnumber⟩
  · rw [hnext]
    refine ⟨h.step, h.toNat_succ.trans hnumber.symm, ?_, ?_⟩
    · show s.mode.previous s.step ≤ (s.counter + 1).toNat
      rw [h.toNat_succ]
      omega
    · show (s.counter + 1).toNat < (s.mode.boundary s.step).toNat
      rw [h.toNat_succ]
      exact hlt
  · obtain ⟨hlt, hprevious, hfurther, -⟩ := SequencerMode.boundary_next h.step hstep
    have hadvance : s.advance.2 =
        { s with counter := s.counter + 1, step := s.step + 1 } := by
      simp [advance, hstep, SequencerMode.mod_steps hlt]
    rw [hnext, hadvance]
    refine ⟨hlt, h.toNat_succ.trans hnumber.symm, ?_, ?_⟩
    · show s.mode.previous (s.step + 1) ≤ (s.counter + 1).toNat
      exact Nat.le_of_eq (by rw [h.toNat_succ, hprevious, heq])
    · show (s.counter + 1).toNat < (s.mode.boundary (s.step + 1)).toNat
      rw [h.toNat_succ, heq]
      exact hfurther
  · have hstart : (s.step + 1) % s.mode.steps = 0 := by
      rw [hlast]
      cases s.mode <;> decide
    rw [hnext]
    refine ⟨?_, ?_, ?_, ?_⟩
    · exact SequencerMode.mod_steps_lt _ _
    · simp only [advance, hlast, beq_self_eq_true, if_true]
      exact hnumber.symm
    · simp only [advance, hstart]
      exact Nat.zero_le _
    · simp only [advance, hlast, beq_self_eq_true, if_true]
      cases s.mode <;> decide

/-- A cycle requests an interrupt if it ends the shorter sequence, unless there shall be
none. -/
theorem AtCycle.irq_next (h : s.AtCycle cycle) :
    s.next.2.irq = true ↔
      s.irq = true ∨ (s.mode = .four ∧ s.inhibit = false ∧ 29829 ∣ cycle + 1) := by
  have hdvd (hmode : s.mode = .four) :
      29829 ∣ cycle + 1 ↔ (cycle + 1) % s.mode.period = 0 := by
    rw [hmode]
    exact Nat.dvd_iff_mod_eq_zero
  rcases h.cases with ⟨hnext, -, hnumber⟩ | ⟨hnext, -, hstep, hnumber⟩ | ⟨hnext, -, hlast, hnumber⟩
  · have hnot : ¬ (s.mode = .four ∧ s.inhibit = false ∧ 29829 ∣ cycle + 1) := by
      rintro ⟨hmode, -, hends⟩
      rw [hdvd hmode, hnumber] at hends
      omega
    rw [hnext, or_iff_left hnot]
    rfl
  · have hnot : ¬ (s.mode = .four ∧ s.inhibit = false ∧ 29829 ∣ cycle + 1) := by
      rintro ⟨hmode, -, hends⟩
      rw [hdvd hmode, hnumber] at hends
      omega
    rw [hnext, or_iff_left hnot]
    simp [advance, hstep]
  · rw [hnext]
    simp only [advance, hlast, beq_self_eq_true, Bool.true_and, Bool.or_eq_true,
      Bool.and_eq_true, decide_eq_true_eq, Bool.not_eq_true']
    refine or_congr_right (and_congr_right fun hmode => ?_)
    rw [and_iff_left ((hdvd hmode).2 hnumber)]

/-- What the write to the mode register clocks. -/
def clockedAtOnce (value : UInt8) : FrameEvent := if hasBits value 0x80 then .half else .nothing

end Sequencer

/-! ## Timers -/

theorem Pulse.clockTimer_eq (c : Pulse) : ∃ timer step, c.clockTimer = { c with timer, step } := by
  unfold Pulse.clockTimer
  split
  · exact ⟨_, _, rfl⟩
  · exact ⟨_, _, rfl⟩

theorem Triangle.clockTimer_eq (c : Triangle) :
    ∃ timer step, c.clockTimer = { c with timer, step } := by
  unfold Triangle.clockTimer
  split
  · exact ⟨_, _, rfl⟩
  · exact ⟨_, _, rfl⟩

theorem Noise.clockTimer_eq (c : Noise) : ∃ timer bits, c.clockTimer = { c with timer, bits } := by
  unfold Noise.clockTimer
  split
  · exact ⟨_, _, rfl⟩
  · exact ⟨_, _, rfl⟩

/-- The two pulse channels. -/
inductive PulseVoice where
  | first
  | second
deriving DecidableEq

namespace PulseVoice

/-- The channel of a sound unit. -/
def channel (u : SoundUnit) : PulseVoice → Pulse
  | first => u.pulse1
  | second => u.pulse2

variable (v : PulseVoice) (u : SoundUnit)

theorem channel_clockTimers :
    v.channel u.clockTimers = if u.oddCycle then (v.channel u).clockTimer else v.channel u := by
  unfold SoundUnit.clockTimers
  cases v <;> cases u.oddCycle <;> rfl

theorem exists_channel_clockTimers :
    ∃ timer step, v.channel u.clockTimers = { v.channel u with timer, step } := by
  rw [channel_clockTimers]
  split
  · exact (v.channel u).clockTimer_eq
  · exact ⟨_, _, rfl⟩

end PulseVoice

namespace SoundUnit

variable (u : SoundUnit)

theorem triangle_clockTimers :
    ∃ timer step, u.clockTimers.triangle = { u.triangle with timer, step } := by
  unfold clockTimers
  split
  · exact u.triangle.clockTimer_eq
  · exact u.triangle.clockTimer_eq

theorem noise_clockTimers :
    ∃ timer bits, u.clockTimers.noise = { u.noise with timer, bits } := by
  unfold clockTimers
  split
  · exact u.noise.clockTimer_eq
  · exact ⟨_, _, rfl⟩

theorem sequencer_clockTimers : u.clockTimers.sequencer = u.sequencer := by
  unfold clockTimers
  split <;> rfl

theorem sequencer_clockFrame (event : FrameEvent) :
    (u.clockFrame event).sequencer = u.sequencer := by
  cases event <;> rfl

/-! ## Cycles -/

theorem clockSequencer_eq :
    u.clockSequencer =
      { u with sequencer := u.sequencer.next.2 }.clockFrame u.sequencer.next.1 := by
  unfold clockSequencer Sequencer.next
  cases u.sequencer.due with
  | true => rfl
  | false => rfl

theorem writeSequencer_eq (value : UInt8) :
    u.writeSequencer value =
      { u with sequencer := u.sequencer.write value }.clockFrame
        (Sequencer.clockedAtOnce value) := by
  unfold writeSequencer Sequencer.write Sequencer.clockedAtOnce
  cases hasBits value 0x80 with
  | true => rfl
  | false => rfl

/-- A cycle is the clocks of the timers, and then what the sequencer clocks. Its output
concerns the resampler and the samples alone. -/
theorem exists_tick :
    ∃ resampler samples, u.tick =
      { { u.clockTimers with sequencer := u.sequencer.next.2 }.clockFrame u.sequencer.next.1 with
        resampler, samples } := by
  obtain ⟨resampler, samples, hcollect⟩ := u.clockTimers.clockSequencer.collect_output
  refine ⟨resampler, samples, ?_⟩
  rw [tick, hcollect, clockSequencer_eq, sequencer_clockTimers]

theorem sequencer_tick : u.tick.sequencer = u.sequencer.next.2 := by
  obtain ⟨resampler, samples, htick⟩ := u.exists_tick
  rw [htick]
  exact sequencer_clockFrame _ _

/-- What the next cycles clock. -/
def events : (cycles : Nat) → SoundUnit → List FrameEvent
  | 0, _ => []
  | n + 1, u => u.sequencer.next.1 :: events n u.tick

variable {u}

theorem atCycle_ticks {cycle : Nat} (h : u.sequencer.AtCycle cycle) (n : Nat) :
    (tick^[n] u).sequencer.AtCycle (cycle + n) ∧
      (tick^[n] u).sequencer.mode = u.sequencer.mode ∧
      (tick^[n] u).sequencer.inhibit = u.sequencer.inhibit := by
  induction n generalizing u cycle with
  | zero => exact ⟨h, rfl, rfl⟩
  | succ n ih =>
      have hnext : u.tick.sequencer.AtCycle (cycle + 1) := u.sequencer_tick ▸ h.next
      obtain ⟨hcycle, hmode, hinhibit⟩ := ih hnext
      rw [sequencer_tick, Sequencer.mode_next] at hmode
      rw [sequencer_tick, Sequencer.inhibit_next] at hinhibit
      rw [Function.iterate_succ_apply, Nat.add_comm n 1, ← Nat.add_assoc]
      exact ⟨hcycle, hmode, hinhibit⟩

/-- The numbers of the cycles say what they clock. -/
theorem events_ticks {cycle : Nat} (h : u.sequencer.AtCycle cycle) (n : Nat) :
    u.events n = (List.range' (cycle + 1) n).map u.sequencer.mode.eventAt := by
  induction n generalizing u cycle with
  | zero => rfl
  | succ n ih =>
      have hnext : u.tick.sequencer.AtCycle (cycle + 1) := u.sequencer_tick ▸ h.next
      rw [events, ih hnext, h.event, List.range'_succ, List.map_cons, sequencer_tick,
        Sequencer.mode_next]

end SoundUnit

/-! ## Parts that are clocked -/

/-- A part of the sound unit that goes on by its clock whenever the sequencer clocks one
kind of frame. Timers and the output leave it alone. -/
structure Clocked {α : Type} (part : SoundUnit → α) (clock : α → α) (frame : FrameEvent → Bool) :
    Prop where
  timers (u : SoundUnit) : part u.clockTimers = part u
  sequencer (u : SoundUnit) (sequencer : Sequencer) : part { u with sequencer } = part u
  event (u : SoundUnit) (event : FrameEvent) :
    part (u.clockFrame event) = clock^[(frame event).toNat] (part u)
  output (u : SoundUnit) (resampler : Resampler) (samples : Array Float32) :
    part { u with resampler, samples } = part u

namespace Clocked

variable {α : Type} {part : SoundUnit → α} {clock : α → α} {frame : FrameEvent → Bool}

theorem tick (h : Clocked part clock frame) (u : SoundUnit) :
    part u.tick = clock^[(frame u.sequencer.next.1).toNat] (part u) := by
  obtain ⟨resampler, samples, htick⟩ := u.exists_tick
  rw [htick, h.output, h.event, h.sequencer, h.timers]

/-- In any number of cycles a part is clocked as often as there are frames of its kind. -/
theorem ticks (h : Clocked part clock frame) (n : Nat) (u : SoundUnit) :
    part (SoundUnit.tick^[n] u) = clock^[(u.events n).countP frame] (part u) := by
  induction n generalizing u with
  | zero => rfl
  | succ n ih =>
      rw [Function.iterate_succ_apply, ih, h.tick, ← Function.iterate_add_apply,
        SoundUnit.events, List.countP_cons]
      cases frame u.sequencer.next.1 <;> rfl

/-- The write to the mode register and the cycles behind it, together. -/
theorem write_ticks (h : Clocked part clock frame) (u : SoundUnit) (value : UInt8) (n : Nat) :
    part (SoundUnit.tick^[n] (u.writeSequencer value)) =
      clock^[(Sequencer.clockedAtOnce value :: (u.writeSequencer value).events n).countP frame]
        (part u) := by
  have hwrite : part (u.writeSequencer value) =
      clock^[(frame (Sequencer.clockedAtOnce value)).toNat] (part u) := by
    rw [SoundUnit.writeSequencer_eq, h.event, h.sequencer]
  rw [h.ticks, hwrite, ← Function.iterate_add_apply, List.countP_cons]
  cases frame (Sequencer.clockedAtOnce value) <;> rfl

end Clocked

/-! ### Envelopes and the linear counter -/

theorem clocked_envelope (v : PulseVoice) :
    Clocked (fun u => (v.channel u).envelope) Envelope.clock FrameEvent.quarterFrame where
  timers u := by
    obtain ⟨timer, step, h⟩ := v.exists_channel_clockTimers u
    rw [h]
  sequencer _ _ := by cases v <;> rfl
  event u event := by cases v <;> cases event <;> rfl
  output _ _ _ := by cases v <;> rfl

theorem clocked_envelopeNoise :
    Clocked (fun u => u.noise.envelope) Envelope.clock FrameEvent.quarterFrame where
  timers u := by
    obtain ⟨timer, bits, h⟩ := u.noise_clockTimers
    rw [h]
  sequencer _ _ := rfl
  event u event := by cases event <;> rfl
  output _ _ _ := rfl

/-- The triangle channel with its wave and its length left out: what remains is the linear
counter with its registers. -/
def Triangle.linearPart (c : Triangle) : Triangle := { c with timer := 0, step := 0, length := .off }

theorem clocked_linear :
    Clocked (fun u => u.triangle.linearPart) Triangle.clockLinear FrameEvent.quarterFrame where
  timers u := by
    obtain ⟨timer, step, h⟩ := u.triangle_clockTimers
    rw [h]
    rfl
  sequencer _ _ := rfl
  event u event := by cases event <;> rfl
  output _ _ _ := rfl

theorem Triangle.linearPart_iterate (c : Triangle) (n : Nat) :
    (clockLinear^[n] c).linearPart = clockLinear^[n] c.linearPart := by
  have hcommute : Function.Commute linearPart clockLinear := fun _ => rfl
  exact (hcommute.iterate_right n) c

/-! ### Length counters and sweeps -/

theorem clocked_length (v : Voice) :
    Clocked v.length LengthCounter.clock FrameEvent.halfFrame where
  timers u := v.length_clockTimers u
  sequencer u sequencer := v.length_sequencer u sequencer
  event u event := by cases event <;> cases v <;> rfl
  output _ _ _ := by cases v <;> rfl

theorem clocked_sweep (v : PulseVoice) :
    Clocked (fun u => ((v.channel u).period, (v.channel u).sweep)) (fun p => p.2.clock p.1)
      FrameEvent.halfFrame where
  timers u := by
    obtain ⟨timer, step, h⟩ := v.exists_channel_clockTimers u
    rw [h]
  sequencer _ _ := by cases v <;> rfl
  event u event := by cases v <;> cases event <;> rfl
  output _ _ _ := by cases v <;> rfl

namespace LengthCounter

theorem halt_clock (l : LengthCounter) : l.clock.halt = l.halt := by
  unfold clock
  split <;> rfl

theorem halt_iterate_clock (l : LengthCounter) (n : Nat) : (clock^[n] l).halt = l.halt := by
  induction n with
  | zero => rfl
  | succ n ih => rw [Function.iterate_succ_apply', halt_clock, ih]

/-- One clock takes one off a counter that is not halted, until it is empty. -/
theorem counter_clock {l : LengthCounter} (h : l.halt = false) :
    l.clock.counter.toNat = l.counter.toNat - 1 := by
  unfold clock
  rw [h, Bool.not_false, Bool.true_and]
  by_cases hcounter : l.counter > 0
  · have hle : (1 : UInt8) ≤ l.counter := by grind
    rw [if_pos (decide_eq_true hcounter)]
    exact UInt8.toNat_sub_of_le _ _ hle
  · have hzero : l.counter = 0 := by grind
    rw [if_neg (by simpa using hcounter), hzero]
    rfl

theorem counter_iterate_clock {l : LengthCounter} (h : l.halt = false) (n : Nat) :
    (clock^[n] l).counter.toNat = l.counter.toNat - min l.counter.toNat n := by
  induction n with
  | zero => simp
  | succ n ih =>
      rw [Function.iterate_succ_apply', counter_clock ((halt_iterate_clock l n).trans h), ih]
      omega

end LengthCounter

/-! ## The closed form -/

namespace SequencerMode

theorem halfFrame_eventAt (m : SequencerMode) (cycle : Nat) :
    (m.eventAt cycle).halfFrame = decide (cycle % m.period ∈ [14913, 0]) := by
  by_cases hhalf : cycle % m.period ∈ [14913, 0]
  · rw [eventAt, if_pos hhalf, decide_eq_true hhalf]
    rfl
  · rw [eventAt, if_neg hhalf, decide_eq_false hhalf]
    split <;> rfl

/-- A half frame is a quarter frame as well. -/
theorem quarterFrame_eventAt (m : SequencerMode) (cycle : Nat) :
    (m.eventAt cycle).quarterFrame = decide (cycle % m.period ∈ [7457, 14913, 22371, 0]) := by
  have hsplit : cycle % m.period ∈ [7457, 14913, 22371, 0] ↔
      cycle % m.period ∈ [14913, 0] ∨ cycle % m.period ∈ [7457, 22371] := by
    simp only [List.mem_cons, List.not_mem_nil, or_false]
    omega
  rw [decide_eq_decide.2 hsplit]
  by_cases hhalf : cycle % m.period ∈ [14913, 0]
  · rw [eventAt, if_pos hhalf, decide_eq_true (.inl hhalf)]
    rfl
  · by_cases hquarter : cycle % m.period ∈ [7457, 22371]
    · rw [eventAt, if_neg hhalf, if_pos hquarter, decide_eq_true (.inr hquarter)]
      rfl
    · rw [eventAt, if_neg hhalf, if_neg hquarter, decide_eq_false (not_or.2 ⟨hhalf, hquarter⟩)]
      rfl

/-- The frames of one kind in the first cycles of a sequence, counted by the numbers of
these cycles. -/
theorem countP_eventAt (m : SequencerMode) (frame : FrameEvent → Bool) (residues : List Nat)
    (h : ∀ cycle, frame (m.eventAt cycle) = decide (cycle % m.period ∈ residues)) (n : Nat) :
    ((List.range' 1 n).map m.eventAt).countP frame =
      (List.range' 1 n).countP fun cycle => cycle % m.period ∈ residues := by
  rw [List.countP_map]
  exact List.countP_congr fun cycle _ => by rw [Function.comp_apply, h]

end SequencerMode

namespace SoundUnit

theorem sequencer_writeSequencer (u : SoundUnit) (value : UInt8) :
    (u.writeSequencer value).sequencer = u.sequencer.write value := by
  rw [writeSequencer_eq, sequencer_clockFrame]

/-- How often a kind of frame comes in the first cycles behind a write to the mode register,
the write itself included. -/
theorem countP_written (u : SoundUnit) (value : UInt8) (frame : FrameEvent → Bool)
    (residues : List Nat)
    (hatOnce : frame (Sequencer.clockedAtOnce value) = hasBits value 0x80)
    (h : ∀ (m : SequencerMode) (cycle : Nat),
      frame (m.eventAt cycle) = decide (cycle % m.period ∈ residues)) (n : Nat) :
    (Sequencer.clockedAtOnce value :: (u.writeSequencer value).events n).countP frame =
      (if hasBits value 0x80 then 1 else 0) + (List.range' 1 n).countP fun cycle =>
        cycle % (if hasBits value 0x80 then 37281 else 29829) ∈ residues := by
  have hstart : (u.writeSequencer value).sequencer.AtCycle 0 :=
    u.sequencer_writeSequencer value ▸ Sequencer.atCycle_write value u.sequencer
  have hmode : (u.writeSequencer value).sequencer.mode.period =
      if hasBits value 0x80 then 37281 else 29829 := by
    rw [sequencer_writeSequencer, Sequencer.write]
    cases hasBits value 0x80 <;> rfl
  rw [List.countP_cons, hatOnce, events_ticks hstart,
    SequencerMode.countP_eventAt _ frame residues (h _), hmode, Nat.add_comm]

/-- In which of the next cycles the sequencer requests an interrupt. -/
theorem irq_written (u : SoundUnit) (value : UInt8) (n : Nat) (request : Bool) :
    let s := (tick^[n] (u.writeSequencer value)).sequencer
    { s with irq := request }.next.2.irq = true ↔
      request = true ∨
        (¬ hasBits value 0x80 ∧ hasBits value 0x40 = false ∧ 29829 ∣ n + 1) := by
  intro s
  have hstart : (u.writeSequencer value).sequencer.AtCycle 0 :=
    u.sequencer_writeSequencer value ▸ Sequencer.atCycle_write value u.sequencer
  obtain ⟨hcycle, hmode, hinhibit⟩ := atCycle_ticks hstart n
  have hfour : s.mode = .four ↔ ¬ hasBits value 0x80 := by
    rw [hmode, sequencer_writeSequencer, Sequencer.write]
    cases hasBits value 0x80 <;> simp
  have hbit : s.inhibit = hasBits value 0x40 := by
    rw [hinhibit, sequencer_writeSequencer, Sequencer.write]
  have hposition : { s with irq := request }.AtCycle (0 + n) :=
    ⟨hcycle.step, hcycle.counter, hcycle.behind, hcycle.ahead⟩
  rw [hposition.irq_next, Nat.zero_add]
  simp only [hfour, hbit]

/-- The number of cycles since the last write to the mode register tells how often the
sequencer has clocked each of its parts, and in which cycles it requests an interrupt. -/
theorem sequencer_closed_form (u : SoundUnit) (value : UInt8) (n : Nat) :
    let long := hasBits value 0x80
    let period := if long then 37281 else 29829
    let atOnce := if long then 1 else 0
    let quarters := atOnce +
      (List.range' 1 n).countP fun cycle => cycle % period ∈ [7457, 14913, 22371, 0]
    let halves := atOnce + (List.range' 1 n).countP fun cycle => cycle % period ∈ [14913, 0]
    let written := u.write 0x4017 value
    let clocked := Sequencer.clockedAtOnce value :: written.events n
    let behind := tick^[n] written
    let requests := ¬ long ∧ hasBits value 0x40 = false ∧ 29829 ∣ n + 1
    (clocked.countP FrameEvent.quarterFrame = quarters ∧
      clocked.countP FrameEvent.halfFrame = halves) ∧
    (behind.pulse1.envelope = Envelope.clock^[quarters] u.pulse1.envelope ∧
      behind.pulse2.envelope = Envelope.clock^[quarters] u.pulse2.envelope ∧
      behind.noise.envelope = Envelope.clock^[quarters] u.noise.envelope ∧
      behind.triangle.linear = (Triangle.clockLinear^[quarters] u.triangle).linear) ∧
    ((behind.pulse1.period, behind.pulse1.sweep) =
        (fun p => p.2.clock p.1)^[halves] (u.pulse1.period, u.pulse1.sweep) ∧
      (behind.pulse2.period, behind.pulse2.sweep) =
        (fun p => p.2.clock p.1)^[halves] (u.pulse2.period, u.pulse2.sweep)) ∧
    (∀ v : Voice, v.length behind = LengthCounter.clock^[halves] (v.length u) ∧
      ((v.length u).halt = false → (v.length behind).counter.toNat =
        (v.length u).counter.toNat - min (v.length u).counter.toNat halves)) ∧
    (behind.tick.sequencer.irq = true ↔ behind.sequencer.irq = true ∨ requests) ∧
    ((behind.read 0x4015).2.tick.sequencer.irq = true ↔ requests) := by
  intro long period atOnce quarters halves written clocked behind requests
  have hquarters : clocked.countP FrameEvent.quarterFrame = quarters := by
    refine countP_written u value _ _ ?_ SequencerMode.quarterFrame_eventAt n
    unfold Sequencer.clockedAtOnce
    cases hasBits value 0x80 <;> rfl
  have hhalves : clocked.countP FrameEvent.halfFrame = halves := by
    refine countP_written u value _ _ ?_ SequencerMode.halfFrame_eventAt n
    unfold Sequencer.clockedAtOnce
    cases hasBits value 0x80 <;> rfl
  have hlinear : behind.triangle.linear =
      (Triangle.clockLinear^[quarters] u.triangle).linear := by
    have hpart : behind.triangle.linearPart = Triangle.clockLinear^[quarters] _ :=
      hquarters ▸ clocked_linear.write_ticks u value n
    rw [← Triangle.linearPart_iterate] at hpart
    show behind.triangle.linearPart.linear = _
    rw [hpart]
    rfl
  have hlength (v : Voice) : v.length behind = LengthCounter.clock^[halves] (v.length u) :=
    hhalves ▸ (clocked_length v).write_ticks u value n
  refine ⟨⟨hquarters, hhalves⟩, ⟨?_, ?_, ?_, hlinear⟩, ⟨?_, ?_⟩, fun v => ⟨hlength v, ?_⟩, ?_, ?_⟩
  · exact hquarters ▸ (clocked_envelope .first).write_ticks u value n
  · exact hquarters ▸ (clocked_envelope .second).write_ticks u value n
  · exact hquarters ▸ clocked_envelopeNoise.write_ticks u value n
  · exact hhalves ▸ (clocked_sweep .first).write_ticks u value n
  · exact hhalves ▸ (clocked_sweep .second).write_ticks u value n
  · intro hhalt
    rw [hlength v]
    exact LengthCounter.counter_iterate_clock hhalt halves
  · rw [sequencer_tick]
    exact irq_written u value n behind.sequencer.irq
  · rw [sequencer_tick]
    exact (irq_written u value n false).trans (or_iff_right Bool.false_ne_true)

end SoundUnit

end Famicom.Audio
