import Famicom.Proofs.Audio.FrameClocks
import Famicom.Proofs.Audio.Snapshots

/-!
# What a pulse channel hears

The sound unit has two pulse channels. Of all that happens to the unit a channel hears four
registers, a bit of the enables, the clocks of its timer and those of the sequencer, and
nothing else:

* **events** — what happens to a channel by itself (`PulseEvent`) keeps its widths and its
  make (`Pulse.InRange.afterAll`, `Pulse.extraDecrement_afterAll`), and clocks alone keep the
  controls of the sweep (`Pulse.sameControls_after`);
* **registers** — where a write to the unit goes (`SoundUnit.write_cases`);
* **histories** — a channel of the unit is what it has heard (`PulseVoice.channel_afterAll`).
-/

namespace Famicom.Audio

/-! ## A channel by itself -/

/-- What happens to a pulse channel. -/
inductive PulseEvent where
  /-- A write to one of the four registers. -/
  | write (register : UInt16) (value : UInt8)
  | enable (enabled : Bool)
  /-- The clock of the timer. -/
  | timer
  | quarterFrame
  | halfFrame
deriving DecidableEq

/-- The event is a write to a register. -/
def PulseEvent.IsWrite : PulseEvent → Prop
  | .write _ _ => True
  | _ => False

namespace Pulse

/-- The channel behind an event. -/
def after (c : Pulse) : PulseEvent → Pulse
  | .write register value => c.write register value
  | .enable enabled => { c with length := c.length.setEnabled enabled }
  | .timer => c.clockTimer
  | .quarterFrame => { c with envelope := c.envelope.clock }
  | .halfFrame => { c with length := c.length.clock }.clockSweep

/-- The channel behind a history. -/
def afterAll (c : Pulse) (events : List PulseEvent) : Pulse := events.foldl after c

theorem afterAll_append (c : Pulse) (events later : List PulseEvent) :
    c.afterAll (events ++ later) = (c.afterAll events).afterAll later :=
  List.foldl_append

theorem InRange.after {c : Pulse} (h : c.InRange) (event : PulseEvent) :
    (c.after event).InRange := by
  cases event with
  | write register value => exact h.write register value
  | enable enabled => exact h.withLength _
  | timer => exact h.clockTimer
  | quarterFrame => exact h.clockEnvelope
  | halfFrame => exact (h.withLength _).clockSweep

theorem InRange.afterAll {c : Pulse} (h : c.InRange) (events : List PulseEvent) :
    (c.afterAll events).InRange := by
  induction events generalizing c with
  | nil => exact h
  | cons event rest ih => exact ih (h.after event)

theorem extraDecrement_after (c : Pulse) (event : PulseEvent) :
    (c.after event).sweep.extraDecrement = c.sweep.extraDecrement := by
  cases event with
  | write register value => exact SoundUnit.extraDecrement_pulseWrite c register value
  | enable enabled => rfl
  | timer => exact SoundUnit.extraDecrement_clockTimer c
  | quarterFrame => rfl
  | halfFrame => exact Sweep.clock_extraDecrement _ _

/-- How far a channel sweeps down is wired. -/
theorem extraDecrement_afterAll (c : Pulse) (events : List PulseEvent) :
    (c.afterAll events).sweep.extraDecrement = c.sweep.extraDecrement := by
  induction events generalizing c with
  | nil => rfl
  | cons event rest ih => exact (ih (c.after event)).trans (extraDecrement_after c event)

/-- The controls of a sweep, apart from its divider. -/
structure SameControls (c d : Pulse) : Prop where
  enabled : d.sweep.enabled = c.sweep.enabled
  negate : d.sweep.negate = c.sweep.negate
  shift : d.sweep.shift = c.sweep.shift

/-- Only a register sets the controls of the sweep. -/
theorem sameControls_after (c : Pulse) {event : PulseEvent} (h : ¬ event.IsWrite) :
    c.SameControls (c.after event) := by
  cases event with
  | write register value => exact absurd trivial h
  | enable enabled => exact ⟨rfl, rfl, rfl⟩
  | timer =>
      obtain ⟨timer, step, hclock⟩ := c.clockTimer_eq
      show c.SameControls c.clockTimer
      rw [hclock]
      exact ⟨rfl, rfl, rfl⟩
  | quarterFrame => exact ⟨rfl, rfl, rfl⟩
  | halfFrame =>
      have hsweep : (c.after .halfFrame).sweep = (c.sweep.clock c.period).2 := rfl
      constructor <;> rw [hsweep, Sweep.clock_snd] <;> split <;> rfl

/-- The clock of a half frame is that of the sweep. -/
theorem period_halfFrame (c : Pulse) :
    (c.after .halfFrame).period =
      if c.sweep.moves c.period then c.sweep.target c.period else c.period :=
  Sweep.clock_fst c.sweep c.period

/-- Only a register and the sweep change the period. -/
theorem period_after {c : Pulse} {event : PulseEvent} (h : ¬ event.IsWrite)
    (hstays : c.sweep.moves c.period = false) : (c.after event).period = c.period := by
  cases event with
  | write register value => exact absurd trivial h
  | enable enabled => rfl
  | timer =>
      obtain ⟨timer, step, hclock⟩ := c.clockTimer_eq
      show c.clockTimer.period = c.period
      rw [hclock]
  | quarterFrame => rfl
  | halfFrame => rw [period_halfFrame, hstays, if_neg Bool.false_ne_true]

end Pulse

/-! ## The channels of the unit -/

namespace PulseVoice

/-- The first of the four registers of the channel. -/
def row : PulseVoice → UInt16
  | first => 0x4000
  | second => 0x4004

/-- The bit of the channel in the enables. -/
def bit : PulseVoice → UInt8
  | first => 0x01
  | second => 0x02

/-- The channel at power-on. The second one sweeps down by one more. -/
def powerOn (v : PulseVoice) : Pulse := .powerOn (v = second)

theorem channel_powerOn (v : PulseVoice) (rate : UInt32) :
    v.channel (.powerOn rate) = v.powerOn := by
  cases v <;> rfl

end PulseVoice

/-- What a pulse channel hears of a step of the sequencer. -/
def FrameEvent.heard : FrameEvent → List PulseEvent
  | .nothing => []
  | .quarter => [.quarterFrame]
  | .half => [.quarterFrame, .halfFrame]

/-- Apart from the pulse channels, the enables and the sequencer, a write concerns the
other channels or nothing. -/
theorem SoundUnit.exists_write_elsewhere (u : SoundUnit) {address : UInt16} (value : UInt8)
    (hrows : ¬ (0x4000 ≤ address ∧ address ≤ 0x4007)) (henables : address ≠ 0x4015)
    (hsequencer : address ≠ 0x4017) :
    ∃ triangle noise delta, u.write address value = { u with triangle, noise, delta } := by
  unfold write
  by_cases hbelow : address < 0x4000
  · rw [if_pos hbelow]
    exact ⟨_, _, _, rfl⟩
  · have hsecond : ¬ address ≤ 0x4007 := fun h => hrows ⟨UInt16.not_lt.1 hbelow, h⟩
    have hfirst : ¬ address ≤ 0x4003 := fun h => hsecond (UInt16.le_trans h (by decide))
    simp only [if_neg hbelow, if_neg hfirst, if_neg hsecond, beq_iff_eq, if_neg henables,
      if_neg hsequencer]
    split
    · exact ⟨_, _, _, rfl⟩
    split
    · exact ⟨_, _, _, rfl⟩
    split
    · exact ⟨_, _, _, rfl⟩
    · exact ⟨_, _, _, rfl⟩

/-- A write concerns a pulse channel, or the enables, or the sequencer, or none of these. -/
theorem SoundUnit.write_cases (u : SoundUnit) (address : UInt16) (value : UInt8) :
    (0x4000 ≤ address ∧ address ≤ 0x4003 ∧
      u.write address value = { u with pulse1 := u.pulse1.write address value }) ∨
    (0x4004 ≤ address ∧ address ≤ 0x4007 ∧
      u.write address value = { u with pulse2 := u.pulse2.write address value }) ∨
    (address = 0x4015 ∧ u.write address value = u.enable value) ∨
    (address = 0x4017 ∧ u.write address value = u.writeSequencer value) ∨
    (¬ (0x4000 ≤ address ∧ address ≤ 0x4007) ∧ address ≠ 0x4015 ∧ address ≠ 0x4017 ∧
      ∃ triangle noise delta, u.write address value = { u with triangle, noise, delta }) := by
  by_cases hfirst : 0x4000 ≤ address ∧ address ≤ 0x4003
  · refine .inl ⟨hfirst.1, hfirst.2, ?_⟩
    rw [write, if_neg (UInt16.not_lt.2 hfirst.1), if_pos hfirst.2]
  by_cases hsecond : 0x4004 ≤ address ∧ address ≤ 0x4007
  · have hbelow : ¬ address < 0x4000 :=
      UInt16.not_lt.2 (UInt16.le_trans (by decide) hsecond.1)
    have hbehind : ¬ address ≤ 0x4003 :=
      UInt16.not_le.2 (UInt16.lt_of_lt_of_le (by decide) hsecond.1)
    refine .inr (.inl ⟨hsecond.1, hsecond.2, ?_⟩)
    rw [write, if_neg hbelow, if_neg hbehind, if_pos hsecond.2]
  by_cases henables : address = 0x4015
  · subst henables
    exact .inr (.inr (.inl ⟨rfl, rfl⟩))
  by_cases hsequencer : address = 0x4017
  · subst hsequencer
    exact .inr (.inr (.inr (.inl ⟨rfl, rfl⟩)))
  · have hrows : ¬ (0x4000 ≤ address ∧ address ≤ 0x4007) := by grind
    exact .inr (.inr (.inr (.inr ⟨hrows, henables, hsequencer,
      u.exists_write_elsewhere value hrows henables hsequencer⟩)))

namespace PulseVoice

variable (v : PulseVoice) (u : SoundUnit)

/-- What a channel hears of a write to the sound unit. -/
def heardWrite (address : UInt16) (value : UInt8) : List PulseEvent :=
  if v.row ≤ address ∧ address ≤ v.row + 3 then [.write address value]
  else if address = 0x4015 then [.enable (hasBits value v.bit)]
  else if address = 0x4017 then (Sequencer.clockedAtOnce value).heard
  else []

/-- What a channel hears of an event. Its timer is clocked in odd cycles only. -/
def heard (u : SoundUnit) : SoundEvent → List PulseEvent
  | .read _ => []
  | .write address value => v.heardWrite address value
  | .cycle => (if u.oddCycle then [.timer] else []) ++ u.sequencer.next.1.heard
  | .deliver _ => []

/-- What a channel hears of a history. -/
def heardAll (u : SoundUnit) : List SoundEvent → List PulseEvent
  | [] => []
  | event :: rest => v.heard u event ++ heardAll (u.after event) rest

theorem channel_clockFrame (event : FrameEvent) :
    v.channel (u.clockFrame event) = (v.channel u).afterAll event.heard := by
  cases v <;> cases event <;> rfl

theorem channel_tick :
    v.channel u.tick = (v.channel u).afterAll (v.heard u .cycle) := by
  have htimers : v.channel u.clockTimers =
      (v.channel u).afterAll (if u.oddCycle then [.timer] else []) := by
    rw [channel_clockTimers]
    cases u.oddCycle <;> rfl
  have hkept (w : SoundUnit) (resampler : Resampler) (samples : Array Float32) :
      v.channel { w with resampler, samples } = v.channel w := by
    cases v <;> rfl
  have hsequencer (sequencer : Sequencer) :
      v.channel { u.clockTimers with sequencer } = v.channel u.clockTimers := by
    cases v <;> rfl
  obtain ⟨resampler, samples, htick⟩ := u.exists_tick
  rw [htick, hkept, channel_clockFrame, hsequencer, htimers, ← Pulse.afterAll_append]
  rfl

/-- A channel hears nothing of a write to another row. -/
theorem heardWrite_elsewhere {address : UInt16} (value : UInt8)
    (hrow : ¬ (v.row ≤ address ∧ address ≤ v.row + 3)) (henables : address ≠ 0x4015)
    (hsequencer : address ≠ 0x4017) : v.heardWrite address value = [] := by
  rw [heardWrite, if_neg hrow, if_neg henables, if_neg hsequencer]

theorem channel_write (address : UInt16) (value : UInt8) :
    v.channel (u.write address value) = (v.channel u).afterAll (v.heardWrite address value) := by
  rcases u.write_cases address value with ⟨hlow, hhigh, hwrite⟩ | ⟨hlow, hhigh, hwrite⟩ |
      ⟨rfl, hwrite⟩ | ⟨rfl, hwrite⟩ | ⟨hrows, henables, hsequencer, triangle, noise, delta, hwrite⟩
  · rw [hwrite]
    cases v with
    | first =>
        rw [heardWrite, if_pos ⟨hlow, hhigh⟩]
        rfl
    | second =>
        rw [heardWrite_elsewhere _ value (by simp only [row]; grind) (by grind) (by grind)]
        rfl
  · rw [hwrite]
    cases v with
    | first =>
        rw [heardWrite_elsewhere _ value (by simp only [row]; grind) (by grind) (by grind)]
        rfl
    | second =>
        rw [heardWrite, if_pos ⟨hlow, hhigh⟩]
        rfl
  · rw [hwrite]
    cases v <;> rfl
  · rw [hwrite, SoundUnit.writeSequencer_eq, channel_clockFrame]
    cases v <;> rfl
  · have hrow : ¬ (v.row ≤ address ∧ address ≤ v.row + 3) := by
      cases v <;> simp only [row] <;> grind
    rw [hwrite, v.heardWrite_elsewhere value hrow henables hsequencer]
    cases v <;> rfl

theorem channel_after (event : SoundEvent) :
    v.channel (u.after event) = (v.channel u).afterAll (v.heard u event) := by
  cases event with
  | read address =>
      obtain ⟨sequencer, hread⟩ := u.exists_read address
      show v.channel (u.read address).2 = v.channel u
      rw [hread]
      cases v <;> rfl
  | write address value => exact v.channel_write u address value
  | cycle => exact v.channel_tick u
  | deliver byte => cases v <;> rfl

/-- Whatever happens to the unit, a channel is what it has heard. -/
theorem channel_afterAll (events : List SoundEvent) :
    v.channel (u.afterAll events) = (v.channel u).afterAll (v.heardAll u events) := by
  induction events generalizing u with
  | nil => rfl
  | cons event rest ih =>
      show v.channel ((u.after event).afterAll rest) = _
      rw [ih, channel_after, ← Pulse.afterAll_append]
      rfl

end PulseVoice

end Famicom.Audio
