import Famicom.Proofs.Audio.Pulses

/-!
# Sweeps stay in range

A sweep works with words of sixteen bits, and takes its target for a period only if it fits
into eleven of them. Two writes to registers set a period, each of them a part. In all that:

* **targets** — where the sweep moves a period, the target is the one of whole numbers, so
  that nothing wraps around (`Sweep.target_eq_aim`);
* **direction** — the target lies on the side of the period that the sweep is set to
  (`Sweep.aim_le`, `Sweep.le_aim`);
* **rest** — a period that is too short, or whose target is too long, stays where it is, and
  no clock but only a register brings it out of there (`Pulse.Resting.afterAll`).

`periods_swept` says this of every history of a pulse channel.
-/

namespace Famicom.Audio

namespace Sweep

variable {s : Sweep} {current : UInt16}

/-! ## Targets -/

/-- How far a sweep moves a period. -/
def distance (current : UInt16) (s : Sweep) : Nat := current.toNat / 2 ^ s.shift.toNat

/-- The target of a sweep in whole numbers. -/
def aim (current : UInt16) (s : Sweep) : Int :=
  if s.negate then (current.toNat : Int) - s.distance current - s.extraDecrement.toNat
  else (current.toNat : Int) + s.distance current

theorem moves_iff :
    s.moves current = true ↔ s.divider = 0 ∧ s.enabled = true ∧ 0 < s.shift ∧
      shortest ≤ current ∧ s.target current ≤ longest := by
  simp only [moves, Bool.and_eq_true, beq_iff_eq, decide_eq_true_eq, gt_iff_lt, ge_iff_le,
    and_assoc]

theorem distance_le (current : UInt16) (s : Sweep) : s.distance current ≤ current.toNat :=
  Nat.div_le_self _ _

/-- A sweep moves a period by the half of it at most. -/
theorem two_mul_distance_le (hshift : 0 < s.shift) : 2 * s.distance current ≤ current.toNat := by
  have hpos : 0 < s.shift.toNat := UInt8.lt_iff_toNat_lt.1 hshift
  have htwo : 2 ≤ 2 ^ s.shift.toNat := Nat.le_self_pow (Nat.ne_of_gt hpos) 2
  calc 2 * s.distance current
      ≤ 2 ^ s.shift.toNat * s.distance current := Nat.mul_le_mul_right _ htwo
    _ ≤ current.toNat := Nat.mul_div_le _ _

theorem toNat_distance (h : s.InRange) (current : UInt16) :
    (current >>> s.shift.toUInt16).toNat = s.distance current := by
  have hshift := UInt8.lt_iff_toNat_lt.1 h.shift
  have hsmall : s.shift.toNat % 16 = s.shift.toNat :=
    Nat.mod_eq_of_lt (Nat.lt_trans hshift (by decide))
  rw [UInt16.toNat_shiftRight, UInt8.toNat_toUInt16, hsmall, Nat.shiftRight_eq_div_pow]
  rfl

/-- Upward, a period of eleven bits does not leave the word. -/
theorem target_up (h : s.InRange) (hup : s.negate = false) (hle : current ≤ longest) :
    ((s.target current).toNat : Int) = s.aim current := by
  have hcurrent : current.toNat ≤ 2047 := UInt16.le_iff_toNat_le.1 hle
  have hdistance := s.distance_le current
  have htarget : s.target current = current + (current >>> s.shift.toUInt16) := by
    simp [target, hup]
  have haim : s.aim current = current.toNat + s.distance current := by
    simp [aim, hup]
  rw [htarget, haim, UInt16.toNat_add, toNat_distance h]
  omega

/-- Downward, a period that sounds is longer than the way that it is moved. -/
theorem target_down (h : s.InRange) (hdown : s.negate = true) (hshift : 0 < s.shift)
    (hcurrent : shortest ≤ current) : ((s.target current).toNat : Int) = s.aim current := by
  have hlong : 8 ≤ current.toNat := UInt16.le_iff_toNat_le.1 hcurrent
  have hhalf : 2 * s.distance current ≤ current.toNat := two_mul_distance_le hshift
  have hmoved := toNat_distance h current
  have hfits : current >>> s.shift.toUInt16 ≤ current := by
    rw [UInt16.le_iff_toNat_le, hmoved]
    omega
  have hless : (current - (current >>> s.shift.toUInt16)).toNat =
      current.toNat - s.distance current := by
    rw [UInt16.toNat_sub_of_le _ _ hfits, hmoved]
  cases hextra : s.extraDecrement with
  | false =>
      have htarget : s.target current = current - (current >>> s.shift.toUInt16) := by
        simp [target, hdown, hextra]
      have haim : s.aim current = current.toNat - s.distance current := by
        simp [aim, hdown, hextra]
      rw [htarget, haim, hless]
      omega
  | true =>
      have htarget : s.target current = current - (current >>> s.shift.toUInt16) - 1 := by
        simp [target, hdown, hextra]
      have haim : s.aim current = current.toNat - s.distance current - 1 := by
        simp [aim, hdown, hextra]
      have hone : 1 ≤ current - (current >>> s.shift.toUInt16) := by
        rw [UInt16.le_iff_toNat_le, hless]
        show 1 ≤ _
        omega
      rw [htarget, haim, UInt16.toNat_sub_of_le _ _ hone, hless]
      show ((current.toNat - s.distance current - 1 : Nat) : Int) = _
      omega

/-- Where a sweep moves the period, its target is the one of whole numbers. -/
theorem target_eq_aim (h : s.InRange) (hle : current ≤ longest)
    (hmoves : s.moves current = true) : ((s.target current).toNat : Int) = s.aim current := by
  obtain ⟨-, -, hshift, hcurrent, -⟩ := moves_iff.1 hmoves
  cases hnegate : s.negate with
  | false => exact target_up h hnegate hle
  | true => exact target_down h hnegate hshift hcurrent

/-! ## Direction -/

theorem aim_le (current : UInt16) (hdown : s.negate = true) : s.aim current ≤ current.toNat := by
  rw [aim, if_pos hdown]
  omega

theorem le_aim (current : UInt16) (hup : s.negate = false) : (current.toNat : Int) ≤ s.aim current := by
  rw [aim, hup, if_neg Bool.false_ne_true]
  omega

/-! ## Rest -/

/-- The period is too short to be moved, or its target too long. -/
def Rests (current : UInt16) (s : Sweep) : Prop :=
  current < shortest ∨ s.negate = false ∧ (longest.toNat : Int) < s.aim current

theorem Rests.not_moves (h : s.Rests current) (hs : s.InRange) (hle : current ≤ longest) :
    s.moves current = false := by
  apply Bool.eq_false_iff.2
  intro hmoves
  obtain ⟨-, -, -, hcurrent, htarget⟩ := moves_iff.1 hmoves
  rcases h with hshort | ⟨-, hlong⟩
  · exact UInt16.not_le.2 hshort hcurrent
  · have hfits : (s.target current).toNat ≤ longest.toNat := UInt16.le_iff_toNat_le.1 htarget
    rw [← target_eq_aim hs hle hmoves] at hlong
    omega

end Sweep

namespace Pulse

variable {c : Pulse}

theorem InRange.period_le (h : c.InRange) : c.period ≤ Sweep.longest := by
  have hperiod := UInt16.lt_iff_toNat_lt.1 h.period
  exact UInt16.le_iff_toNat_le.2 (Nat.le_of_lt_succ hperiod)

/-- The clock of a half frame moves the period to the side that the sweep is set to. -/
theorem halfFrame_monotone (h : c.InRange) :
    (c.sweep.negate = true → (c.after .halfFrame).period ≤ c.period) ∧
    (c.sweep.negate = false → c.period ≤ (c.after .halfFrame).period) := by
  rw [period_halfFrame]
  by_cases hmoves : c.sweep.moves c.period = true
  · have haim := Sweep.target_eq_aim h.sweep h.period_le hmoves
    rw [if_pos hmoves]
    constructor
    · intro hdown
      have hle := Sweep.aim_le c.period hdown
      rw [UInt16.le_iff_toNat_le]
      omega
    · intro hup
      have hle := Sweep.le_aim c.period hup
      rw [UInt16.le_iff_toNat_le]
      omega
  · rw [if_neg hmoves]
    exact ⟨fun _ => UInt16.le_refl _, fun _ => UInt16.le_refl _⟩

/-- The period of the channel rests. -/
def Resting (c : Pulse) : Prop := c.sweep.Rests c.period

/-- An event that is no write leaves a resting period alone, and at rest. -/
theorem Resting.after (h : c.Resting) (hc : c.InRange) {event : PulseEvent}
    (hclock : ¬ event.IsWrite) :
    (c.after event).period = c.period ∧ (c.after event).Resting := by
  have hperiod : (c.after event).period = c.period :=
    period_after hclock (h.not_moves hc.sweep hc.period_le)
  have hcontrols := c.sameControls_after hclock
  refine ⟨hperiod, ?_⟩
  rcases h with hshort | ⟨hup, hlong⟩
  · exact .inl (hperiod ▸ hshort)
  · refine .inr ⟨hcontrols.negate.trans hup, ?_⟩
    -- the way up does not depend on the rest of the sweep
    have hsame : (c.after event).sweep.aim (c.after event).period = c.sweep.aim c.period := by
      simp only [Sweep.aim, Sweep.distance, hcontrols.negate, hup, hcontrols.shift, hperiod,
        Bool.false_eq_true, if_false]
    rw [hsame]
    exact hlong

theorem Resting.afterAll (h : c.Resting) (hc : c.InRange) {events : List PulseEvent}
    (hclocks : ∀ event ∈ events, ¬ event.IsWrite) : (c.afterAll events).period = c.period := by
  induction events generalizing c with
  | nil => rfl
  | cons event rest ih =>
      obtain ⟨hperiod, hrests⟩ := h.after hc (hclocks event List.mem_cons_self)
      have hrest := ih hrests (hc.after event) fun later hlater =>
        hclocks later (List.mem_cons_of_mem event hlater)
      exact hrest.trans hperiod

end Pulse

namespace PulseVoice

theorem inRange_afterAll (v : PulseVoice) (events : List PulseEvent) :
    (v.powerOn.afterAll events).InRange :=
  (Pulse.inRange_powerOn (v = second)).afterAll events

/-- The second channel sweeps down by one more, whatever has happened to it. -/
theorem extraDecrement_powerOn (v : PulseVoice) (events : List PulseEvent) :
    (v.powerOn.afterAll events).sweep.extraDecrement = decide (v = second) :=
  Pulse.extraDecrement_afterAll v.powerOn events

/-- **Sweeps.** Take any history of a pulse channel from power-on: writes to its registers,
clocks of half frames, and whatever else the channel hears, in any order.

* The period has eleven bits.
* Where the sweep moves the period, it moves it to the target, and this is the one of whole
  numbers.
* A clock does not move the period up if the sweep is set to go down, and not down if it is
  set to go up.
* When the period is shorter than eight, or when the target of an upward sweep is beyond the
  eleven bits, then it stays as it is until a register is written.

The channels of the sound unit have such histories. -/
theorem periods_swept (v : PulseVoice) (events : List PulseEvent) :
    let c := v.powerOn.afterAll events
    let period := c.period.toNat
    let distance := period / 2 ^ c.sweep.shift.toNat
    let next := c.after .halfFrame
    c.period ≤ 0x7FF ∧
    (c.sweep.moves c.period = true →
      next.period = c.sweep.target c.period ∧
      (next.period.toNat : Int) =
        if c.sweep.negate then (period : Int) - distance - (if v = .second then 1 else 0)
        else (period : Int) + distance) ∧
    ((c.sweep.negate = true → next.period ≤ c.period) ∧
      (c.sweep.negate = false → c.period ≤ next.period)) ∧
    (period < 8 ∨ c.sweep.negate = false ∧ 0x7FF < period + distance →
      ∀ later : List PulseEvent, (∀ event ∈ later, ¬ event.IsWrite) →
        (c.afterAll later).period = c.period) ∧
    ∀ (rate : UInt32) (history : List SoundEvent),
      v.channel ((SoundUnit.powerOn rate).afterAll history) =
        v.powerOn.afterAll (v.heardAll (.powerOn rate) history) := by
  intro c period distance next
  have hrange : c.InRange := v.inRange_afterAll events
  have hextra : c.sweep.extraDecrement = decide (v = second) := v.extraDecrement_powerOn events
  refine ⟨hrange.period_le, ?_, Pulse.halfFrame_monotone hrange, ?_, ?_⟩
  · intro hmoves
    have hnext : next.period = c.sweep.target c.period := by
      rw [Pulse.period_halfFrame, if_pos hmoves]
    refine ⟨hnext, ?_⟩
    rw [hnext, Sweep.target_eq_aim hrange.sweep hrange.period_le hmoves, Sweep.aim, hextra]
    cases v <;> rfl
  · intro hrests later hlater
    refine Pulse.Resting.afterAll ?_ hrange hlater
    rcases hrests with hshort | ⟨hup, hlong⟩
    · exact .inl (UInt16.lt_iff_toNat_lt.2 hshort)
    · refine .inr ⟨hup, ?_⟩
      rw [Sweep.aim, hup, if_neg Bool.false_ne_true]
      exact_mod_cast hlong
  · intro rate history
    rw [channel_afterAll, channel_powerOn]

/-- The second channel sweeps down from the shortest period that sounds, and then rests. The
first one sweeps up, as long as it can. -/
theorem periods_swept_resting :
    let down : List PulseEvent := [.write 0x4005 0x89, .write 0x4006 0x08]
    let up : List PulseEvent := [.write 0x4001 0x81, .write 0x4002 0x00, .write 0x4003 0x06]
    let c := second.powerOn.afterAll down
    let d := first.powerOn.afterAll up
    let frames : List PulseEvent := [.halfFrame, .quarterFrame, .timer, .halfFrame]
    (c.sweep.moves c.period = true ∧ ((c.after .halfFrame).period.toNat : Int) = 3) ∧
    (c.sweep.negate = true ∧ (c.after .halfFrame).period ≤ c.period) ∧
    (d.sweep.negate = false ∧ d.period ≤ (d.after .halfFrame).period) ∧
    (0x7FF < d.period.toNat + d.period.toNat / 2 ^ d.sweep.shift.toNat ∧
      (∀ event ∈ frames, ¬ event.IsWrite) ∧ (d.afterAll frames).period = d.period) := by
  intro down up c d frames
  obtain ⟨-, hmoved, ⟨hdown, -⟩, -, -⟩ := periods_swept second down
  obtain ⟨-, -, ⟨-, hup⟩, hrests, -⟩ := periods_swept first up
  have hmoves : c.sweep.moves c.period = true := by decide
  have hlong : 0x7FF < d.period.toNat + d.period.toNat / 2 ^ d.sweep.shift.toNat := by decide
  have hclocks : ∀ event ∈ frames, ¬ event.IsWrite := by
    intro event hevent hwrite
    cases event <;> simp [frames, PulseEvent.IsWrite] at hevent hwrite
  exact ⟨⟨hmoves, (hmoved hmoves).2.trans (by decide)⟩, ⟨by decide, hdown (by decide)⟩,
    ⟨by decide, hup (by decide)⟩, hlong, hclocks, hrests (.inr ⟨by decide, hlong⟩) frames hclocks⟩

end PulseVoice

end Famicom.Audio
