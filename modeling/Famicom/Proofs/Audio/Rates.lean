import Famicom.Proofs.Audio.Countdowns
import Famicom.Proofs.Audio.FrameClocks
import Famicom.Proofs.Audio.Snapshots

/-!
# The rates of the noise and the delta channel

Both channels choose a period from a table and count it down. A countdown that is empty is
loaded again in the next cycle of its own, so that it takes a cycle more than the period; and
the timer of the noise channel counts in every other cycle only.

* **countdowns** — one that is loaded again when it is empty is empty at regular intervals
  (`iterate_reload_eq_zero`);
* **pace** — each channel has such a countdown, which only the cycles count down and only
  the register with the period changes (`Paced`, `paced_noise`, `paced_delta`);
* **clocks** — the shift register of the noise channel moves, and the delta channel plays a
  bit, in exactly the cycles in which the countdown is empty (`SoundUnit.shiftsNoise_iff`,
  `SoundUnit.playsBit_iff`).

The numbers in the tables are cycles of the processor, but no channel keeps to them
(`SoundUnit.clocked_every_span`).
-/

namespace Famicom.Audio

/-! ## The sound unit -/

/-- The cycles in an event. -/
def SoundEvent.cycles : SoundEvent → Nat
  | .cycle => 1
  | _ => 0

/-- The cycles in a history. -/
def cyclesIn (events : List SoundEvent) : Nat := (events.map SoundEvent.cycles).sum

/-- A history does not write to a register. -/
def Spares (register : UInt16) (events : List SoundEvent) : Prop :=
  ∀ value, .write register value ∉ events

/-- Cycles and nothing else. -/
def cyclesAlone (n : Nat) : List SoundEvent := List.replicate n .cycle

theorem cyclesIn_cyclesAlone (n : Nat) : cyclesIn (cyclesAlone n) = n := by
  induction n with
  | zero => rfl
  | succ n ih =>
      show 1 + cyclesIn (cyclesAlone n) = n + 1
      rw [ih, Nat.add_comm]

theorem spares_cyclesAlone (register : UInt16) (n : Nat) : Spares register (cyclesAlone n) :=
  fun _ hmem => nomatch List.eq_of_mem_replicate hmem

theorem Spares.left {register : UInt16} {events later : List SoundEvent}
    (h : Spares register (events ++ later)) : Spares register events :=
  fun value hmem => h value (List.mem_append_left later hmem)

theorem Spares.right {register : UInt16} {events later : List SoundEvent}
    (h : Spares register (events ++ later)) : Spares register later :=
  fun value hmem => h value (List.mem_append_right events hmem)

namespace SoundUnit

theorem afterAll_append (u : SoundUnit) (events later : List SoundEvent) :
    u.afterAll (events ++ later) = (u.afterAll events).afterAll later :=
  List.foldl_append

end SoundUnit

/-- The four registers of a channel differ in two bits. -/
theorem eq_of_register {address target : UInt16} (hrow : address.toNat / 4 = target.toNat / 4)
    (hregister : address &&& 3 = target &&& 3) : address = target := by
  have haddress := @Word.toNat_and_low 3 address 2 rfl
  have htarget := @Word.toNat_and_low 3 target 2 rfl
  rw [hregister] at haddress
  apply UInt16.toNat_inj.1
  omega

/-- A countdown of the sound unit. The cycles count it down and load it with its span, which
no event changes but a write to one register. -/
structure Paced (register : UInt16) (wait span : SoundUnit → Nat) : Prop where
  positive (u : SoundUnit) : 0 < span u
  tick (u : SoundUnit) : wait u.tick = reload (span u) (wait u) ∧ span u.tick = span u
  read (u : SoundUnit) (address : UInt16) :
    wait (u.read address).2 = wait u ∧ span (u.read address).2 = span u
  write (u : SoundUnit) {address : UInt16} (h : address ≠ register) (value : UInt8) :
    wait (u.write address value) = wait u ∧ span (u.write address value) = span u
  deliver (u : SoundUnit) (byte : UInt8) :
    wait (u.deliver byte) = wait u ∧ span (u.deliver byte) = span u

namespace Paced

variable {register : UInt16} {wait span : SoundUnit → Nat}

/-- One event. -/
theorem after (h : Paced register wait span) (u : SoundUnit) {event : SoundEvent}
    (hspares : ∀ value, event ≠ .write register value) :
    wait (u.after event) = (reload (span u))^[event.cycles] (wait u) ∧
      span (u.after event) = span u := by
  cases event with
  | read address => exact h.read u address
  | write address value =>
      refine h.write u ?_ value
      rintro rfl
      exact hspares value rfl
  | cycle => exact h.tick u
  | deliver byte => exact h.deliver u byte

/-- A history counts down by its cycles, whatever else is in it. -/
theorem afterAll (h : Paced register wait span) (u : SoundUnit) {events : List SoundEvent}
    (hspares : Spares register events) :
    wait (u.afterAll events) = (reload (span u))^[cyclesIn events] (wait u) ∧
      span (u.afterAll events) = span u := by
  induction events generalizing u with
  | nil => exact ⟨rfl, rfl⟩
  | cons event rest ih =>
      obtain ⟨hwait, hspan⟩ := h.after u fun value heq => hspares value (heq ▸ List.mem_cons_self)
      obtain ⟨hwaits, hspans⟩ :=
        ih (u.after event) fun value hmem => hspares value (List.mem_cons_of_mem event hmem)
      rw [hspan, hwait, ← Function.iterate_add_apply, Nat.add_comm] at hwaits
      exact ⟨hwaits, hspans.trans hspan⟩

/-- When the countdown is empty. -/
theorem afterAll_eq_zero (h : Paced register wait span) (u : SoundUnit)
    {events : List SoundEvent} (hspares : Spares register events) :
    wait (u.afterAll events) = 0 ↔
      wait u ≤ cyclesIn events ∧ span u ∣ cyclesIn events - wait u := by
  rw [(h.afterAll u hspares).1]
  exact iterate_reload_eq_zero (h.positive u) _ _

/-- Between two moments, the first of which finds the countdown empty. -/
theorem again (h : Paced register wait span) {u : SoundUnit} {events later : List SoundEvent}
    (hspares : Spares register (events ++ later)) (hzero : wait (u.afterAll events) = 0) :
    wait (u.afterAll (events ++ later)) = 0 ↔ span u ∣ cyclesIn later := by
  rw [SoundUnit.afterAll_append, h.afterAll_eq_zero _ hspares.right, hzero,
    (h.afterAll u hspares.left).2, Nat.sub_zero]
  exact and_iff_right (Nat.zero_le _)

/-- A channel that is clocked when the countdown is empty, is clocked whenever the wait is
over and a number of whole spans has passed. From one of its clocks to the next it takes
exactly a span. -/
theorem clocked (h : Paced register wait span) {clocks : SoundUnit → Prop}
    (hclocks : ∀ {u : SoundUnit}, u.InRange → (clocks u ↔ wait u = 0)) {u : SoundUnit}
    (hrange : u.InRange) {events later : List SoundEvent}
    (hspares : Spares register (events ++ later)) :
    (clocks (u.afterAll events) ↔
      wait u ≤ cyclesIn events ∧ span u ∣ cyclesIn events - wait u) ∧
    (clocks (u.afterAll events) →
      (clocks (u.afterAll (events ++ later)) ↔ span u ∣ cyclesIn later)) := by
  rw [hclocks (hrange.afterAll events), hclocks (hrange.afterAll (events ++ later))]
  exact ⟨h.afterAll_eq_zero u hspares.left, h.again hspares⟩

end Paced

/-! ## The noise channel -/

namespace Noise

/-- A clock moves the register: one that stays the same has fifteen equal bits, and these
are mixed to zero. -/
theorem shift_ne_self (short : Bool) {bits : UInt16} (hlt : bits < 0x8000) (hne : bits ≠ 0) :
    shift short bits ≠ bits := by
  intro hsame
  have hsame := congrArg UInt16.toNat hsame
  have hne : bits.toNat ≠ 0 := fun hzero => hne (UInt16.toNat_inj.1 hzero)
  rw [UInt16.lt_iff_toNat_lt] at hlt
  simp only [UInt16.reduceToNat] at hlt
  rw [toNat_shift] at hsame
  have hhalf : bits.toNat / 2 < 2 ^ 14 := by omega
  have hfeedback := Nat.mod_two_eq_zero_or_one
    (bits.toNat ^^^ bits.toNat / (if short then 64 else 2))
  rcases hfeedback with hzero | hone
  · rw [hzero, Nat.zero_mul, Nat.or_zero] at hsame
    omega
  · have hsum : 1 * 0x4000 ||| bits.toNat / 2 = 1 * 0x4000 + bits.toNat / 2 := by
      have hor := Nat.two_pow_add_eq_or_of_lt hhalf 1
      rw [Nat.mul_one] at hor
      exact hor.symm
    rw [hone, Nat.or_comm, hsum] at hsame
    -- the register is full, and then its two bits are equal
    have hfull : bits.toNat = 0x7FFF := by omega
    rw [hfull] at hone
    cases short <;> exact absurd hone (by decide)

/-- Only one register changes the period, and none changes the timer. -/
theorem timer_write (c : Noise) {register : UInt16} (h : register &&& 3 ≠ 2) (value : UInt8) :
    (c.write register value).timer = c.timer ∧ (c.write register value).period = c.period := by
  unfold Noise.write
  split
  · exact ⟨rfl, rfl⟩
  · exact ⟨rfl, rfl⟩
  · rename_i hregister
    exact absurd hregister h
  · exact ⟨rfl, rfl⟩

end Noise

namespace SoundUnit

variable (u : SoundUnit)

/-- The next cycle moves the shift register of the noise channel. -/
def ShiftsNoise : Prop := u.tick.noise.bits ≠ u.noise.bits

/-- The cycles until the noise channel is clocked. Its timer counts in odd cycles only. -/
def noiseWait : Nat := 2 * u.noise.timer.toNat + if u.oddCycle then 0 else 1

theorem noise_clockFrame (event : FrameEvent) :
    ∃ envelope length, (u.clockFrame event).noise = { u.noise with envelope, length } := by
  cases event <;> exact ⟨_, _, rfl⟩

/-- A cycle clocks the noise channel if it is odd, and the sequencer leaves the timer and the
shift register alone. -/
theorem noise_tick : ∃ envelope length, u.tick.noise =
    { (if u.oddCycle then u.noise.clockTimer else u.noise) with envelope, length } := by
  have htimers : u.clockTimers.noise =
      if u.oddCycle then u.noise.clockTimer else u.noise := by
    unfold clockTimers
    split <;> rfl
  obtain ⟨resampler, samples, htick⟩ := u.exists_tick
  obtain ⟨envelope, length, hframe⟩ :=
    noise_clockFrame { u.clockTimers with sequencer := u.sequencer.next.2 } u.sequencer.next.1
  refine ⟨envelope, length, ?_⟩
  rw [htick, ← htimers]
  exact hframe

theorem oddCycle_tick : u.tick.oddCycle = !u.oddCycle := by
  have htimers : u.clockTimers.oddCycle = !u.oddCycle := by
    unfold clockTimers
    cases hodd : u.oddCycle with
    | false => rfl
    | true => rfl
  obtain ⟨resampler, samples, htick⟩ := u.exists_tick
  obtain ⟨_, _, _, _, hframe⟩ := exists_clockFrame
    { u.clockTimers with sequencer := u.sequencer.next.2 } u.sequencer.next.1
  rw [htick, hframe]
  exact htimers

/-- The shift register moves when the wait is over. -/
theorem shiftsNoise_iff {u : SoundUnit} (h : u.InRange) : u.ShiftsNoise ↔ u.noiseWait = 0 := by
  obtain ⟨envelope, length, htick⟩ := u.noise_tick
  unfold ShiftsNoise noiseWait
  rw [htick]
  show (if u.oddCycle then u.noise.clockTimer else u.noise).bits ≠ u.noise.bits ↔ _
  cases hodd : u.oddCycle with
  | false => exact iff_of_false (fun hne => hne rfl) (Nat.succ_ne_zero _)
  | true =>
      have hempty : 2 * u.noise.timer.toNat + 0 = 0 ↔ u.noise.timer = 0 := by
        rw [← UInt16.toNat_inj]
        show _ ↔ u.noise.timer.toNat = 0
        omega
      show u.noise.clockTimer.bits ≠ _ ↔ 2 * u.noise.timer.toNat + 0 = 0
      rw [hempty]
      unfold Noise.clockTimer
      by_cases hzero : u.noise.timer = 0
      · rw [hzero, beq_self_eq_true, if_pos rfl]
        exact iff_of_true (Noise.shift_ne_self _ h.noise.bits h.noise.nonempty) rfl
      · rw [if_neg (mt beq_iff_eq.1 hzero)]
        exact iff_of_false (fun hne => hne rfl) hzero

/-- That register has its place among those of the unit. -/
theorem noise_write {address : UInt16} (h : address ≠ 0x400E) (value : UInt8) :
    (u.write address value).noise.timer = u.noise.timer ∧
      (u.write address value).noise.period = u.noise.period := by
  unfold write
  split
  · exact ⟨rfl, rfl⟩
  split
  · exact ⟨rfl, rfl⟩
  split
  · exact ⟨rfl, rfl⟩
  split
  · exact ⟨rfl, rfl⟩
  split
  · rename_i hlow hhigh
    refine u.noise.timer_write (fun hregister => h (eq_of_register ?_ hregister)) value
    rw [UInt16.le_iff_toNat_le] at hlow hhigh
    simp only [UInt16.reduceToNat] at hlow hhigh ⊢
    omega
  split
  · exact ⟨rfl, rfl⟩
  split
  · exact ⟨rfl, rfl⟩
  split
  · obtain ⟨event, hwrite⟩ := u.exists_writeSequencer value
    obtain ⟨envelope, length, hframe⟩ :=
      noise_clockFrame { u with sequencer := u.sequencer.write value } event
    rw [hwrite, hframe]
    exact ⟨rfl, rfl⟩
  · exact ⟨rfl, rfl⟩

theorem oddCycle_write (address : UInt16) (value : UInt8) :
    (u.write address value).oddCycle = u.oddCycle := by
  obtain ⟨_, _, _, _, _, _, hwrite⟩ := u.exists_write address value
  rw [hwrite]

theorem noise_read (address : UInt16) :
    (u.read address).2.noise = u.noise ∧ (u.read address).2.oddCycle = u.oddCycle := by
  obtain ⟨sequencer, hread⟩ := u.exists_read address
  rw [hread]
  exact ⟨rfl, rfl⟩

end SoundUnit

/-- The noise channel counts down in every other cycle, so that all that its timer does takes
twice the time. -/
theorem paced_noise :
    Paced 0x400E SoundUnit.noiseWait fun u => 2 * (u.noise.period.toNat + 1) where
  positive u := by omega
  tick u := by
    obtain ⟨envelope, length, htick⟩ := u.noise_tick
    unfold SoundUnit.noiseWait reload
    rw [u.oddCycle_tick, htick]
    cases hodd : u.oddCycle with
    | false => exact ⟨rfl, rfl⟩
    | true =>
        show 2 * u.noise.clockTimer.timer.toNat + 1 = _ ∧
          2 * (u.noise.clockTimer.period.toNat + 1) = _
        unfold Noise.clockTimer
        by_cases hzero : u.noise.timer = 0
        · rw [hzero, beq_self_eq_true, if_pos rfl]
          exact ⟨rfl, rfl⟩
        · obtain ⟨hpos, hpred⟩ := Word.toNat_pred hzero
          rw [if_neg (mt beq_iff_eq.1 hzero), if_pos rfl, if_neg (by omega)]
          refine ⟨?_, rfl⟩
          show 2 * (u.noise.timer - 1).toNat + 1 = _
          rw [hpred]
          omega
  read u address := by
    obtain ⟨hnoise, hodd⟩ := u.noise_read address
    unfold SoundUnit.noiseWait
    rw [hnoise, hodd]
    exact ⟨rfl, rfl⟩
  write u address h value := by
    obtain ⟨htimer, hperiod⟩ := u.noise_write h value
    unfold SoundUnit.noiseWait
    rw [htimer, hperiod, u.oddCycle_write]
    exact ⟨rfl, rfl⟩
  deliver u byte := ⟨rfl, rfl⟩

/-! ## The delta channel -/

namespace Delta

/-- A clock of the timer. What it plays does not change the period. -/
theorem timer_clockTimer (c : Delta) :
    c.clockTimer.timer.toNat = reload (c.period.toNat + 1) c.timer.toNat ∧
      c.clockTimer.period = c.period := by
  unfold clockTimer reload
  by_cases hzero : c.timer = 0
  · obtain ⟨htimer, hperiod⟩ := ({ c with timer := c.period }).timer_clockOutput
    have hempty : c.timer.toNat = 0 := congrArg UInt16.toNat hzero
    rw [if_pos (beq_iff_eq.2 hzero), if_pos hempty, htimer, hperiod]
    exact ⟨rfl, rfl⟩
  · obtain ⟨hne, hpred⟩ := Word.toNat_pred hzero
    rw [if_neg (mt beq_iff_eq.1 hzero), if_neg hne]
    exact ⟨hpred, rfl⟩

/-- The count of bits moves exactly when the timer is empty: from one it goes to eight, and
else one down. -/
theorem bitsLeft_clockTimer {c : Delta} (h : c.InRange) :
    c.clockTimer.bitsLeft ≠ c.bitsLeft ↔ c.timer = 0 := by
  by_cases hzero : c.timer = 0
  · refine iff_of_true ?_ hzero
    have hpos := h.bitsLeft_pos
    obtain ⟨level, shift, -, hclock⟩ := clockTimer_zero hzero
    rw [hclock]
    simp only []
    split
    · rename_i hlast
      have hone : c.bitsLeft = 1 := by
        have := beq_iff_eq.1 hlast
        grind
      unfold takeBuffer
      simp only []
      rw [hone]
      split <;> exact show (8 : UInt8) ≠ 1 by decide
    · show c.bitsLeft - 1 ≠ c.bitsLeft
      grind
  · refine iff_of_false (fun hne => hne ?_) hzero
    unfold clockTimer
    rw [if_neg (mt beq_iff_eq.1 hzero)]

/-- Only one register changes the period, and none changes the timer. -/
theorem timer_access (c : Delta) {address : UInt16} (h : address ≠ 0x4010) (value : UInt8) :
    (c.access address value).timer = c.timer ∧ (c.access address value).period = c.period := by
  unfold access
  split
  · rename_i hrow
    unfold Delta.write
    split
    · rename_i hregister
      refine absurd (eq_of_register ?_ hregister) h
      obtain ⟨hlow, hhigh⟩ := hrow
      rw [UInt16.le_iff_toNat_le] at hlow hhigh
      simp only [UInt16.reduceToNat] at hlow hhigh ⊢
      omega
    · exact ⟨rfl, rfl⟩
    · exact ⟨rfl, rfl⟩
    · exact ⟨rfl, rfl⟩
  split
  · unfold setEnabled
    simp only []
    split
    · exact ⟨rfl, rfl⟩
    split <;> exact ⟨rfl, rfl⟩
  · exact ⟨rfl, rfl⟩

/-- A byte of a sample changes neither. -/
theorem timer_deliver (c : Delta) (byte : UInt8) :
    (c.deliver byte).timer = c.timer ∧ (c.deliver byte).period = c.period := by
  unfold deliver
  simp only []
  split
  · exact ⟨rfl, rfl⟩
  unfold finishSample
  split
  · exact ⟨rfl, rfl⟩
  split <;> exact ⟨rfl, rfl⟩

end Delta

namespace SoundUnit

/-- The next cycle plays a bit of the delta channel. -/
def PlaysBit (u : SoundUnit) : Prop := u.tick.delta.bitsLeft ≠ u.delta.bitsLeft

/-- The cycles until the delta channel is clocked. -/
def deltaWait (u : SoundUnit) : Nat := u.delta.timer.toNat

/-- A bit is played when the wait is over. -/
theorem playsBit_iff {u : SoundUnit} (h : u.InRange) : u.PlaysBit ↔ u.deltaWait = 0 := by
  unfold PlaysBit deltaWait
  rw [delta_tick, Delta.bitsLeft_clockTimer h.delta]
  exact UInt16.toNat_inj.symm

end SoundUnit

/-- The delta channel counts down in every cycle. -/
theorem paced_delta : Paced 0x4010 SoundUnit.deltaWait fun u => u.delta.period.toNat + 1 where
  positive u := Nat.succ_pos _
  tick u := by
    obtain ⟨htimer, hperiod⟩ := u.delta.timer_clockTimer
    unfold SoundUnit.deltaWait
    rw [u.delta_tick, hperiod]
    exact ⟨htimer, rfl⟩
  read u address := by
    unfold SoundUnit.deltaWait
    rw [u.delta_read]
    exact ⟨rfl, rfl⟩
  write u address h value := by
    obtain ⟨htimer, hperiod⟩ := u.delta.timer_access h value
    unfold SoundUnit.deltaWait
    rw [u.delta_write, htimer, hperiod]
    exact ⟨rfl, rfl⟩
  deliver u byte := by
    obtain ⟨htimer, hperiod⟩ := u.delta.timer_deliver byte
    unfold SoundUnit.deltaWait
    show (u.delta.deliver byte).timer.toNat = _ ∧ (u.delta.deliver byte).period.toNat + 1 = _
    rw [htimer, hperiod]
    exact ⟨rfl, rfl⟩

/-! ## Rates -/

namespace SoundUnit

/-- No period is zero, and each is less than the span that it makes. -/
theorem not_span_dvd (i : Fin 16) :
    ¬ 2 * (noisePeriods[i].toNat + 1) ∣ noisePeriods[i].toNat ∧
      ¬ deltaPeriods[i].toNat + 1 ∣ deltaPeriods[i].toNat := by
  have hpositive : ∀ i : Fin 16, 0 < noisePeriods[i].toNat ∧ 0 < deltaPeriods[i].toNat := by
    decide
  obtain ⟨hnoise, hdelta⟩ := hpositive i
  refine ⟨fun hdvd => ?_, fun hdvd => ?_⟩
  · have := Nat.le_of_dvd hnoise hdvd
    omega
  · have := Nat.le_of_dvd hdelta hdvd
    omega

/-- **The rates.** Take any history of a sound unit that ends with a write to the register
with the period, and then events in any order, without another write to it. The channel is
clocked for the first time when the wait is over that the history has left, and then once in
every span: from a clock on, it is clocked again at exactly the multiples of the span. The
span of the noise channel is twice a cycle more than the period in the table, and that of the
delta channel a cycle more, so that no two clocks of a channel are as far apart as the table
says. -/
theorem clocked_every_span (rate : UInt32) (before events later : List SoundEvent)
    (value : UInt8) :
    let i : Fin 16 := ⟨value.toNat % 16, Byte.mod_sixteen_lt value⟩
    (Spares 0x400E (events ++ later) →
      let u := (powerOn rate).afterAll (before ++ [.write 0x400E value])
      let span := 2 * (noisePeriods[i].toNat + 1)
      ((u.afterAll events).ShiftsNoise ↔
        u.noiseWait ≤ cyclesIn events ∧ span ∣ cyclesIn events - u.noiseWait) ∧
      ((u.afterAll events).ShiftsNoise →
        ((u.afterAll (events ++ later)).ShiftsNoise ↔ span ∣ cyclesIn later) ∧
        (cyclesIn later = noisePeriods[i].toNat →
          ¬ (u.afterAll (events ++ later)).ShiftsNoise))) ∧
    (Spares 0x4010 (events ++ later) →
      let u := (powerOn rate).afterAll (before ++ [.write 0x4010 value])
      let span := deltaPeriods[i].toNat + 1
      ((u.afterAll events).PlaysBit ↔
        u.deltaWait ≤ cyclesIn events ∧ span ∣ cyclesIn events - u.deltaWait) ∧
      ((u.afterAll events).PlaysBit →
        ((u.afterAll (events ++ later)).PlaysBit ↔ span ∣ cyclesIn later) ∧
        (cyclesIn later = deltaPeriods[i].toNat →
          ¬ (u.afterAll (events ++ later)).PlaysBit))) := by
  intro i
  obtain ⟨hnoise, hdelta⟩ := not_span_dvd i
  constructor
  · intro hspares u span
    have hrange : u.InRange := (inRange_powerOn rate).afterAll _
    have hspan : 2 * (u.noise.period.toNat + 1) = span := by
      show 2 * (((powerOn rate).afterAll (before ++ [.write 0x400E value])).noise.period.toNat + 1)
        = span
      rw [afterAll_append]
      rfl
    obtain ⟨hfirst, hagain⟩ := paced_noise.clocked shiftsNoise_iff hrange hspares
    rw [hspan] at hfirst hagain
    refine ⟨hfirst, fun hclocks => ⟨hagain hclocks, fun hperiod hclocks' => hnoise ?_⟩⟩
    have hspans := (hagain hclocks).1 hclocks'
    rwa [hperiod] at hspans
  · intro hspares u span
    have hrange : u.InRange := (inRange_powerOn rate).afterAll _
    have hspan : u.delta.period.toNat + 1 = span := by
      show ((powerOn rate).afterAll (before ++ [.write 0x4010 value])).delta.period.toNat + 1
        = span
      rw [afterAll_append]
      rfl
    obtain ⟨hfirst, hagain⟩ := paced_delta.clocked playsBit_iff hrange hspares
    rw [hspan] at hfirst hagain
    refine ⟨hfirst, fun hclocks => ⟨hagain hclocks, fun hperiod hclocks' => hdelta ?_⟩⟩
    have hspans := (hagain hclocks).1 hclocks'
    rwa [hperiod] at hspans

/-- The shortest period of the noise channel, and the first one of the delta channel. -/
theorem clocked_every_span_shortest :
    let noise := (powerOn 48000).afterAll [.write 0x400E 0x00]
    let delta := (powerOn 48000).afterAll [.write 0x4010 0x00]
    Spares 0x400E (cyclesAlone 1 ++ cyclesAlone 10) ∧
      (noise.afterAll (cyclesAlone 1)).ShiftsNoise ∧
      (noise.afterAll (cyclesAlone 1 ++ cyclesAlone 10)).ShiftsNoise ∧
    Spares 0x4010 (cyclesAlone 428 ++ cyclesAlone 429) ∧
      (delta.afterAll (cyclesAlone 428)).PlaysBit ∧
      (delta.afterAll (cyclesAlone 428 ++ cyclesAlone 429)).PlaysBit := by
  intro noise delta
  have hspares (register : UInt16) (m n : Nat) :
      Spares register (cyclesAlone m ++ cyclesAlone n) := by
    intro value hmem
    rcases List.mem_append.1 hmem with hm | hn
    · exact spares_cyclesAlone register m value hm
    · exact spares_cyclesAlone register n value hn
  obtain ⟨hnoise, hnoises⟩ :=
    (clocked_every_span 48000 [] (cyclesAlone 1) (cyclesAlone 10) 0x00).1 (hspares _ _ _)
  obtain ⟨hdelta, hdeltas⟩ :=
    (clocked_every_span 48000 [] (cyclesAlone 428) (cyclesAlone 429) 0x00).2 (hspares _ _ _)
  have hshifts := hnoise.2 (by rw [cyclesIn_cyclesAlone]; decide)
  have hplays := hdelta.2 (by rw [cyclesIn_cyclesAlone]; decide)
  refine ⟨hspares _ _ _, hshifts, (hnoises hshifts).1.2 ?_, hspares _ _ _, hplays,
    (hdeltas hplays).1.2 ?_⟩
  · rw [cyclesIn_cyclesAlone]
    decide
  · rw [cyclesIn_cyclesAlone]
    decide

/-- The shortest periods of both channels: from a clock on the noise channel takes ten cycles
to the next one, where the table has four, and the delta channel takes 55, where it has 54. -/
theorem clocks_off_table :
    let noise := (powerOn 48000).afterAll [.write 0x400E 0x00]
    let delta := (powerOn 48000).afterAll [.write 0x4010 0x0F]
    (noisePeriods[0] = 4 ∧ (noise.afterAll (cyclesAlone 1)).ShiftsNoise ∧
      ¬ (noise.afterAll (cyclesAlone (1 + 4))).ShiftsNoise ∧
      (noise.afterAll (cyclesAlone (1 + 10))).ShiftsNoise) ∧
    (deltaPeriods[15] = 54 ∧ (delta.afterAll (cyclesAlone 428)).PlaysBit ∧
      ¬ (delta.afterAll (cyclesAlone (428 + 54))).PlaysBit ∧
      (delta.afterAll (cyclesAlone (428 + 55))).PlaysBit) := by
  intro noise delta
  have hnoise (n : Nat) : (noise.afterAll (cyclesAlone n)).ShiftsNoise ↔ 1 ≤ n ∧ 10 ∣ n - 1 := by
    have hrange : noise.InRange := (inRange_powerOn 48000).afterAll _
    rw [shiftsNoise_iff (hrange.afterAll _),
      paced_noise.afterAll_eq_zero noise (spares_cyclesAlone _ n), cyclesIn_cyclesAlone]
    rfl
  have hdelta (n : Nat) : (delta.afterAll (cyclesAlone n)).PlaysBit ↔
      428 ≤ n ∧ 55 ∣ n - 428 := by
    have hrange : delta.InRange := (inRange_powerOn 48000).afterAll _
    rw [playsBit_iff (hrange.afterAll _),
      paced_delta.afterAll_eq_zero delta (spares_cyclesAlone _ n), cyclesIn_cyclesAlone]
    rfl
  rw [hnoise, hnoise, hnoise, hdelta, hdelta, hdelta]
  decide

end SoundUnit

end Famicom.Audio
