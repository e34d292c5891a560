import Famicom.Proofs.Audio.Rates

/-!
# The number of samples in a second

The clock of the resampler is a single, and so is the time of a sample. A second has more than
a million cycles, and each of them is rounded. Still the samples can be counted:

* **intervals** — the time of a sample is right up to a unit in its last place
  (`Resampler.exists_precise`);
* **cycles** — a cycle makes one sample at most. Whether it makes one or not, clock and samples
  together gain a cycle, up to three units (`Counts.abs_le`). If the time of a sample is shorter
  than a cycle, it always makes one (`Counts.made_of_lt`);
* **runs** — so the time of all samples that have been made and what is on the clock are the
  cycles that have passed, up to three units for each of them (`SoundUnit.exists_tally`).

In a second all these units are less than one sample. There are as many samples as the rate
says, or one less, unless there are more than cycles (`SoundUnit.samples_in_second`).
-/

namespace Famicom.Audio

open Single (Holds Rounds value)

/-! ## Intervals -/

namespace Single

/-- A value that is not less than one has 24 bits. -/
theorem exists_unit {x : Float32} {v : ℚ} (h : Holds x v) (hone : 1 ≤ v) :
    ∃ e : ℤ, -149 ≤ e ∧ v < value (2 ^ 24) e ∧ 2 ^ 23 * 2 ^ e ≤ v := by
  rcases Means.cases h with ⟨-, rfl⟩ | ⟨m, e, -, -, hcanonical, rfl⟩
  · exact absurd hone (by norm_num)
  · refine ⟨e, hcanonical.least, value_lt_value.2 hcanonical.bits, ?_⟩
    have hfull : 2 ^ 23 ≤ m := by
      refine hcanonical.full.resolve_right ?_
      rintro rfl
      have hsmall : value m (-149) < value (2 ^ 24) (-149) := value_lt_value.2 hcanonical.bits
      have htop : value (2 ^ 24) (-149) < 1 := by
        norm_num [value]
      linarith
    have hcast : (2 ^ 23 : ℚ) ≤ m := by exact_mod_cast hfull
    exact mul_le_mul_of_nonneg_right hcast (two_zpow_pos e).le

end Single

namespace Resampler

/-- The time of a sample, if there are no more samples than cycles. It has a unit in its last
place, and is off by one unit at most. -/
structure Precise (rate : UInt32) (time : ℚ) (e : ℤ) : Prop where
  holds : Holds (interval rate) time
  one_le : 1 ≤ time
  le : time ≤ 1789773
  least : -149 ≤ e
  room : time < value (2 ^ 24) e
  unit : 2 ^ 23 * 2 ^ e ≤ time
  near : |time - 1789773 / rate.toNat| ≤ 2 ^ e

theorem exists_precise {rate : UInt32} (hrate : 1 ≤ rate) (hslow : rate ≤ cpuFrequency) :
    ∃ time e, Precise rate time e := by
  have hlow : 1 ≤ rate.toNat := hrate
  have hhigh : rate.toNat ≤ 1789773 := hslow
  have hpos : (1 : ℚ) ≤ rate.toNat := by exact_mod_cast hlow
  have hle : (1789773 : ℚ) / rate.toNat ≤ 1789773 := div_le_self (by norm_num) hpos
  have hge : 1 ≤ (1789773 : ℚ) / rate.toNat := by
    rw [le_div_iff₀ (by linarith), one_mul]
    exact_mod_cast hhigh
  have hfrequency : Holds cpuFrequency.toFloat32 1789773 :=
    Single.holds_toFloat32_small (n := cpuFrequency) (by decide)
  have hdivisor : Holds rate.toFloat32 rate.toNat := Single.holds_toFloat32_small (by omega)
  obtain ⟨time, htime, hround⟩ := hfrequency.div hdivisor (by linarith) (by linarith)
  have hone := hround.below 1 Single.representable_one hge
  obtain ⟨e, he, hroom, hunit⟩ := Single.exists_unit htime hone
  have hexact : (1789773 : ℚ) / rate.toNat < value (2 ^ 24) e := by
    by_contra hbeyond
    have hcrossed := hround.below _ (Single.representable_value le_rfl he) (not_lt.1 hbeyond)
    exact hroom.not_ge hcrossed
  refine ⟨time, e, htime, hone, ?_, he, hroom, hunit, ?_⟩
  · exact hround.above _ (Single.representable_natCast (n := 1789773) (by decide)) hle
  · exact hround.abs_sub_le he (by linarith) hexact

/-- What is known of clock and samples behind a second leaves two counts. -/
theorem Precise.count_cases {rate : UInt32} {time clock : ℚ} {e : ℤ} (h : Precise rate time e)
    (hrate : 1 ≤ rate) (hslow : rate ≤ cpuFrequency) (hnonneg : 0 ≤ clock) (hclock : clock ≤ time)
    {made : ℕ} (htally : |clock + made * time - 1789773| ≤ 1789773 * (3 * time / 2 ^ 23)) :
    rate.toNat - 1 ≤ made ∧ made ≤ rate.toNat := by
  have hlow : (1 : ℚ) ≤ rate.toNat := by exact_mod_cast (show 1 ≤ rate.toNat from hrate)
  have hhigh : (rate.toNat : ℚ) ≤ 1789773 := by
    exact_mod_cast (show rate.toNat ≤ 1789773 from hslow)
  have hone := h.one_le
  -- as many samples as the rate says take a second, up to a unit for each of them
  have hwhole : |rate.toNat * time - 1789773| ≤ 1789773 * (time / 2 ^ 23) := by
    have hproduct : rate.toNat * time - 1789773 =
        rate.toNat * (time - 1789773 / rate.toNat) := by
      rw [mul_sub, mul_div_cancel₀ _ (by linarith)]
    have hunit : (2 : ℚ) ^ e ≤ time / 2 ^ 23 := by
      rw [le_div_iff₀ (by norm_num), mul_comm]
      exact h.unit
    rw [hproduct, abs_mul, abs_of_nonneg (by linarith)]
    exact mul_le_mul hhigh (h.near.trans hunit) (abs_nonneg _) (by norm_num)
  obtain ⟨htally_low, htally_high⟩ := abs_le.1 htally
  obtain ⟨hwhole_low, hwhole_high⟩ := abs_le.1 hwhole
  have hless : (made : ℚ) * time < (rate.toNat + 1) * time := by
    linarith
  have hmore : (rate.toNat : ℚ) * time < (made + 2) * time := by
    linarith
  have hless : made < rate.toNat + 1 := by
    exact_mod_cast lt_of_mul_lt_mul_right hless (by linarith)
  have hmore : rate.toNat < made + 2 := by
    exact_mod_cast lt_of_mul_lt_mul_right hmore (by linarith)
  omega

end Resampler

/-! ## Cycles -/

namespace Counts

variable {time clock after : ℚ} {made : Bool}

/-- A cycle is longer than the time of a sample, so that there is one to be made. -/
theorem made_of_lt (h : Counts time clock made after) (htime : time < 1) (hclock : 0 ≤ clock) :
    made = true := by
  cases h with
  | waits hround hlt =>
      have hcycle := hround.below 1 Single.representable_one (by linarith)
      linarith
  | emits hround hle hrest => rfl

/-- Clock and samples gain a cycle. The sum is rounded by two units of the time of a sample, and
the difference by less than one. -/
theorem abs_le (h : Counts time clock made after) {rate : UInt32} {e : ℤ}
    (htime : Resampler.Precise rate time e) (hnonneg : 0 ≤ clock) (hclock : clock ≤ time) :
    |after + made.toNat * time - (clock + 1)| ≤ 3 * time / 2 ^ 23 := by
  obtain ⟨-, hone, hbound, he, hroom, hunit, -⟩ := htime
  have hdouble : (2 : ℚ) ^ (e + 1) = 2 * 2 ^ e := by
    rw [zpow_add_one₀ two_ne_zero, mul_comm]
  have hsum {full : ℚ} (hround : Rounds (clock + 1) full) :
      |full - (clock + 1)| ≤ 2 * time / 2 ^ 23 := by
    have hfits : clock + 1 < value (2 ^ 24) (e + 1) := by
      unfold value at hroom ⊢
      rw [hdouble]
      linarith
    have hloss := hround.abs_sub_le (by omega) (by linarith) hfits
    rw [hdouble] at hloss
    refine hloss.trans ?_
    rw [le_div_iff₀ (by norm_num)]
    linarith
  cases h with
  | waits hround hlt =>
      have hloss := hsum hround
      simp only [Bool.toNat_false, Nat.cast_zero, zero_mul, add_zero]
      refine hloss.trans ?_
      rw [div_le_div_iff_of_pos_right (by norm_num)]
      linarith
  | @emits full _ hround hle hrest =>
      have hloss := hsum hround
      obtain ⟨-, hhigh⟩ := abs_le.1 hloss
      have hfits : full - time < value (2 ^ 24) (-23) := by
        norm_num [value] at hhigh ⊢
        linarith
      have hrestLoss := hrest.abs_sub_le (by decide) (by linarith) hfits
      simp only [Bool.toNat_true, Nat.cast_one, one_mul]
      calc |after + time - (clock + 1)|
          = |(after - (full - time)) + (full - (clock + 1))| := by ring_nf
        _ ≤ |after - (full - time)| + |full - (clock + 1)| := abs_add_le _ _
        _ ≤ 2 ^ (-23 : ℤ) + 2 * time / 2 ^ 23 := add_le_add hrestLoss hloss
        _ ≤ 3 * time / 2 ^ 23 := by
            norm_num
            linarith

end Counts

/-! ## Histories -/

namespace SoundUnit

open Resampler (Collected Precise interval)

variable {time clock : ℚ} {u : SoundUnit}

/-- An event is a cycle, or it concerns neither the resampler nor the samples. -/
theorem after_cases (u : SoundUnit) (event : SoundEvent) :
    (event.cycles = 1 ∧ u.after event = u.tick) ∨
      (event.cycles = 0 ∧ (u.after event).resampler = u.resampler ∧
        (u.after event).samples = u.samples) := by
  cases event with
  | read address =>
      obtain ⟨sequencer, hread⟩ := u.exists_read address
      refine .inr ⟨rfl, ?_⟩
      rw [show u.after (.read address) = _ from hread]
      exact ⟨rfl, rfl⟩
  | write address value =>
      obtain ⟨_, _, _, _, _, _, hwrite⟩ := u.exists_write address value
      refine .inr ⟨rfl, ?_⟩
      rw [show u.after (.write address value) = _ from hwrite]
      exact ⟨rfl, rfl⟩
  | cycle => exact .inl ⟨rfl, rfl⟩
  | deliver byte => exact .inr ⟨rfl, rfl, rfl⟩

theorem rate_after (u : SoundUnit) (event : SoundEvent) : (u.after event).rate = u.rate :=
  congrArg Make.rate (make_after u event)

/-- If the time of a sample is shorter than a cycle, there are as many samples as cycles. -/
theorem size_samples_of_lt (h : Collected time clock u.resampler)
    (htime : Holds (interval u.rate) time) (hshort : time < 1) (events : List SoundEvent) :
    (u.afterAll events).samples.size = u.samples.size + cyclesIn events := by
  induction events generalizing u clock with
  | nil => rfl
  | cons event rest ih =>
      have hrest : cyclesIn (event :: rest) = event.cycles + cyclesIn rest := List.sum_cons
      have htime' := rate_after u event ▸ htime
      show ((u.after event).afterAll rest).samples.size = _
      rw [hrest, ← Nat.add_assoc]
      rcases after_cases u event with ⟨hcycle, htick⟩ | ⟨hcycle, hresampler, hsamples⟩
      · obtain ⟨after, made, hafter, hcounts, hsize⟩ :=
          exists_counted_tick h htime (by linarith)
        rw [hcounts.made_of_lt hshort h.holds.nonneg] at hsize
        rw [ih (htick ▸ hafter) htime', htick, hsize, hcycle]
        rfl
      · rw [ih (hresampler ▸ h) htime', hsamples, hcycle, Nat.add_zero]

/-- The time of the samples that have been made, and what is on the clock. -/
def tally (time clock : ℚ) (u : SoundUnit) : ℚ := clock + u.samples.size * time

theorem exists_tally_after {e : ℤ} (h : Collected time clock u.resampler)
    (htime : Precise u.rate time e) (hclock : clock ≤ time) (event : SoundEvent) :
    ∃ after, Collected time after (u.after event).resampler ∧ after ≤ time ∧
      |tally time after (u.after event) - (tally time clock u + event.cycles)| ≤
        event.cycles * (3 * time / 2 ^ 23) := by
  rcases after_cases u event with ⟨hcycle, htick⟩ | ⟨hcycle, hresampler, hsamples⟩
  · obtain ⟨after, made, hafter, hcounts, hsize⟩ :=
      exists_counted_tick h htime.holds htime.le
    have hwithin := hcounts.le htime.holds.representable htime.one_le hclock
    have hgain := hcounts.abs_le htime h.holds.nonneg hclock
    refine ⟨after, htick ▸ hafter, hwithin, ?_⟩
    unfold tally
    rw [htick, hsize, hcycle, Nat.cast_add, Nat.cast_one, one_mul]
    convert hgain using 2
    ring
  · refine ⟨clock, hresampler ▸ h, hclock, ?_⟩
    unfold tally
    rw [hsamples, hcycle, Nat.cast_zero, add_zero, zero_mul, sub_self, abs_zero]

/-- The tally goes on with the cycles, up to three units for each of them. -/
theorem exists_tally {e : ℤ} (h : Collected time clock u.resampler)
    (htime : Precise u.rate time e) (hclock : clock ≤ time) (events : List SoundEvent) :
    ∃ after, Collected time after (u.afterAll events).resampler ∧ after ≤ time ∧
      |tally time after (u.afterAll events) - (tally time clock u + cyclesIn events)| ≤
        cyclesIn events * (3 * time / 2 ^ 23) := by
  induction events generalizing u clock with
  | nil =>
      refine ⟨clock, h, hclock, ?_⟩
      show |tally time clock u - (tally time clock u + ((0 : ℕ) : ℚ))| ≤ ((0 : ℕ) : ℚ) * _
      rw [Nat.cast_zero, add_zero, zero_mul, sub_self, abs_zero]
  | cons event rest ih =>
      obtain ⟨middle, hmiddle, hmiddle_le, hfirst⟩ := exists_tally_after h htime hclock event
      obtain ⟨after, hafter, hafter_le, hsecond⟩ :=
        ih hmiddle (rate_after u event ▸ htime) hmiddle_le
      refine ⟨after, hafter, hafter_le, ?_⟩
      have hrest : cyclesIn (event :: rest) = cyclesIn rest + event.cycles :=
        List.sum_cons.trans (Nat.add_comm _ _)
      have hbehind : u.afterAll (event :: rest) = (u.after event).afterAll rest := rfl
      have hsplit : tally time after (u.afterAll (event :: rest)) -
          (tally time clock u + ((cyclesIn rest : ℚ) + event.cycles)) =
          (tally time after ((u.after event).afterAll rest) -
            (tally time middle (u.after event) + cyclesIn rest)) +
          (tally time middle (u.after event) - (tally time clock u + event.cycles)) := by
        rw [hbehind]
        ring
      rw [hrest, Nat.cast_add, hsplit, add_mul]
      exact (abs_add_le _ _).trans (add_le_add hsecond hfirst)

/-! ## A second -/

/-- **Samples in a second.** A sound unit is switched on with a rate, and in a second there are
any reads and writes of registers and bytes of samples between the cycles. If the rate is no
greater than the frequency of the processor, then there are as many samples as the rate says, or
one less. For each greater rate there are as many samples as cycles. So what is made differs
from the rate by more than one if and only if the rate is greater than the frequency by more
than one. -/
theorem samples_in_second (rate : UInt32) (hrate : 1 ≤ rate) (events : List SoundEvent)
    (hsecond : cyclesIn events = cpuFrequency.toNat) :
    let made := ((powerOn rate).afterAll events).samples.size
    (rate ≤ cpuFrequency → rate.toNat - 1 ≤ made ∧ made ≤ rate.toNat) ∧
    (cpuFrequency < rate → made = cpuFrequency.toNat) ∧
    ((rate.toNat - 1 ≤ made ∧ made ≤ rate.toNat + 1) ↔ rate.toNat ≤ cpuFrequency.toNat + 1) := by
  intro made
  have hmax : max rate 1 = rate := by
    show (if rate ≤ 1 then 1 else rate) = rate
    split
    · rename_i hsmall
      exact UInt32.le_antisymm hrate hsmall
    · rfl
  have hunit : (powerOn rate).rate = rate := hmax
  have hslow (hle : rate ≤ cpuFrequency) : rate.toNat - 1 ≤ made ∧ made ≤ rate.toNat := by
    obtain ⟨time, e, htime⟩ := Resampler.exists_precise hrate hle
    have hnonneg := htime.holds.nonneg
    have hfresh : Collected time 0 (powerOn rate).resampler :=
      Resampler.collected_ofRate _ hnonneg
    obtain ⟨clock, hclock, hwithin, htally⟩ :=
      exists_tally hfresh (hunit.symm ▸ htime) hnonneg events
    refine htime.count_cases hrate hle hclock.holds.nonneg hwithin ?_
    have hempty : tally time 0 (powerOn rate) = 0 := by
      show 0 + ((0 : ℕ) : ℚ) * time = 0
      rw [Nat.cast_zero, zero_mul, add_zero]
    have hcycles : (cyclesIn events : ℚ) = 1789773 := by
      rw [hsecond]
      rfl
    rw [hempty, zero_add, hcycles] at htally
    exact htally
  have hfast (hlt : cpuFrequency < rate) : made = cpuFrequency.toNat := by
    obtain ⟨time, htime, -, -, hshort⟩ := Resampler.exists_interval hrate
    have hfresh : Collected time 0 (powerOn rate).resampler :=
      Resampler.collected_ofRate _ htime.nonneg
    have hless := hshort hlt
    have hsize := size_samples_of_lt hfresh (hunit.symm ▸ htime) (by linarith) events
    rw [hsecond] at hsize
    exact hsize.trans (Nat.zero_add _)
  refine ⟨hslow, hfast, ?_⟩
  by_cases hle : rate ≤ cpuFrequency
  · obtain ⟨hlow, hhigh⟩ := hslow hle
    have hle : rate.toNat ≤ cpuFrequency.toNat := hle
    omega
  · have hmade := hfast (UInt32.not_le.1 hle)
    have hlt : ¬ rate.toNat ≤ cpuFrequency.toNat := hle
    omega

/-- The usual rate. -/
theorem samples_in_second_usual :
    let made := ((powerOn 48000).afterAll (cyclesAlone 1789773)).samples.size
    cyclesIn (cyclesAlone 1789773) = cpuFrequency.toNat ∧ 47999 ≤ made ∧ made ≤ 48000 := by
  intro made
  have hsecond : cyclesIn (cyclesAlone 1789773) = cpuFrequency.toNat :=
    (cyclesIn_cyclesAlone 1789773).trans rfl
  obtain ⟨hslow, -, -⟩ := samples_in_second 48000 (by decide) (cyclesAlone 1789773) hsecond
  obtain ⟨hlow, hhigh⟩ := hslow (by decide)
  exact ⟨hsecond, hlow, hhigh⟩

/-- Four million samples in a second are more than there are cycles, and there is one sample
for each of these. -/
theorem samples_missing :
    let made := ((powerOn 4000000).afterAll (cyclesAlone 1789773)).samples.size
    made = 1789773 ∧ ¬ 4000000 - 1 ≤ made := by
  intro made
  have hrate : (1 : UInt32) ≤ 4000000 := by decide
  obtain ⟨time, htime, -, -, hshort⟩ := Resampler.exists_interval hrate
  have hfresh : Collected time 0 (powerOn 4000000).resampler :=
    Resampler.collected_ofRate _ htime.nonneg
  have hless := hshort (by decide)
  have hempty : (powerOn 4000000).samples.size = 0 := rfl
  have hsize := size_samples_of_lt hfresh htime (by linarith) (cyclesAlone 1789773)
  rw [cyclesIn_cyclesAlone, hempty, Nat.zero_add] at hsize
  have hmade : made = 1789773 := hsize
  refine ⟨hmade, ?_⟩
  rw [hmade]
  decide

end SoundUnit

end Famicom.Audio
