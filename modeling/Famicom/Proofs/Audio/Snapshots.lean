import Famicom.Proofs.Audio.Enables
import Famicom.Proofs.Audio.Rounding

/-!
# What a restore does to the clock of the resampler

A restore moves the clock of the resampler into the time of one sample. Nothing else of a
sound unit is changed by being saved and restored, and whether the clock is depends on the
rate alone (`SoundUnit.save_restored_iff`):

* **outputs** — no output of the mixer is greater than four, so that the sum of what is
  collected stays finite (`SoundUnit.exists_output`);
* **intervals** — the time of a sample is a whole cycle at least, or it is less by more than
  what rounding can hide (`Resampler.exists_interval`);
* **cycles** — a cycle is added to the clock, and the time of at most one sample is taken off
  it (`Counts`). So the clock stays within the time of a sample that is not shorter than a
  cycle (`Counts.le`), and outgrows that of a shorter one (`Counts.add_le`);
* **histories** — registers and deliveries leave the resampler alone
  (`SoundUnit.exists_collected`).
-/

namespace Famicom.Audio

open Float.Model (Format UnpackedFloat)
open Single (Holds Rounds Representable Canonical value)

/-! ## Constants -/

namespace Single

variable {x : Float32} {v : ℚ}

theorem holds_zero : Holds 0.0 0 := rfl

theorem holds_one : Holds 1.0 1 := by
  have hone : Holds 1.0 (value (2 ^ 23) (-23)) :=
    holds_of_unpack (by decide) rfl ⟨by decide, by decide, by decide⟩
  have hvalue : value (2 ^ 23) (-23) = 1 := by norm_num [value]
  rwa [hvalue] at hone

theorem holds_hundred : Holds 100.0 100 := by
  have hhundred : Holds 100.0 (value (100 * 2 ^ 17) (-17)) :=
    holds_of_unpack (by decide) rfl ⟨by decide, by decide, by decide⟩
  have hvalue : value (100 * 2 ^ 17) (-17) = 100 := by norm_num [value]
  rwa [hvalue] at hhundred

theorem canonical_top : Canonical (2 ^ 23) 1 := ⟨by decide, by decide, by decide⟩

theorem value_top : value (2 ^ 23) 1 = 2 ^ 24 := by norm_num [value]

theorem representable_top : Representable (2 ^ 24) := value_top ▸ canonical_top.representable

/-- Halfway between two values the even mantissa is taken. -/
theorem unpack_add_top :
    (Float32.Model.pack (UnpackedFloat.add Format.binary32
      (.finite .positive (2 ^ 23) 1 (by decide)) (1.0 : Float32).toModel.unpack)).unpack =
        .finite .positive (2 ^ 23) 1 (by decide) := rfl

/-- Two to this power is the first value that does not become greater by one. -/
theorem Holds.add_one (h : Holds x v) (hv : v ≤ 2 ^ 24) :
    ∃ w, Holds (x + 1.0) w ∧ Rounds (v + 1) w ∧ w ≤ 2 ^ 24 := by
  obtain ⟨w, hw, hrounds⟩ := h.add holds_one (by linarith)
  refine ⟨w, hw, hrounds, ?_⟩
  rcases hv.lt_or_eq with hlt | rfl
  · -- below it, a value is a whole number or far away
    refine hrounds.above _ representable_top ?_
    obtain ⟨m, e, hm, -, rfl⟩ := h.representable
    by_cases he : 0 ≤ e
    · rw [value_lower he, value_natCast] at hlt ⊢
      exact_mod_cast hlt
    · have hm : (m : ℚ) < 2 ^ 24 := by exact_mod_cast hm
      have hpow : (2 : ℚ) ^ e ≤ 2 ^ (-1 : ℤ) := zpow_le_zpow_right₀ one_le_two (by omega)
      have hhalf : value m e ≤ 2 ^ 24 * 2 ^ (-1 : ℤ) :=
        mul_le_mul hm.le hpow (two_zpow_pos e).le (by norm_num)
      norm_num at hhalf ⊢
      linarith
  · rcases Means.cases h with ⟨-, hzero⟩ | ⟨m, e, hpos, hunpack, hcanonical, hvalue⟩
    · norm_num at hzero
    · obtain ⟨rfl, rfl⟩ := hcanonical.eq_of_value canonical_top (hvalue.symm.trans value_top.symm)
      have hsum : (x + 1.0).toModel.unpack = .finite .positive (2 ^ 23) 1 (by decide) := by
        show (Float32.Model.pack (UnpackedFloat.add Format.binary32 x.toModel.unpack
          (1.0 : Float32).toModel.unpack)).unpack = _
        rw [hunpack]
        exact unpack_add_top
      have htop := holds_of_unpack (by decide) hsum canonical_top
      rw [value_top] at htop
      exact not_lt.1 fun hlt => Single.lt_irrefl _ ((htop.lt_iff hw).2 hlt)

end Single

/-! ## Outputs -/

/-- The output of a network, whatever its sources are. -/
theorem exists_network {a b : Float32} {source load : ℚ} (ha : Holds a source)
    (hb : Holds b load) (hload : load ≤ 2 ^ 24) (bound : ℕ) (hbound : bound < 2 ^ 24)
    (hsource : source ≤ bound * 100) {level : ℕ} (hpos : 0 < level) (hlevel : level < 2 ^ 24) :
    ∃ v, Holds (a / (b / level.toUInt32.toFloat32 + 100.0)) v ∧ v ≤ bound := by
  have hholds : Holds level.toUInt32.toFloat32 level := by
    have htoNat : level.toUInt32.toNat = level := Nat.mod_eq_of_lt (by omega)
    have hsmall := Single.holds_toFloat32_small (n := level.toUInt32) (by rw [htoNat]; exact hlevel)
    rwa [htoNat] at hsmall
  have hone : (1 : ℚ) ≤ level := by exact_mod_cast hpos
  have hquotient : load / level ≤ 2 ^ 24 := (div_le_self hb.nonneg hone).trans hload
  obtain ⟨q, hq, hrounds⟩ := hb.div hholds (by linarith) (by linarith)
  have hle := hrounds.above _ Single.representable_top hquotient
  obtain ⟨d, hd, hrounds⟩ := hq.add Single.holds_hundred (by linarith)
  have hhundred : (100 : ℚ) ≤ d :=
    hrounds.below _ (Single.representable_natCast (n := 100) (by decide)) (by
      have hnonneg := hq.nonneg
      show (100 : ℚ) ≤ q + 100
      linarith)
  have hnetwork : source / d ≤ bound := by
    rw [div_le_iff₀ (by linarith)]
    exact hsource.trans (mul_le_mul_of_nonneg_left hhundred (Nat.cast_nonneg bound))
  have hroom : (bound : ℚ) ≤ 2 ^ 24 := by exact_mod_cast hbound.le
  obtain ⟨v, hv, hrounds⟩ := ha.div hd (by linarith) (by linarith)
  exact ⟨v, hv, hrounds.above _ (Single.representable_natCast hbound) hnetwork⟩

theorem exists_pulseNetwork {i : ℕ} (h : i < 31) : ∃ v, Holds pulseNetwork[i] v ∧ v ≤ 1 := by
  rw [pulseNetwork, Vector.getElem_ofFn]
  split
  · exact ⟨0, Single.holds_zero, zero_le_one⟩
  · rename_i hne
    have hpos : 0 < i := Nat.pos_of_ne_zero fun hzero => hne (Fin.ext hzero)
    have hsource : Holds 95.52 (value 12519997 (-17)) :=
      Single.holds_of_unpack (by decide) rfl ⟨by decide, by decide, by decide⟩
    have hload : Holds 8128.0 (value 16646144 (-11)) :=
      Single.holds_of_unpack (by decide) rfl ⟨by decide, by decide, by decide⟩
    have hnetwork := exists_network hsource hload (by norm_num [value]) 1 (by decide)
      (by norm_num [value]) hpos (by omega)
    exact_mod_cast hnetwork

theorem exists_otherNetwork {i : ℕ} (h : i < 203) : ∃ v, Holds otherNetwork[i] v ∧ v ≤ 2 := by
  rw [otherNetwork, Vector.getElem_ofFn]
  split
  · exact ⟨0, Single.holds_zero, zero_le_two⟩
  · rename_i hne
    have hpos : 0 < i := Nat.pos_of_ne_zero fun hzero => hne (Fin.ext hzero)
    have hsource : Holds 163.67 (value 10726277 (-16)) :=
      Single.holds_of_unpack (by decide) rfl ⟨by decide, by decide, by decide⟩
    have hload : Holds 24329.0 (value 12456448 (-9)) :=
      Single.holds_of_unpack (by decide) rfl ⟨by decide, by decide, by decide⟩
    have hnetwork := exists_network hsource hload (by norm_num [value]) 2 (by decide)
      (by norm_num [value]) hpos (by omega)
    exact_mod_cast hnetwork

/-- Both networks together stay below four. -/
theorem SoundUnit.exists_output (u : SoundUnit) : ∃ v, Holds u.output v ∧ v ≤ 4 := by
  unfold SoundUnit.output mix
  obtain ⟨p, hp, hple⟩ := exists_pulseNetwork (Nat.mod_lt
    (u.pulse1.output.toNat + u.pulse2.output.toNat) (by decide : 0 < 31))
  obtain ⟨o, ho, hole⟩ := exists_otherNetwork (Nat.mod_lt
    (3 * u.triangle.output.toNat + 2 * u.noise.output.toNat + u.delta.level.toNat)
    (by decide : 0 < 203))
  obtain ⟨v, hv, hrounds⟩ := hp.add ho (by linarith)
  refine ⟨v, hv, hrounds.above 4 (Single.representable_natCast (n := 4) (by decide)) ?_⟩
  linarith

/-! ## Intervals -/

namespace Resampler

/-- The time of a sample: a cycle at least if there are no more samples than cycles, and
otherwise less than a cycle by several units in the last place. -/
theorem exists_interval {rate : UInt32} (hrate : 1 ≤ rate) :
    ∃ t, Holds (interval rate) t ∧ t ≤ 1789773 ∧ (rate ≤ cpuFrequency → 1 ≤ t) ∧
      (cpuFrequency < rate → t ≤ 1 - 9 / 2 ^ 24) := by
  have hfrequency : Holds cpuFrequency.toFloat32 1789773 :=
    Single.holds_toFloat32_small (n := cpuFrequency) (by decide)
  obtain ⟨d, hd, hround⟩ := Single.holds_toFloat32 rate
  have hd1 : 1 ≤ d := hround.below 1 Single.representable_one (by exact_mod_cast hrate)
  have hle : 1789773 / d ≤ 1789773 := div_le_self (by norm_num) hd1
  obtain ⟨t, ht, hquotient⟩ := hfrequency.div hd (by linarith) (by linarith)
  refine ⟨t, ht, ?_, fun hslow => ?_, fun hfast => ?_⟩
  · exact hquotient.above _ (Single.representable_natCast (n := 1789773) (by decide)) hle
  · -- a rate that is not greater than the frequency is not rounded
    have hslow : rate.toNat ≤ 1789773 := hslow
    rw [hround.eq (Single.representable_natCast (by omega))] at hquotient hd1
    refine hquotient.below 1 Single.representable_one ?_
    rw [le_div_iff₀ (by linarith), one_mul]
    exact_mod_cast hslow
  · have hfast : 1789774 ≤ rate.toNat := hfast
    have hd2 : 1789774 ≤ d :=
      hround.below _ (Single.representable_natCast (n := 1789774) (by decide))
        (by exact_mod_cast hfast)
    refine hquotient.above _ ⟨2 ^ 24 - 9, -24, by decide, by decide, ?_⟩ ?_
    · norm_num [value]
    · rw [div_le_iff₀ (by linarith)]
      linarith

end Resampler

/-! ## Cycles -/

/-- The clock goes on by a cycle. If the time of a sample is over then, one is made, and the
clock goes back by that time. -/
inductive Counts (time clock : ℚ) : Bool → ℚ → Prop
  | waits {after : ℚ} (hround : Rounds (clock + 1) after) (h : after < time) :
      Counts time clock false after
  | emits {full after : ℚ} (hround : Rounds (clock + 1) full) (h : time ≤ full)
      (hrest : Rounds (full - time) after) : Counts time clock true after

namespace Counts

variable {time clock after : ℚ} {made : Bool}

/-- In the time of a sample there is room for a cycle, so that the clock stays within it. -/
theorem le (h : Counts time clock made after) (htime : Representable time) (hone : 1 ≤ time)
    (hclock : clock ≤ time) : after ≤ time := by
  cases h with
  | waits hround hlt => exact hlt.le
  | emits hround hle hrest =>
      have hfull := hround.above _ htime.double (by linarith)
      exact hrest.above _ htime (by linarith)

/-- In the time of a sample there is no room for a cycle. The clock gains the difference,
less what is lost by rounding. -/
theorem add_le (h : Counts time clock made after) (htime : time ≤ 1 - 9 / 2 ^ 24)
    (hnonneg : 0 ≤ clock) (hclock : clock ≤ time) : clock + 6 / 2 ^ 24 ≤ after := by
  have hcycle {full : ℚ} (hround : Rounds (clock + 1) full) :
      1 ≤ full ∧ clock + 1 < full + 2 / 2 ^ 24 := by
    have hbound : clock + 1 < value (2 ^ 24) (-23) := by
      norm_num [value]
      linarith
    have hloss := hround.lt_add (by decide) (by linarith) hbound
    refine ⟨hround.below 1 Single.representable_one (by linarith), ?_⟩
    norm_num at hloss ⊢
    exact hloss
  cases h with
  | waits hround hlt => linarith [(hcycle hround).1]
  | @emits full _ hround hle hrest =>
      have hfull := (hcycle hround).2
      by_cases hsmall : full - time < 1
      · have hbound : full - time < value (2 ^ 24) (-24) := by
          norm_num [value]
          linarith
        have hloss := hrest.lt_add (by decide) (by linarith) hbound
        norm_num at hloss hfull ⊢
        linarith
      · have hlarge := hrest.below 1 Single.representable_one (not_lt.1 hsmall)
        linarith

end Counts

/-! ## The resampler -/

namespace Resampler

/-- The resampler behind a cycle. -/
def next (rate : UInt32) (output : Float32) (r : Resampler) : Resampler :=
  let r := r.collect output
  if r.complete rate then (r.emit rate).2 else r

/-- What is collected are finite numbers, for no longer than the clock and the time of a
sample say. -/
structure Collected (time clock : ℚ) (r : Resampler) : Prop where
  holds : Holds r.clock clock
  clock_le : clock ≤ 2 ^ 24
  count_le_clock : (r.count.toNat : ℚ) ≤ clock
  count_le_time : (r.count.toNat : ℚ) ≤ time
  sum : ∃ s, Holds r.sum s ∧ s ≤ 4 * r.count.toNat

variable {rate : UInt32} {time clock : ℚ} {r : Resampler}

theorem collected_ofRate (rate : UInt32) (h : 0 ≤ time) : Collected time 0 (ofRate rate) where
  holds := Single.holds_zero
  clock_le := by norm_num
  count_le_clock := by
    show ((0 : ℕ) : ℚ) ≤ 0
    rw [Nat.cast_zero]
  count_le_time := by
    show ((0 : ℕ) : ℚ) ≤ time
    rwa [Nat.cast_zero]
  sum := ⟨0, Single.holds_zero, by positivity⟩

/-- A sample takes its time off the clock and leaves nothing else. -/
theorem exists_collected_emit {full : ℚ} (hfull : Holds r.clock full) (hbound : full ≤ 2 ^ 24)
    (htime : Holds (interval rate) time) (hle : time ≤ full) :
    ∃ after, Collected time after (r.emit rate).2 ∧ Rounds (full - time) after := by
  have hnonneg := htime.nonneg
  have hempty : ((0 : UInt32).toNat : ℚ) = 0 := Nat.cast_zero
  obtain ⟨after, hafter, hrest⟩ := hfull.sub htime hle (by linarith)
  have hafter_le := hrest.above _ hfull.representable (by linarith)
  refine ⟨after, ⟨hafter, hafter_le.trans hbound, ?_, ?_, 0, Single.holds_zero, ?_⟩, hrest⟩
  · exact hempty.trans_le hafter.nonneg
  · exact hempty.trans_le hnonneg
  · show (0 : ℚ) ≤ 4 * ((0 : UInt32).toNat : ℚ)
    rw [hempty, mul_zero]

/-- The count is a whole number, so that it is not ahead of a clock that is rounded. -/
theorem Collected.collect (h : Collected time clock r) (hbound : time ≤ 1789773)
    {output : Float32} {o full : ℚ} (houtput : Holds output o) (hle : o ≤ 4)
    (hfull : Holds (r.clock + 1.0) full) (hround : Rounds (clock + 1) full)
    (hfull_le : full ≤ 2 ^ 24) (hlt : full < time) : Collected time full (r.collect output) := by
  have hcount : r.count.toNat ≤ 1789773 := by
    exact_mod_cast h.count_le_time.trans hbound
  have hsucc : (r.collect output).count.toNat = r.count.toNat + 1 := by
    have hone : (1 : UInt32).toNat = 1 := rfl
    show (r.count + 1).toNat = _
    rw [UInt32.toNat_add, hone]
    exact Nat.mod_eq_of_lt (by omega)
  have hcount_le : (((r.collect output).count.toNat : ℕ) : ℚ) ≤ full := by
    rw [hsucc]
    refine hround.below _ (Single.representable_natCast (by omega)) ?_
    rw [Nat.cast_succ]
    linarith [h.count_le_clock]
  obtain ⟨s, hs, hs_le⟩ := h.sum
  have hsum_le : s + o ≤ 4 * ((r.collect output).count.toNat : ℚ) := by
    rw [hsucc, Nat.cast_succ]
    linarith
  have hfour : Representable (4 * ((r.collect output).count.toNat : ℚ)) := by
    rw [hsucc]
    exact_mod_cast Single.representable_natCast (n := 4 * (r.count.toNat + 1)) (by omega)
  obtain ⟨s', hs', hround'⟩ := hs.add houtput (by linarith)
  exact ⟨hfull, hfull_le, hcount_le, hcount_le.trans hlt.le, s', hs',
    hround'.above _ hfour hsum_le⟩

/-- A cycle keeps what is collected finite. -/
theorem Collected.next (h : Collected time clock r) (htime : Holds (interval rate) time)
    (hbound : time ≤ 1789773) {output : Float32} {o : ℚ} (houtput : Holds output o)
    (hle : o ≤ 4) :
    ∃ after, Collected time after (r.next rate output) ∧
      Counts time clock ((r.collect output).complete rate) after := by
  obtain ⟨full, hfull, hround, hfull_le⟩ := h.holds.add_one h.clock_le
  have hcomplete : (r.collect output).complete rate = decide (time ≤ full) :=
    decide_eq_decide.2 (htime.le_iff hfull)
  unfold Resampler.next
  simp only [hcomplete, decide_eq_true_eq]
  split
  · rename_i hemits
    obtain ⟨after, hafter, hrest⟩ :=
      exists_collected_emit (r := r.collect output) hfull hfull_le htime hemits
    exact ⟨after, hafter, (decide_eq_true hemits).symm ▸ .emits hround hemits hrest⟩
  · rename_i hwaits
    have hlt := not_le.1 hwaits
    exact ⟨full, h.collect hbound houtput hle hfull hround hfull_le hlt,
      (decide_eq_false hwaits).symm ▸ .waits hround hlt⟩

theorem le_ceiling (x : Float32) : x.toUInt32 ≤ ceiling x := by
  unfold ceiling
  simp only []
  split
  · show x.toUInt32 ≤ if x.toUInt32 ≤ x.toUInt32 + 1 then x.toUInt32 + 1 else x.toUInt32
    split
    · assumption
    · exact UInt32.le_refl _
  · exact UInt32.le_refl _

/-- A restore finds nothing to change but the clock. -/
theorem Collected.restore (h : Collected time clock r) (htime : Holds (interval rate) time)
    (hbound : time ≤ 1789773) :
    r.restore rate = { r with clock := clamp 0.0 (interval rate) r.clock } := by
  obtain ⟨s, hs, -⟩ := h.sum
  have hsum : finiteOrZero r.sum = r.sum := finiteOrZero_eq hs.isFinite
  have hclock : finiteOrZero r.clock = r.clock := finiteOrZero_eq h.holds.isFinite
  have hcount : min r.count (ceiling (interval rate)) = r.count := by
    have hfloor : r.count.toNat ≤ (interval rate).toUInt32.toNat := by
      rw [htime.toNat_toUInt32 (by linarith)]
      exact Nat.le_floor h.count_le_time
    exact if_pos (Std.le_trans hfloor (le_ceiling _))
  simp only [Resampler.restore, hsum, hclock, hcount]

/-- The clock is changed if it is greater than the time of a sample. -/
theorem Collected.clamp_eq_iff (h : Collected time clock r) (htime : Holds (interval rate) time) :
    clamp 0.0 (interval rate) r.clock = r.clock ↔ clock ≤ time := by
  have hlow : ¬ r.clock < 0.0 := by
    rw [h.holds.lt_iff Single.holds_zero]
    exact not_lt.2 h.holds.nonneg
  by_cases hlt : interval rate < r.clock
  · have hbeyond := (htime.lt_iff h.holds).1 hlt
    have hclamp : clamp 0.0 (interval rate) r.clock = interval rate := by
      unfold clamp
      simp only [gt_iff_lt, if_neg hlow, if_pos hlt]
    rw [hclamp]
    refine iff_of_false (fun heq => ?_) hbeyond.not_ge
    rw [heq] at hlt
    exact Single.lt_irrefl _ hlt
  · have hwithin := not_lt.1 (mt (htime.lt_iff h.holds).2 hlt)
    exact iff_of_true (clamp_eq hlow hlt) hwithin

end Resampler

/-! ## Histories -/

namespace SoundUnit

/-! ### Events -/

/-- A frame is clocked in the channels with an envelope or a length. -/
theorem exists_clockFrame (u : SoundUnit) (event : FrameEvent) :
    ∃ pulse1 pulse2 triangle noise,
      u.clockFrame event = { u with pulse1, pulse2, triangle, noise } := by
  cases event with
  | nothing => exact ⟨_, _, _, _, rfl⟩
  | quarter => exact ⟨_, _, _, _, rfl⟩
  | half => exact ⟨_, _, _, _, rfl⟩

/-- Only the request of the sequencer is taken back by a read. -/
theorem exists_read (u : SoundUnit) (address : UInt16) :
    ∃ sequencer, (u.read address).2 = { u with sequencer } := by
  unfold SoundUnit.read
  split
  · exact ⟨_, rfl⟩
  · exact ⟨_, rfl⟩

/-- A register concerns the channels and the sequencer alone. -/
theorem exists_write (u : SoundUnit) (address : UInt16) (value : UInt8) :
    ∃ pulse1 pulse2 triangle noise delta sequencer,
      u.write address value =
        { u with pulse1, pulse2, triangle, noise, delta, sequencer } := by
  unfold SoundUnit.write
  split
  · exact ⟨_, _, _, _, _, _, rfl⟩
  split
  · exact ⟨_, _, _, _, _, _, rfl⟩
  split
  · exact ⟨_, _, _, _, _, _, rfl⟩
  split
  · exact ⟨_, _, _, _, _, _, rfl⟩
  split
  · exact ⟨_, _, _, _, _, _, rfl⟩
  split
  · exact ⟨_, _, _, _, _, _, rfl⟩
  split
  · exact ⟨_, _, _, _, _, _, rfl⟩
  split
  · obtain ⟨event, hwrite⟩ := u.exists_writeSequencer value
    obtain ⟨pulse1, pulse2, triangle, noise, hframe⟩ :=
      exists_clockFrame { u with sequencer := u.sequencer.write value } event
    rw [hwrite, hframe]
    exact ⟨_, _, _, _, _, _, rfl⟩
  · exact ⟨_, _, _, _, _, _, rfl⟩

theorem resampler_read (u : SoundUnit) (address : UInt16) :
    (u.read address).2.resampler = u.resampler := by
  obtain ⟨sequencer, hread⟩ := u.exists_read address
  rw [hread]

theorem resampler_write (u : SoundUnit) (address : UInt16) (value : UInt8) :
    (u.write address value).resampler = u.resampler := by
  obtain ⟨_, _, _, _, _, _, hwrite⟩ := u.exists_write address value
  rw [hwrite]

/-- A cycle collects the output of the unit behind its clocks, and keeps the sample that is
made of it. -/
theorem resampler_tick (u : SoundUnit) :
    ∃ v : SoundUnit, u.tick.resampler = u.resampler.next u.rate v.output ∧
      u.tick.samples.size =
        u.samples.size + ((u.resampler.collect v.output).complete u.rate).toNat := by
  have htimers : u.clockTimers.resampler = u.resampler ∧ u.clockTimers.samples = u.samples := by
    unfold clockTimers
    split <;> exact ⟨rfl, rfl⟩
  have hsequencer (v : SoundUnit) :
      v.clockSequencer.resampler = v.resampler ∧ v.clockSequencer.samples = v.samples := by
    obtain ⟨event, sequencer, hclock⟩ := v.exists_clockSequencer
    obtain ⟨_, _, _, _, hframe⟩ := exists_clockFrame { v with sequencer } event
    rw [hclock, hframe]
    exact ⟨rfl, rfl⟩
  have hrate : u.clockTimers.clockSequencer.rate = u.rate := by
    have hmake : u.clockTimers.clockSequencer.make = u.make := by
      rw [make_clockSequencer, make_clockTimers]
    exact congrArg Make.rate hmake
  have hcollect (v : SoundUnit) : v.collect.resampler = v.resampler.next v.rate v.output ∧
      v.collect.samples.size =
        v.samples.size + ((v.resampler.collect v.output).complete v.rate).toNat := by
    unfold collect Resampler.next
    simp only []
    split
    · rename_i hcomplete
      rw [hcomplete]
      exact ⟨rfl, Array.size_push _⟩
    · rename_i hwaits
      rw [Bool.eq_false_iff.2 hwaits]
      exact ⟨rfl, rfl⟩
  obtain ⟨hresampler, hsamples⟩ := hcollect u.clockTimers.clockSequencer
  rw [hrate, (hsequencer _).1, htimers.1] at hresampler hsamples
  rw [(hsequencer _).2, htimers.2] at hsamples
  exact ⟨u.clockTimers.clockSequencer, hresampler, hsamples⟩

theorem InRange.after {u : SoundUnit} (h : u.InRange) (event : SoundEvent) :
    (u.after event).InRange := by
  cases event with
  | read address => exact h.read address
  | write address value => exact h.write address value
  | cycle => exact h.tick
  | deliver byte => exact h.deliver byte

theorem make_after (u : SoundUnit) (event : SoundEvent) : (u.after event).make = u.make := by
  cases event with
  | read address => exact make_read u address
  | write address value => exact make_write u address value
  | cycle => exact make_tick u
  | deliver byte => exact make_deliver u byte

theorem InRange.afterAll {u : SoundUnit} (h : u.InRange) (events : List SoundEvent) :
    (u.afterAll events).InRange := by
  induction events generalizing u with
  | nil => exact h
  | cons event rest ih => exact ih (h.after event)

theorem make_afterAll (u : SoundUnit) (events : List SoundEvent) :
    (u.afterAll events).make = u.make := by
  induction events generalizing u with
  | nil => rfl
  | cons event rest ih => exact (ih (u.after event)).trans (make_after u event)

/-! ### Clocks -/

open Resampler (interval Collected)

variable {time clock : ℚ} {u : SoundUnit}

theorem exists_counted_tick (h : Collected time clock u.resampler)
    (htime : Holds (interval u.rate) time) (hbound : time ≤ 1789773) :
    ∃ after made, Collected time after u.tick.resampler ∧ Counts time clock made after ∧
      u.tick.samples.size = u.samples.size + made.toNat := by
  obtain ⟨v, hnext, hsize⟩ := resampler_tick u
  obtain ⟨o, houtput, hle⟩ := exists_output v
  obtain ⟨after, hafter, hcounts⟩ := h.next htime hbound houtput hle
  exact ⟨after, _, hnext ▸ hafter, hcounts, hsize⟩

/-- Only a cycle concerns the resampler. -/
theorem exists_collected_after (h : Collected time clock u.resampler)
    (htime : Holds (interval u.rate) time) (hbound : time ≤ 1789773) (event : SoundEvent) :
    ∃ after, Collected time after (u.after event).resampler ∧
      (after = clock ∨ ∃ made, Counts time clock made after) := by
  have hkept (v : SoundUnit) (hv : v.resampler = u.resampler) :
      ∃ after, Collected time after v.resampler ∧
        (after = clock ∨ ∃ made, Counts time clock made after) :=
    ⟨clock, hv ▸ h, .inl rfl⟩
  cases event with
  | read address => exact hkept _ (resampler_read u address)
  | write address value => exact hkept _ (resampler_write u address value)
  | cycle =>
      obtain ⟨after, made, hafter, hcounts, -⟩ := exists_counted_tick h htime hbound
      exact ⟨after, hafter, .inr ⟨made, hcounts⟩⟩
  | deliver byte => exact hkept _ rfl

/-- What is collected stays finite, and within the time of a sample if there is a cycle in
it. -/
theorem exists_collected (h : Collected time clock u.resampler)
    (htime : Holds (interval u.rate) time) (hbound : time ≤ 1789773)
    (hclock : 1 ≤ time → clock ≤ time) (events : List SoundEvent) :
    ∃ after, Collected time after (u.afterAll events).resampler ∧ (1 ≤ time → after ≤ time) := by
  induction events generalizing u clock with
  | nil => exact ⟨clock, h, hclock⟩
  | cons event rest ih =>
      obtain ⟨after, hafter, hstep⟩ := exists_collected_after h htime hbound event
      have hrate : (u.after event).rate = u.rate := congrArg Make.rate (make_after u event)
      refine ih hafter (hrate ▸ htime) fun hone => ?_
      rcases hstep with rfl | ⟨made, hcounts⟩
      · exact hclock hone
      · exact hcounts.le htime.representable hone (hclock hone)

/-- If there is no room for a cycle in the time of a sample, the clock outgrows it sometime. -/
theorem exists_overrun (h : Collected time clock u.resampler)
    (htime : Holds (interval u.rate) time) (hshort : time ≤ 1 - 9 / 2 ^ 24) :
    ∃ n after, Collected time after (u.afterAll (List.replicate n .cycle)).resampler ∧
      time < after := by
  by_contra hnone
  have hwithin (n : ℕ) (c : ℚ)
      (hc : Collected time c (u.afterAll (List.replicate n .cycle)).resampler) : c ≤ time :=
    not_lt.1 fun hlt => hnone ⟨n, c, hc, hlt⟩
  have hgrows (n : ℕ) :
      ∃ c, Collected time c (u.afterAll (List.replicate n .cycle)).resampler ∧
        n * (6 / 2 ^ 24) ≤ c := by
    induction n with
    | zero => exact ⟨clock, h, by rw [Nat.cast_zero, zero_mul]; exact h.holds.nonneg⟩
    | succ n ih =>
        obtain ⟨c, hc, hle⟩ := ih
        have hrate : (u.afterAll (List.replicate n .cycle)).rate = u.rate :=
          congrArg Make.rate (make_afterAll u _)
        obtain ⟨after, made, hafter, hcounts, -⟩ :=
          exists_counted_tick hc (hrate ▸ htime) (by linarith)
        have hgain := hcounts.add_le hshort hc.holds.nonneg (hwithin n c hc)
        refine ⟨after, ?_, ?_⟩
        · rw [List.replicate_succ', afterAll, List.foldl_append]
          exact hafter
        · rw [Nat.cast_succ, add_mul, one_mul]
          linarith
  obtain ⟨c, hc, hle⟩ := hgrows (2 ^ 24)
  have htop := hwithin _ c hc
  norm_num at hle
  linarith

/-! ### Saved sound -/

/-- A unit with its resampler restored, saved: only the clock may have moved. -/
theorem save_restore (hrange : u.InRange) (h : Collected time clock u.resampler)
    (htime : Holds (interval u.rate) time) (hbound : time ≤ 1789773) {other : SoundUnit}
    (hmake : other.make = u.make) :
    (restore u.save other).save =
      { u.save with
        resampler :=
          { u.resampler with
            clock := Resampler.clamp 0.0 (interval u.rate) u.resampler.clock } } := by
  rw [hrange.restore_save hmake, h.restore htime hbound]
  rfl

theorem save_restore_eq_iff (hrange : u.InRange) (h : Collected time clock u.resampler)
    (htime : Holds (interval u.rate) time) (hbound : time ≤ 1789773) {other : SoundUnit}
    (hmake : other.make = u.make) : (restore u.save other).save = u.save ↔ clock ≤ time := by
  rw [← h.clamp_eq_iff htime, save_restore hrange h htime hbound hmake]
  refine ⟨congrArg fun saved : SoundState => saved.resampler.clock, fun hclamp => ?_⟩
  rw [hclamp]
  rfl

theorem one_le_rate (rate : UInt32) : 1 ≤ max rate 1 := by
  show 1 ≤ if rate ≤ 1 then 1 else rate
  split
  · exact UInt32.le_refl 1
  · rename_i hlarge
    exact UInt32.le_of_lt (UInt32.not_le.1 hlarge)

/-- A rate that is raised to one is still no greater than the frequency. -/
theorem rate_le_iff (rate : UInt32) : max rate 1 ≤ cpuFrequency ↔ rate ≤ cpuFrequency := by
  show (if rate ≤ 1 then 1 else rate) ≤ cpuFrequency ↔ _
  split
  · rename_i hsmall
    exact iff_of_true (by decide) (UInt32.le_trans hsmall (by decide))
  · exact Iff.rfl

/-- **What is saved is restored, if there are no more samples than cycles.** Take any history
of a sound unit: reads and writes of registers, cycles, and bytes of samples, in any order.
If what it saves is restored into another sound unit that was built in the same way and saved
again, then nothing has changed but the clock of the resampler, which was moved into the time
of one sample. Whether that changes the clock is a question of the rate: for a rate up to the
frequency of the processor it never does, and for each greater one there is a history behind
which it does. -/
theorem save_restored_iff (rate : UInt32) :
    (∀ (events : List SoundEvent) (other : SoundUnit), other.make = (powerOn rate).make →
      let u := (powerOn rate).afterAll events
      (restore u.save other).save =
        { u.save with
          resampler :=
            { u.resampler with
              clock := Resampler.clamp 0.0 (interval u.rate) u.resampler.clock } }) ∧
    ((∀ (events : List SoundEvent) (other : SoundUnit), other.make = (powerOn rate).make →
      let u := (powerOn rate).afterAll events
      (restore u.save other).save = u.save) ↔ rate ≤ cpuFrequency) := by
  obtain ⟨time, htime, hbound, hslow, hfast⟩ := Resampler.exists_interval (one_le_rate rate)
  have hfresh : Collected time 0 (powerOn rate).resampler :=
    Resampler.collected_ofRate _ htime.nonneg
  have hrange (events : List SoundEvent) : ((powerOn rate).afterAll events).InRange :=
    (inRange_powerOn rate).afterAll events
  have hmake (events : List SoundEvent) :
      (powerOn rate).make = ((powerOn rate).afterAll events).make :=
    (make_afterAll _ events).symm
  have htime' (events : List SoundEvent) :
      Holds (interval ((powerOn rate).afterAll events).rate) time := by
    have hrate : ((powerOn rate).afterAll events).rate = max rate 1 :=
      congrArg Make.rate (hmake events).symm
    rwa [hrate]
  have hcollected (events : List SoundEvent) :=
    exists_collected hfresh htime hbound (fun hone => zero_le_one.trans hone) events
  refine ⟨fun events other hother => ?_, fun hall => ?_, fun hle events other hother => ?_⟩
  · obtain ⟨clock, hclock, -⟩ := hcollected events
    exact save_restore (hrange events) hclock (htime' events) hbound (hother.trans (hmake events))
  · -- some number of cycles is enough for the clock to be moved
    by_contra hgreater
    obtain ⟨n, clock, hclock, hlt⟩ := exists_overrun hfresh htime
      (hfast (UInt32.not_le.1 (mt (rate_le_iff rate).1 hgreater)))
    have hwithin := (save_restore_eq_iff (hrange _) hclock (htime' _) hbound (hmake _)).1
      (hall (.replicate n .cycle) (powerOn rate) rfl)
    exact hwithin.not_gt hlt
  · obtain ⟨clock, hclock, hwithin⟩ := hcollected events
    exact (save_restore_eq_iff (hrange events) hclock (htime' events) hbound
      (hother.trans (hmake events))).2 (hwithin (hslow ((rate_le_iff rate).2 hle)))

/-- At the usual rate, a pulse that has been started survives in another sound unit. -/
theorem save_restored_pulse :
    let u := (powerOn 48000).afterAll
      [.write 0x4015 0x1F, .write 0x4002 0x80, .write 0x4003 0x09, .cycle, .deliver 0x55, .cycle]
    let other := (powerOn 48000).afterAll [.write 0x4017 0x80, .cycle]
    other.make = (powerOn 48000).make ∧ (restore u.save other).save = u.save := by
  intro u other
  have hmake : other.make = (powerOn 48000).make := make_afterAll _ _
  obtain ⟨-, -, hkept⟩ := save_restored_iff 48000
  exact ⟨hmake, hkept (by decide) _ other hmake⟩

/-- With four million samples in a second, one cycle is more than two samples' time. Only one
of them is made, so that more than the time of a sample is left on the clock. -/
theorem save_not_restored :
    let u := (powerOn 4000000).afterAll [.cycle]
    u.make = (powerOn 4000000).make ∧ interval u.rate < u.resampler.clock ∧
      (restore u.save (powerOn 4000000)).save ≠ u.save := by
  intro u
  have hmake : u.make = (powerOn 4000000).make := make_afterAll _ _
  have hrate : u.rate = 4000000 := congrArg Make.rate hmake
  have hbeyond : interval 4000000 < u.resampler.clock := by decide +kernel
  refine ⟨hmake, hrate ▸ hbeyond, fun hkept => ?_⟩
  have hclamp : Resampler.clamp 0.0 (interval 4000000) (Resampler.finiteOrZero u.resampler.clock) =
      u.resampler.clock := congrArg (fun saved => saved.resampler.clock) hkept
  have hmoved : Resampler.clamp 0.0 (interval 4000000)
      (Resampler.finiteOrZero u.resampler.clock) = interval 4000000 := by decide +kernel
  exact Single.lt_irrefl _ (hmoved.symm.trans hclamp ▸ hbeyond)

end SoundUnit

end Famicom.Audio
