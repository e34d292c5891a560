import Famicom.Proofs.Audio.InRange

/-!
# The delta channel loses no byte of a sample

A byte of a sample goes from the bus to the buffer, and from there to the shift
register. Writes to the registers may start and stop samples at any time, with the
buffer full or empty. Still

* **buffer** — a byte is wanted only while the buffer is empty, so that the bytes
  delivered are the bytes played and at most one that waits
  (`Consistent.wanted`, `delivered_eq`);
* **addresses** — a playback asks for consecutive bytes, from the address on that it
  began with, and for as many as it began with (`Underway`);
* **progress** — unless it is stopped, it comes to its end: between two bytes there
  are at most eight periods of the timer (`due_serve`).

`samples_lossless` says this of every history of a sound unit.
-/

namespace Famicom.Audio

/-! ## What happens to the channel -/

/-- What happens to a sound unit, as far as samples are concerned. -/
inductive SampleEvent where
  /-- A cycle. If a byte is wanted behind it, then this one is delivered. -/
  | cycle (byte : UInt8)
  /-- A write to a register. -/
  | write (address : UInt16) (value : UInt8)

/-- The cycles in an event. -/
def SampleEvent.cycles : SampleEvent → Nat
  | .cycle _ => 1
  | .write .. => 0

theorem SampleEvent.cycles_le (event : SampleEvent) : event.cycles ≤ 1 := by
  cases event with
  | cycle _ => exact Nat.le_refl 1
  | write _ _ => exact Nat.zero_le 1

/-- The enables stop a sample. -/
def SampleEvent.Stops : SampleEvent → Prop
  | .cycle _ => False
  | .write address value => address = 0x4015 ∧ hasBits value 0x10 = false

/-- The sound unit behind an event. -/
def SoundUnit.serve (u : SoundUnit) : SampleEvent → SoundUnit
  | .cycle byte =>
    match u.tick.request? with
    | none => u.tick
    | some _ => u.tick.deliver byte
  | .write address value => u.write address value

namespace Delta

/-- The delta channel behind a write to any register of the sound unit: its own four
are in a row, and the enables are shared by all channels. -/
def access (address : UInt16) (value : UInt8) (c : Delta) : Delta :=
  if 0x4010 ≤ address ∧ address ≤ 0x4013 then c.write address value
  else if address = 0x4015 then c.setEnabled (hasBits value 0x10)
  else c

end Delta

namespace SoundUnit

theorem delta_clockFrame (u : SoundUnit) (event : FrameEvent) :
    (u.clockFrame event).delta = u.delta := by
  cases event <;> rfl

/-- A cycle clocks the timer of the channel, whatever else it clocks. -/
theorem delta_tick (u : SoundUnit) : u.tick.delta = u.delta.clockTimer := by
  have htimers : u.clockTimers.delta = u.delta.clockTimer := by
    unfold clockTimers
    split <;> rfl
  have hsequencer (u : SoundUnit) : u.clockSequencer.delta = u.delta := by
    obtain ⟨event, sequencer, hclock⟩ := u.exists_clockSequencer
    rw [hclock, delta_clockFrame]
  have hcollect (u : SoundUnit) : u.collect.delta = u.delta := by
    obtain ⟨resampler, samples, hcollect⟩ := u.collect_output
    rw [hcollect]
  rw [tick, hcollect, hsequencer, htimers]

/-- Of all registers of the sound unit, five concern the channel. -/
theorem delta_write (address : UInt16) (value : UInt8) (u : SoundUnit) :
    (u.write address value).delta = u.delta.access address value := by
  have hother (hrow : ¬ (0x4010 ≤ address ∧ address ≤ 0x4013)) (henable : address ≠ 0x4015) :
      u.delta = u.delta.access address value := by
    rw [Delta.access, if_neg hrow, if_neg henable]
  unfold write
  split
  · exact hother (by grind) (by grind)
  split
  · exact hother (by grind) (by grind)
  split
  · exact hother (by grind) (by grind)
  split
  · exact hother (by grind) (by grind)
  split
  · exact hother (by grind) (by grind)
  split
  · exact (if_pos (by grind)).symm
  split
  · rename_i henable
    obtain rfl := beq_iff_eq.1 henable
    rfl
  split
  · refine Eq.trans ?_ (hother (by grind) (by grind))
    obtain ⟨event, hwrite⟩ := u.exists_writeSequencer value
    rw [hwrite, delta_clockFrame]
  · exact hother (by grind) (by grind)

end SoundUnit

/-! ## The channel by itself -/

namespace Delta

variable {c : Delta}

/-- In this cycle the shift register gives away its last bit, and takes the buffer. -/
def RunsDry (c : Delta) : Prop := c.timer = 0 ∧ c.bitsLeft = 1

instance (c : Delta) : Decidable c.RunsDry := inferInstanceAs (Decidable (_ ∧ _))

/-- What the channel shows of a byte that waits. -/
def waiting (c : Delta) : List UInt8 := if c.bufferEmpty then [] else [c.buffer]

/-- The cycles until the shift register runs dry. At most seven more bits have to be
played before the last one, in at most 429 cycles each. -/
def untilDry (c : Delta) : Nat := 429 * (c.bitsLeft.toNat - 1) + c.timer.toNat

/-- No period is longer than the first one of the table. -/
structure Timed (c : Delta) : Prop where
  timer : c.timer ≤ 428
  period : c.period ≤ 428

theorem Timed.untilDry_lt (h : c.Timed) (hrange : c.InRange) : c.untilDry < 3432 := by
  have htimer := h.timer
  have hbits := hrange.bitsLeft_le
  rw [UInt16.le_iff_toNat_le] at htimer
  rw [UInt8.le_iff_toNat_le] at hbits
  simp only [UInt16.reduceToNat, UInt8.reduceToNat] at htimer hbits
  unfold untilDry
  omega

/-- The cycles until the last byte of the sample is asked for, at most: before each one
the shift register runs dry. -/
def due (c : Delta) : Nat :=
  3432 * (c.remaining.toNat - 1) + (if c.wanted then 1 else c.untilDry + 1)

theorem lt_due (c : Delta) : 3432 * (c.remaining.toNat - 1) < c.due := by
  unfold due
  split <;> omega

/-- While bits are left, a cycle moves on in the byte that is played: everything that
has to do with the bytes to come stays. -/
structure Plays (c c' : Delta) : Prop where
  same : ∃ level timer shift bitsLeft, c' = { c with level, timer, shift, bitsLeft }
  shift : c'.shift = c.shift ∨ c'.shift = c.shift >>> 1
  nearer : c'.untilDry < c.untilDry

/-- Behind the last bit the shift register takes the byte that waits, if there is
one, and another one is wanted unless the sample is at its end. -/
structure Reloads (c c' : Delta) : Prop where
  same : ∃ level shift, c' = { c with
    level, shift, timer := c.period, bitsLeft := 8, silent := c.bufferEmpty, bufferEmpty := true
    wanted := c.wanted || c.remaining > 0 }
  shift : c.bufferEmpty = false → c'.shift = c.buffer
  idle : c.bufferEmpty = true → c'.shift = c.shift ∨ c'.shift = c.shift >>> 1

theorem playBit_shape (c : Delta) :
    ∃ level shift, c.playBit = { c with level, shift } ∧
      (shift = c.shift ∨ shift = c.shift >>> 1) := by
  unfold playBit
  split
  · exact ⟨_, _, rfl, .inl rfl⟩
  · exact ⟨_, _, rfl, .inr rfl⟩

/-- When the timer has run out, a bit is played, and the next byte is taken behind the
last one. -/
theorem clockTimer_zero (h : c.timer = 0) :
    ∃ level shift, (shift = c.shift ∨ shift = c.shift >>> 1) ∧
      c.clockTimer =
        let d := { c with level, shift, timer := c.period, bitsLeft := c.bitsLeft - 1 }
        if d.bitsLeft == 0 then d.takeBuffer else d := by
  obtain ⟨level, shift, hplay, hshift⟩ := ({ c with timer := c.period }).playBit_shape
  refine ⟨level, shift, hshift, ?_⟩
  unfold clockTimer
  rw [if_pos (beq_iff_eq.2 h)]
  unfold clockOutput
  rw [hplay]

theorem clockTimer_plays (h : c.Timed) (hrange : c.InRange) (hdry : ¬ c.RunsDry) :
    c.Plays c.clockTimer := by
  have hperiod := h.period
  have hbits := hrange.bitsLeft_pos
  rw [UInt16.le_iff_toNat_le] at hperiod
  rw [UInt8.le_iff_toNat_le] at hbits
  simp only [UInt16.reduceToNat, UInt8.reduceToNat] at hperiod hbits
  by_cases htimer : c.timer = 0
  · obtain ⟨level, shift, hshift, hclock⟩ := clockTimer_zero htimer
    have hmore : 2 ≤ c.bitsLeft.toNat := by
      have hlast : c.bitsLeft.toNat ≠ 1 := fun heq => hdry ⟨htimer, UInt8.toNat_inj.1 heq⟩
      omega
    have hleft : (c.bitsLeft - 1).toNat = c.bitsLeft.toNat - 1 :=
      UInt8.toNat_sub_of_le _ _ (UInt8.le_iff_toNat_le.2 hbits)
    have hbeq : ¬ (c.bitsLeft - 1 == 0) = true := by
      rw [beq_iff_eq, ← UInt8.toNat_inj, hleft]
      show ¬ c.bitsLeft.toNat - 1 = 0
      omega
    rw [hclock]
    simp only [if_neg hbeq]
    refine ⟨⟨_, _, _, _, rfl⟩, hshift, ?_⟩
    show 429 * ((c.bitsLeft - 1).toNat - 1) + c.period.toNat <
      429 * (c.bitsLeft.toNat - 1) + c.timer.toNat
    rw [hleft]
    omega
  · have hcounts : c.clockTimer = { c with timer := c.timer - 1 } :=
      if_neg (by simpa using htimer)
    obtain ⟨hpositive, hless⟩ := Word.toNat_pred htimer
    rw [hcounts]
    refine ⟨⟨_, _, _, _, rfl⟩, .inl rfl, ?_⟩
    show 429 * (c.bitsLeft.toNat - 1) + (c.timer - 1).toNat <
      429 * (c.bitsLeft.toNat - 1) + c.timer.toNat
    rw [hless]
    omega

theorem clockTimer_reloads (hdry : c.RunsDry) : c.Reloads c.clockTimer := by
  obtain ⟨level, shift, hshift, hclock⟩ := clockTimer_zero hdry.1
  have hbeq : (c.bitsLeft - 1 == 0) = true := by
    rw [hdry.2]
    rfl
  rw [hclock]
  simp only [if_pos hbeq]
  unfold takeBuffer
  simp only []
  split
  · rename_i hempty
    exact ⟨⟨level, shift, by rw [hempty]⟩,
      fun hfull => absurd (hempty.symm.trans hfull) (by decide), fun _ => hshift⟩
  · rename_i hfull
    exact ⟨⟨level, c.buffer, by rw [Bool.eq_false_iff.2 hfull]⟩, fun _ => rfl,
      fun hempty => absurd hempty hfull⟩

/-- The byte that waits goes to the shift register, and nothing else does. -/
theorem waiting_clockTimer (h : c.Timed) (hrange : c.InRange) :
    c.waiting = (if c.RunsDry ∧ c.clockTimer.silent = false then [c.clockTimer.shift] else []) ++
      c.clockTimer.waiting := by
  by_cases hdry : c.RunsDry
  · obtain ⟨⟨level, shift, hclock⟩, htaken, -⟩ := clockTimer_reloads hdry
    have hsilent : c.clockTimer.silent = c.bufferEmpty := by rw [hclock]
    have hempty : c.clockTimer.waiting = [] := by
      rw [hclock]
      rfl
    rw [hempty, List.append_nil, hsilent]
    unfold waiting
    cases hbuffer : c.bufferEmpty with
    | true => rw [if_pos rfl, if_neg (fun h => absurd h.2 (by decide))]
    | false => rw [if_neg (by decide), if_pos ⟨hdry, rfl⟩, htaken hbuffer]
  · obtain ⟨⟨level, timer, shift, bitsLeft, hclock⟩, -, -⟩ := clockTimer_plays h hrange hdry
    rw [if_neg (fun h => hdry h.1), hclock]
    rfl

/-- The shift register changes in no other way than by giving away a bit. -/
theorem shift_clockTimer (h : c.Timed) (hrange : c.InRange)
    (hkept : ¬ (c.RunsDry ∧ c.clockTimer.silent = false)) :
    c.clockTimer.shift = c.shift ∨ c.clockTimer.shift = c.shift >>> 1 := by
  by_cases hdry : c.RunsDry
  · obtain ⟨⟨level, shift, hclock⟩, -, hidle⟩ := clockTimer_reloads hdry
    have hsilent : c.clockTimer.silent = c.bufferEmpty := by rw [hclock]
    exact hidle ((Bool.not_eq_false _).mp fun hfull => hkept ⟨hdry, hsilent.trans hfull⟩)
  · exact (clockTimer_plays h hrange hdry).shift

theorem timer_clockOutput (c : Delta) :
    c.clockOutput.timer = c.timer ∧ c.clockOutput.period = c.period := by
  obtain ⟨level, shift, hplay, -⟩ := c.playBit_shape
  unfold clockOutput
  rw [hplay]
  simp only []
  split
  · unfold takeBuffer
    simp only []
    split <;> exact ⟨rfl, rfl⟩
  · exact ⟨rfl, rfl⟩

theorem Timed.clockTimer (h : c.Timed) : c.clockTimer.Timed := by
  unfold Delta.clockTimer
  split
  · obtain ⟨htimer, hperiod⟩ := ({ c with timer := c.period }).timer_clockOutput
    exact ⟨htimer.symm ▸ h.period, hperiod.symm ▸ h.period⟩
  · rename_i hrunning
    have htimer := h.timer
    refine ⟨?_, h.period⟩
    show c.timer - 1 ≤ 428
    grind

theorem Timed.write (h : c.Timed) (register : UInt16) (value : UInt8) :
    (c.write register value).Timed := by
  have htable (i : Fin 16) : deltaPeriods[i] ≤ 428 := by
    revert i
    decide
  unfold Delta.write
  split
  · exact ⟨h.timer, htable ⟨value.toNat % 16, Byte.mod_sixteen_lt value⟩⟩
  · exact ⟨h.timer, h.period⟩
  · exact ⟨h.timer, h.period⟩
  · exact ⟨h.timer, h.period⟩

/-- A register concerns neither the byte that is played, nor the one that waits, nor
the place in the sample. Only the end flag can be taken back. -/
theorem write_shape (register : UInt16) (value : UInt8)
    (hflag : c.irqFlag = true → c.irqEnabled = true) :
    ∃ level irqEnabled irqFlag looping period sampleAddress sampleLength,
      c.write register value = { c with
        level, irqEnabled, irqFlag, looping, period, sampleAddress, sampleLength } ∧
      (1 ≤ c.sampleLength → 1 ≤ sampleLength) ∧ irqFlag = (c.irqFlag && irqEnabled) := by
  have hkept : c.irqFlag = (c.irqFlag && c.irqEnabled) := by
    cases hset : c.irqFlag with
    | false => rfl
    | true => exact (hflag hset).symm
  unfold Delta.write
  split
  · exact ⟨_, _, _, _, _, _, _, rfl, id, rfl⟩
  · exact ⟨_, _, _, _, _, _, _, rfl, id, hkept⟩
  · exact ⟨_, _, _, _, _, _, _, rfl, id, hkept⟩
  · refine ⟨_, _, _, _, _, _, _, rfl, fun _ => ?_, hkept⟩
    -- the lowest bit of a length is set
    rw [UInt16.le_iff_toNat_le, UInt16.toNat_or]
    exact Nat.right_le_or

theorem setEnabled_idle (h : c.remaining = 0) :
    c.setEnabled true = { c with
      irqFlag := false
      address := c.sampleAddress, remaining := c.sampleLength
      wanted := c.wanted || c.bufferEmpty } := by
  unfold setEnabled
  simp only [Bool.not_true, Bool.false_eq_true, if_false, h, beq_self_eq_true, if_true]

theorem setEnabled_busy (h : 0 < c.remaining.toNat) :
    c.setEnabled true = { c with irqFlag := false } := by
  have hbusy : ¬ (c.remaining == 0) = true := by
    rw [beq_iff_eq, ← UInt16.toNat_inj]
    exact Nat.ne_of_gt h
  unfold setEnabled
  simp only [Bool.not_true, Bool.false_eq_true, if_false, if_neg hbusy]

theorem request?_eq_some {address : UInt16} :
    c.request? = some address ↔ c.wanted = true ∧ 0 < c.remaining ∧ c.address = address := by
  unfold request?
  rw [Option.ite_none_right_eq_some, Option.some_inj, Bool.and_eq_true, decide_eq_true_eq,
    and_assoc]

/-- No write sets the end flag. -/
theorem irqFlag_access (address : UInt16) (value : UInt8)
    (hflag : c.irqFlag = true → c.irqEnabled = true)
    (hset : (c.access address value).irqFlag = true) :
    c.irqFlag = true := by
  unfold access at hset
  split at hset
  · obtain ⟨_, _, _, _, _, _, _, hwrite, -, rfl⟩ := write_shape address value hflag
    rw [hwrite] at hset
    exact (Bool.and_eq_true_iff.1 hset).1
  split at hset
  · have hcleared : (c.setEnabled (hasBits value 0x10)).irqFlag = false := by
      unfold setEnabled
      simp only []
      split
      · rfl
      split <;> rfl
    exact absurd (hcleared.symm.trans hset) (by decide)
  · exact hset

/-- No register concerns the byte that is played, or the one that waits. -/
theorem access_bytes (address : UInt16) (value : UInt8) (c : Delta) :
    (c.access address value).waiting = c.waiting ∧ (c.access address value).shift = c.shift ∧
      (c.access address value).untilDry = c.untilDry := by
  unfold access
  split
  · unfold Delta.write
    split <;> exact ⟨rfl, rfl, rfl⟩
  split
  · unfold setEnabled
    simp only []
    split
    · exact ⟨rfl, rfl, rfl⟩
    split <;> exact ⟨rfl, rfl, rfl⟩
  · exact ⟨rfl, rfl, rfl⟩

/-- A write that does not stop the sample takes no time from it. -/
theorem due_access {address : UInt16} {value : UInt8} (hmore : 0 < c.remaining.toNat)
    (hgoes : address = 0x4015 → hasBits value 0x10 = true) :
    (c.access address value).due = c.due := by
  have hkept : (c.access address value).remaining = c.remaining ∧
      (c.access address value).wanted = c.wanted := by
    unfold access
    split
    · unfold Delta.write
      split <;> exact ⟨rfl, rfl⟩
    split
    · rename_i henable
      rw [hgoes henable, setEnabled_busy hmore]
      exact ⟨rfl, rfl⟩
    · exact ⟨rfl, rfl⟩
  rw [due, due, hkept.1, hkept.2, (access_bytes address value c).2.2]

/-! ### Delivery -/

/-- Every byte but the last leaves the sample where the next one is. -/
theorem deliver_more (byte : UInt8) (h : 1 < c.remaining.toNat) :
    c.deliver byte = { c with
      wanted := false, buffer := byte, bufferEmpty := false
      address := nextAddress c.address, remaining := c.remaining - 1 } := by
  have hsome : ¬ (c.remaining == 0) = true := by
    rw [beq_iff_eq, ← UInt16.toNat_inj]
    exact Nat.ne_of_gt (Nat.lt_of_succ_lt h)
  have hmore : c.remaining - 1 > 0 := by
    have hone : 1 ≤ c.remaining := UInt16.le_iff_toNat_le.2 (Nat.le_of_succ_le h)
    rw [gt_iff_lt, UInt16.lt_iff_toNat_lt, UInt16.toNat_sub_of_le _ _ hone]
    exact Nat.sub_pos_of_lt h
  simp only [deliver, if_neg hsome, finishSample, if_pos hmore]

/-- Behind the last byte the sample begins again, or its end is flagged. -/
theorem deliver_last (byte : UInt8) (h : c.remaining.toNat = 1) :
    c.deliver byte =
      if c.looping then { c with
        wanted := false, buffer := byte, bufferEmpty := false
        address := c.sampleAddress, remaining := c.sampleLength }
      else { c with
        wanted := false, buffer := byte, bufferEmpty := false
        address := nextAddress c.address, remaining := 0
        irqFlag := c.irqFlag || c.irqEnabled } := by
  have hone : c.remaining = 1 := UInt16.toNat_inj.1 h
  have hsome : ¬ ((1 : UInt16) == 0) = true := by decide
  have hnone : ¬ (1 : UInt16) - 1 > 0 := by decide
  simp only [deliver, finishSample, hone, if_neg hsome, if_neg hnone]
  rfl

/-- Behind a delivery, the rest of the sample is due. -/
theorem due_deliver (byte : UInt8) (h : c.Timed) (hrange : c.InRange)
    (hmore : 1 < c.remaining.toNat) : (c.deliver byte).due ≤ 3432 * (c.remaining.toNat - 1) := by
  have hdry := h.untilDry_lt hrange
  have hless : (c.remaining - 1).toNat = c.remaining.toNat - 1 :=
    UInt16.toNat_sub_of_le _ _ (UInt16.le_iff_toNat_le.2 (Nat.le_of_succ_le hmore))
  rw [deliver_more byte hmore]
  show 3432 * ((c.remaining - 1).toNat - 1) + (c.untilDry + 1) ≤ _
  rw [hless]
  omega

/-- A cycle in which no byte comes to be wanted brings the next one nearer. -/
theorem due_clockTimer (h : c.Timed) (hrange : c.InRange) (hmore : 0 < c.remaining)
    (hrequest : c.clockTimer.request? = none) : c.clockTimer.due < c.due := by
  have hnotWanted (d : Delta) (hremaining : d.remaining = c.remaining)
      (hrequest : d.request? = none) : d.wanted = false := by
    refine Bool.eq_false_iff.2 fun hwanted => ?_
    have hsome : d.request? = some d.address :=
      request?_eq_some.2 ⟨hwanted, hremaining ▸ hmore, rfl⟩
    exact absurd (hrequest.symm.trans hsome) nofun
  by_cases hdry : c.RunsDry
  · obtain ⟨⟨_, _, hclock⟩, -, -⟩ := clockTimer_reloads hdry
    have hwanted := hnotWanted _ (by rw [hclock]) hrequest
    rw [hclock] at hwanted
    have hwanted : (c.wanted || decide (c.remaining > 0)) = false := hwanted
    rw [decide_eq_true hmore, Bool.or_true] at hwanted
    exact absurd hwanted (by decide)
  · obtain ⟨⟨_, _, _, _, hclock⟩, -, hnearer⟩ := clockTimer_plays h hrange hdry
    have hwanted := hnotWanted _ (by rw [hclock]) hrequest
    have hbefore : c.wanted = false := by
      rw [hclock] at hwanted
      exact hwanted
    have hremaining : c.clockTimer.remaining = c.remaining := by rw [hclock]
    unfold due
    rw [hwanted, hbefore, hremaining, if_neg (by decide), if_neg (by decide)]
    omega

/-- What is delivered waits, and the byte that is played goes on. -/
theorem deliver_bytes (byte : UInt8) (h : 0 < c.remaining.toNat) :
    (c.deliver byte).waiting = [byte] ∧ (c.deliver byte).shift = c.shift ∧
      (c.deliver byte).untilDry = c.untilDry ∧ (c.deliver byte).wanted = false := by
  rcases Nat.lt_or_eq_of_le (Nat.succ_le_of_lt h) with hmore | hlast
  · rw [deliver_more byte hmore]
    exact ⟨rfl, rfl, rfl, rfl⟩
  · rw [deliver_last byte hlast.symm]
    split <;> exact ⟨rfl, rfl, rfl, rfl⟩

end Delta

/-! ## Playbacks -/

/-- A sample that is played: the address and the length that it began with, and the
addresses that were asked for since then. -/
structure Playback where
  first : UInt16
  length : UInt16
  fetched : List UInt16

namespace Playback

/-- A playback that begins, with what the registers hold. -/
def start (c : Delta) : Playback :=
  { first := c.sampleAddress, length := c.sampleLength, fetched := [] }

/-- A byte was asked for. Behind as many as the sample has, the playback begins anew
with what the registers hold by then, or it is over. -/
def fetch (c : Delta) (address : UInt16) (p : Playback) : Option Playback :=
  if p.fetched.length + 1 < p.length.toNat then some { p with fetched := p.fetched ++ [address] }
  else if c.looping then some (start c)
  else none

/-- The playback behind an event, from the one in front of it. The enables start one
where there is none, and stop any. -/
def follow (u : SoundUnit) (playing : Option Playback) : SampleEvent → Option Playback
  | .cycle _ =>
    match u.tick.request? with
    | none => playing
    | some address => playing.bind (fetch u.delta address)
  | .write address value =>
    if address = 0x4015 then
      if hasBits value 0x10 then some (playing.getD (start u.delta)) else none
    else playing

/-- The next byte of the playback is its last one. -/
def AtLast (p : Playback) : Prop := p.fetched.length + 1 = p.length.toNat

/-- The address of a byte of a sample: one after the other, and from the upper end of
the address space on to its middle. -/
def place (first : UInt16) (k : Nat) : Nat :=
  if first.toNat + k ≤ 0xFFFF then first.toNat + k else 0x8000 + (first.toNat + k) % 0x8000

theorem place_zero (first : UInt16) : place first 0 = first.toNat :=
  if_pos (Nat.le_of_lt_succ first.toNat_lt)

theorem place_succ {first address : UInt16} {k : Nat} (h : address.toNat = place first k) :
    (Delta.nextAddress address).toNat = place first (k + 1) := by
  have hlt := address.toNat_lt
  unfold place at h ⊢
  unfold Delta.nextAddress
  split
  · rename_i hend
    rw [beq_iff_eq.1 hend] at h
    simp only [UInt16.reduceToNat] at h ⊢
    split at h <;> split <;> omega
  · rename_i hinside
    have hne : address.toNat ≠ 0xFFFF := fun heq => hinside (beq_iff_eq.2 (UInt16.toNat_inj.1 heq))
    rw [UInt16.toNat_add]
    simp only [UInt16.reduceToNat]
    split at h <;> split <;> omega

/-- A playback is under way: it has asked for consecutive bytes, the channel is at
the next one, and it has as many to go as are missing. -/
structure Underway (p : Playback) (c : Delta) : Prop where
  fetched : p.fetched.map UInt16.toNat = (List.range p.fetched.length).map (place p.first)
  address : c.address.toNat = place p.first p.fetched.length
  remaining : c.remaining.toNat + p.fetched.length = p.length.toNat
  more : 0 < c.remaining.toNat

/-- A playback is under way as soon as the channel has taken over the registers. -/
theorem underway_start {c c' : Delta} (haddress : c'.address = c.sampleAddress)
    (hremaining : c'.remaining = c.sampleLength) (hlength : 1 ≤ c.sampleLength) :
    (start c).Underway c' :=
  ⟨rfl, haddress ▸ (place_zero _).symm, hremaining ▸ rfl,
    hremaining ▸ UInt16.le_iff_toNat_le.1 hlength⟩

/-- Only the registers of the playback decide whether it is under way. -/
theorem Underway.of_eq {p : Playback} {c c' : Delta} (h : p.Underway c)
    (haddress : c'.address = c.address) (hremaining : c'.remaining = c.remaining) :
    p.Underway c' :=
  ⟨h.fetched, haddress ▸ h.address, hremaining ▸ h.remaining, hremaining ▸ h.more⟩

/-- With the byte that is fetched next, a playback has asked for consecutive bytes
again. -/
theorem Underway.fetched_append {p : Playback} {c : Delta} (h : p.Underway c) :
    (p.fetched ++ [c.address]).map UInt16.toNat =
      (List.range (p.fetched.length + 1)).map (place p.first) := by
  rw [List.map_append, List.range_succ, List.map_append, h.fetched, List.map_singleton,
    List.map_singleton, h.address]

/-- A byte that is not the last one leaves a playback under way. -/
theorem Underway.next {p : Playback} {c c' : Delta} (h : p.Underway c)
    (hmore : 1 < c.remaining.toNat)
    (haddress : c'.address = Delta.nextAddress c.address)
    (hremaining : c'.remaining = c.remaining - 1) :
    { p with fetched := p.fetched ++ [c.address] }.Underway c' := by
  have hless : c'.remaining.toNat = c.remaining.toNat - 1 := by
    rw [hremaining]
    exact UInt16.toNat_sub_of_le _ _ (UInt16.le_iff_toNat_le.2 (Nat.le_of_succ_le hmore))
  have hsum := h.remaining
  refine ⟨?_, ?_, ?_, ?_⟩
  · rw [List.length_append, List.length_singleton]
    exact h.fetched_append
  · rw [haddress, List.length_append, List.length_singleton]
    exact place_succ h.address
  · rw [hless, List.length_append, List.length_singleton]
    show c.remaining.toNat - 1 + (p.fetched.length + 1) = p.length.toNat
    omega
  · rw [hless]
    omega

end Playback

/-- What holds of the channel and its playback between any two events. -/
structure Consistent (c : Delta) (playing : Option Playback) : Prop where
  inRange : c.InRange
  timed : c.Timed
  length : 1 ≤ c.sampleLength
  wanted : c.wanted = true → c.bufferEmpty = true
  flag : c.irqFlag = true → c.irqEnabled = true
  idle : playing = none → c.remaining = 0
  underway : ∀ p, playing = some p → p.Underway c

namespace Consistent

open Delta Playback

variable {c : Delta} {playing : Option Playback}

theorem powerOn : Consistent .powerOn none where
  inRange := Delta.inRange_powerOn
  timed := ⟨by decide, by decide⟩
  length := by decide
  wanted h := absurd h (by decide)
  flag h := absurd h (by decide)
  idle _ := rfl
  underway _ h := nomatch h

theorem clockTimer (h : Consistent c playing) : Consistent c.clockTimer playing := by
  have hrange := h.inRange.clockTimer
  have htimed := h.timed.clockTimer
  by_cases hdry : c.RunsDry
  · obtain ⟨⟨level, shift, hclock⟩, -⟩ := clockTimer_reloads hdry
    rw [hclock] at hrange htimed ⊢
    exact ⟨hrange, htimed, h.length, fun _ => rfl, h.flag, h.idle,
      fun p hp => (h.underway p hp).of_eq rfl rfl⟩
  · obtain ⟨⟨level, timer, shift, bitsLeft, hclock⟩, -, -⟩ :=
      clockTimer_plays h.timed h.inRange hdry
    rw [hclock] at hrange htimed ⊢
    exact ⟨hrange, htimed, h.length, h.wanted, h.flag, h.idle,
      fun p hp => (h.underway p hp).of_eq rfl rfl⟩

/-- Whatever is written, the playback goes on as it began. -/
theorem write (h : Consistent c playing) (register : UInt16) (value : UInt8) :
    Consistent (c.write register value) playing := by
  have hrange := h.inRange.write register value
  have htimed := h.timed.write register value
  obtain ⟨_, _, _, _, _, _, _, hwrite, hlength, hflag⟩ := write_shape register value h.flag
  rw [hwrite] at hrange htimed ⊢
  refine ⟨hrange, htimed, hlength h.length, h.wanted, ?_, h.idle,
    fun p hp => (h.underway p hp).of_eq rfl rfl⟩
  intro hset
  rw [hflag] at hset
  exact (Bool.and_eq_true_iff.1 hset).2

theorem stop (h : Consistent c playing) : Consistent (c.setEnabled false) none :=
  ⟨h.inRange.setEnabled false, ⟨h.timed.timer, h.timed.period⟩, h.length,
    nofun, nofun, fun _ => rfl, nofun⟩

theorem enable (h : Consistent c playing) :
    Consistent (c.setEnabled true) (some (playing.getD (.start c))) := by
  have hrange := h.inRange.setEnabled true
  cases playing with
  | none =>
      rw [setEnabled_idle (h.idle rfl)] at hrange ⊢
      refine ⟨hrange, ⟨h.timed.timer, h.timed.period⟩, h.length, ?_, nofun, nofun, ?_⟩
      · intro hwanted
        exact (Bool.or_eq_true_iff.1 hwanted).elim h.wanted id
      · rintro _ ⟨⟩
        exact underway_start rfl rfl h.length
  | some p =>
      have hunderway := h.underway p rfl
      rw [setEnabled_busy hunderway.more] at hrange ⊢
      refine ⟨hrange, ⟨h.timed.timer, h.timed.period⟩, h.length, h.wanted, nofun, nofun, ?_⟩
      rintro _ ⟨⟩
      exact hunderway.of_eq rfl rfl

/-- A byte that is delivered brings the playback on by one. -/
theorem deliver (h : Consistent c playing) {address : UInt16}
    (hrequest : c.request? = some address) (byte : UInt8) :
    Consistent (c.deliver byte) (playing.bind (fetch c address)) := by
  obtain ⟨-, hremaining, rfl⟩ := request?_eq_some.1 hrequest
  have hrange := h.inRange.deliver byte
  cases playing with
  | none => exact absurd (h.idle rfl ▸ hremaining) (by decide)
  | some p =>
      have hunderway := h.underway p rfl
      have hsum := hunderway.remaining
      have hmore := hunderway.more
      rw [Option.bind_some]
      unfold fetch
      split
      · have hmore : 1 < c.remaining.toNat := by omega
        rw [deliver_more byte hmore] at hrange ⊢
        refine ⟨hrange, ⟨h.timed.timer, h.timed.period⟩, h.length, nofun, h.flag, nofun, ?_⟩
        rintro _ ⟨⟩
        exact hunderway.next hmore rfl rfl
      have hlast : c.remaining.toNat = 1 := by omega
      rw [deliver_last byte hlast] at hrange ⊢
      split
      · rename_i hlooping
        rw [if_pos hlooping] at hrange
        refine ⟨hrange, ⟨h.timed.timer, h.timed.period⟩, h.length, nofun, h.flag, nofun, ?_⟩
        rintro _ ⟨⟩
        exact underway_start rfl rfl h.length
      · rename_i hlooping
        rw [if_neg hlooping] at hrange
        refine ⟨hrange, ⟨h.timed.timer, h.timed.period⟩, h.length, nofun, ?_, fun _ => rfl, nofun⟩
        intro hset
        exact (Bool.or_eq_true_iff.1 hset).elim h.flag id

theorem tick {u : SoundUnit} (h : Consistent u.delta playing) : Consistent u.tick.delta playing :=
  u.delta_tick ▸ h.clockTimer

/-- A cycle leaves the registers and the end flag as they are. -/
theorem registers_tick {u : SoundUnit} (h : Consistent u.delta playing) :
    start u.tick.delta = start u.delta ∧ u.tick.delta.looping = u.delta.looping ∧
      u.tick.delta.irqEnabled = u.delta.irqEnabled ∧ u.tick.delta.irqFlag = u.delta.irqFlag := by
  rw [SoundUnit.delta_tick]
  by_cases hdry : u.delta.RunsDry
  · obtain ⟨⟨_, _, hclock⟩, -, -⟩ := clockTimer_reloads hdry
    rw [hclock]
    exact ⟨rfl, rfl, rfl, rfl⟩
  · obtain ⟨⟨_, _, _, _, hclock⟩, -, -⟩ := clockTimer_plays h.timed h.inRange hdry
    rw [hclock]
    exact ⟨rfl, rfl, rfl, rfl⟩

theorem fetch_tick {u : SoundUnit} (h : Consistent u.delta playing) (address : UInt16)
    (p : Playback) : fetch u.tick.delta address p = fetch u.delta address p := by
  obtain ⟨hstart, hlooping, -, -⟩ := h.registers_tick
  rw [fetch, fetch, hstart, hlooping]

/-- What an event leaves behind is consistent again. -/
theorem serve {u : SoundUnit} (h : Consistent u.delta playing) (event : SampleEvent) :
    Consistent (u.serve event).delta (follow u playing event) := by
  cases event with
  | cycle byte =>
      unfold SoundUnit.serve follow
      simp only []
      split
      · exact h.tick
      · rename_i address hrequest
        rw [← funext (h.fetch_tick address)]
        exact h.tick.deliver hrequest byte
  | write address value =>
      unfold SoundUnit.serve follow
      simp only []
      rw [SoundUnit.delta_write]
      unfold access
      split
      · rename_i hrow
        rw [if_neg (by rintro rfl; exact absurd hrow (by decide))]
        exact h.write address value
      split
      · cases hasBits value 0x10 with
        | false => exact h.stop
        | true => exact h.enable
      · exact h

end Consistent

/-! ## Bytes -/

namespace SoundUnit

/-- The address that is asked for in an event. -/
def asks (u : SoundUnit) : SampleEvent → Option UInt16
  | .cycle _ => u.tick.request?
  | .write .. => none

/-- The byte that is delivered in an event. -/
def accepts (u : SoundUnit) : SampleEvent → List UInt8
  | .cycle byte => if u.tick.request?.isSome then [byte] else []
  | .write .. => []

/-- The byte that the shift register takes in an event: it runs dry, and is not silent
from then on. -/
def loads (u : SoundUnit) : SampleEvent → List UInt8
  | .cycle _ =>
    if u.delta.RunsDry ∧ u.tick.delta.silent = false then [u.tick.delta.shift] else []
  | .write .. => []

end SoundUnit

namespace Consistent

open Delta Playback

variable {u : SoundUnit} {playing : Option Playback}

theorem bufferEmpty (h : Consistent u.delta playing) (hrequest : u.request?.isSome) :
    u.delta.bufferEmpty = true := by
  obtain ⟨address, hrequest⟩ := Option.isSome_iff_exists.1 hrequest
  exact h.wanted (request?_eq_some.1 hrequest).1

/-- In every event, what waits and what is delivered is what the shift register takes
and what waits then. -/
theorem waiting_serve (h : Consistent u.delta playing) (event : SampleEvent) :
    u.delta.waiting ++ u.accepts event = u.loads event ++ (u.serve event).delta.waiting := by
  cases event with
  | cycle byte =>
      have hclock := waiting_clockTimer h.timed h.inRange
      rw [← SoundUnit.delta_tick] at hclock
      unfold SoundUnit.accepts SoundUnit.loads SoundUnit.serve
      simp only []
      rw [hclock, List.append_assoc]
      congr 1
      cases hrequest : u.tick.request? with
      | none => exact List.append_nil _
      | some address =>
          have hempty := h.tick.bufferEmpty (hrequest ▸ rfl)
          have hmore := (request?_eq_some.1 hrequest).2.1
          rw [UInt16.lt_iff_toNat_lt] at hmore
          have hdelivered := (deliver_bytes byte hmore).1
          rw [show (u.tick.deliver byte).delta.waiting = [byte] from hdelivered]
          unfold waiting
          rw [if_pos hempty]
          rfl
  | write address value =>
      show u.delta.waiting ++ [] = (u.write address value).delta.waiting
      rw [SoundUnit.delta_write, (access_bytes address value u.delta).1, List.append_nil]

/-- A byte that the shift register has not taken does not get into it. -/
theorem shift_serve (h : Consistent u.delta playing) {event : SampleEvent}
    (hloads : u.loads event = []) :
    (u.serve event).delta.shift = u.delta.shift ∨
      (u.serve event).delta.shift = u.delta.shift >>> 1 := by
  cases event with
  | cycle byte =>
      have hkept : ¬ (u.delta.RunsDry ∧ u.delta.clockTimer.silent = false) := by
        rw [← SoundUnit.delta_tick]
        intro htaken
        exact absurd ((if_pos htaken).symm.trans hloads) (List.cons_ne_nil _ _)
      have hclock := shift_clockTimer h.timed h.inRange hkept
      rw [← SoundUnit.delta_tick] at hclock
      unfold SoundUnit.serve
      simp only []
      split
      · exact hclock
      · rename_i hrequest
        have hmore := (request?_eq_some.1 hrequest).2.1
        rw [UInt16.lt_iff_toNat_lt] at hmore
        rw [show (u.tick.deliver byte).delta.shift = u.tick.delta.shift from
          (deliver_bytes byte hmore).2.1]
        exact hclock
  | write address value =>
      left
      show (u.write address value).delta.shift = u.delta.shift
      rw [SoundUnit.delta_write, (access_bytes address value u.delta).2.1]

end Consistent

/-! ## Requests -/

namespace Consistent

open Delta Playback

variable {u : SoundUnit} {playing : Option Playback} {p : Playback} {event : SampleEvent}
  {address : UInt16}

/-- Only in a cycle a byte is asked for, and then it is delivered. -/
theorem asks_eq_some (playing : Option Playback) (hasks : u.asks event = some address) :
    u.tick.request? = some address ∧
      ∃ byte, (u.serve event).delta = u.tick.delta.deliver byte ∧
        follow u playing event = playing.bind (fetch u.delta address) := by
  cases event with
  | cycle byte =>
      have hrequest : u.tick.request? = some address := hasks
      refine ⟨hrequest, byte, ?_, ?_⟩
      · simp only [SoundUnit.serve, hrequest]
        rfl
      · simp only [follow, hrequest]
  | write _ _ => nomatch hasks

/-- What is asked for is the next byte of a playback. -/
theorem asks (h : Consistent u.delta playing) (hasks : u.asks event = some address) :
    ∃ p, playing = some p ∧ p.Underway u.tick.delta ∧ u.tick.delta.address = address := by
  obtain ⟨-, hmore, haddress⟩ := request?_eq_some.1 (asks_eq_some playing hasks).1
  cases hplaying : playing with
  | none => exact absurd (h.tick.idle hplaying ▸ hmore) (by decide)
  | some p => exact ⟨p, rfl, h.tick.underway p hplaying, haddress⟩

/-- Behind the last byte, a playback starts over or leaves the flag. -/
theorem serve_last (h : Consistent u.delta (some p)) (hasks : u.asks event = some address)
    (hlast : p.AtLast) :
    if u.delta.looping then
      follow u (some p) event = some (start u.delta) ∧
        (u.serve event).delta.irqFlag = u.delta.irqFlag
    else
      follow u (some p) event = none ∧ (u.serve event).delta.irqFlag = u.delta.irqEnabled := by
  obtain ⟨hrequest, byte, hserve, hfollow⟩ := asks_eq_some (some p) hasks
  obtain ⟨-, hlooping, henabled, hflag⟩ := h.registers_tick
  have hone : u.tick.delta.remaining.toNat = 1 := by
    have hremaining := (h.tick.underway p rfl).remaining
    have hlast : p.fetched.length + 1 = p.length.toNat := hlast
    omega
  have hkept : u.delta.irqFlag = true → u.delta.irqEnabled = true := h.flag
  rw [hserve, hfollow, Option.bind_some, fetch, if_neg (Nat.not_lt_of_le (Nat.le_of_eq hlast.symm)),
    deliver_last byte hone, hlooping]
  split
  · exact ⟨rfl, hflag⟩
  · refine ⟨rfl, ?_⟩
    show (u.tick.delta.irqFlag || u.tick.delta.irqEnabled) = u.delta.irqEnabled
    rw [hflag, henabled]
    exact Bool.or_eq_right_iff_imp.2 hkept

/-- In front of its last byte, a playback goes on, and nothing is flagged. -/
theorem serve_more (h : Consistent u.delta (some p)) (hasks : u.asks event = some address)
    (hmore : ¬ p.AtLast) :
    follow u (some p) event = some { p with fetched := p.fetched ++ [address] } ∧
      (u.serve event).delta.irqFlag = u.delta.irqFlag := by
  obtain ⟨hrequest, byte, hserve, hfollow⟩ := asks_eq_some (some p) hasks
  obtain ⟨-, -, -, hflag⟩ := h.registers_tick
  have hunderway := h.tick.underway p rfl
  have hremaining := hunderway.remaining
  have hpositive := hunderway.more
  have hless : p.fetched.length + 1 < p.length.toNat := by
    have hmore : ¬ p.fetched.length + 1 = p.length.toNat := hmore
    omega
  rw [hserve, hfollow, Option.bind_some, fetch, if_pos hless, deliver_more byte (by omega)]
  exact ⟨rfl, hflag⟩

/-- The end flag is set by the last byte of a playback alone. -/
theorem irqFlag_serve (h : Consistent u.delta playing)
    (hset : (u.serve event).delta.irqFlag = true) (hclear : u.delta.irqFlag = false) :
    (u.asks event).isSome ∧ ∃ p, playing = some p ∧ p.AtLast ∧ u.delta.looping = false := by
  cases hasks : u.asks event with
  | none =>
      have hkept : (u.serve event).delta.irqFlag = true → u.delta.irqFlag = true := by
        cases event with
        | cycle byte =>
            have hrequest : u.tick.request? = none := hasks
            simp only [SoundUnit.serve, hrequest]
            exact fun hset => h.registers_tick.2.2.2 ▸ hset
        | write address value =>
            show (u.write address value).delta.irqFlag = true → _
            rw [SoundUnit.delta_write]
            exact irqFlag_access address value h.flag
      exact absurd (hclear ▸ hkept hset) (by decide)
  | some address =>
      obtain ⟨p, rfl, -, -⟩ := h.asks hasks
      refine ⟨rfl, p, rfl, ?_⟩
      by_cases hlast : p.AtLast
      · have hend := h.serve_last hasks hlast
        refine ⟨hlast, ?_⟩
        cases hlooping : u.delta.looping with
        | false => rfl
        | true =>
            rw [hlooping, if_pos rfl] at hend
            rw [hend.2, hclear] at hset
            exact absurd hset (by decide)
      · rw [(h.serve_more hasks hlast).2, hclear] at hset
        exact absurd hset (by decide)

/-- Unless it is stopped, a playback that is not at its end goes on with every event,
and every cycle brings it nearer to its end. -/
theorem due_serve (h : Consistent u.delta (some p)) (hgoes : ¬ event.Stops)
    (hahead : p.AtLast → u.asks event = none) :
    ∃ q, follow u (some p) event = some q ∧ q.first = p.first ∧ q.length = p.length ∧
      (u.serve event).delta.due + event.cycles ≤ u.delta.due := by
  have hmore := (h.underway p rfl).more
  cases hasks : u.asks event with
  | some address =>
      have hnotLast : ¬ p.AtLast := fun hlast => absurd ((hahead hlast).symm.trans hasks) nofun
      obtain ⟨hfollow, -⟩ := h.serve_more hasks hnotLast
      refine ⟨_, hfollow, rfl, rfl, ?_⟩
      obtain ⟨-, byte, hserve, -⟩ := asks_eq_some (some p) hasks
      have hticked := h.tick.underway p rfl
      have hnext : 1 < u.tick.delta.remaining.toNat := by
        have hremaining := hticked.remaining
        have hnotLast : ¬ p.fetched.length + 1 = p.length.toNat := hnotLast
        have hpositive := hticked.more
        omega
      have hdue := due_deliver byte h.tick.timed h.tick.inRange hnext
      have hbefore := u.delta.lt_due
      have hsame : u.delta.remaining.toNat = u.tick.delta.remaining.toNat := by
        have hremaining := (h.underway p rfl).remaining
        have hticked := hticked.remaining
        omega
      have hone := event.cycles_le
      rw [hserve]
      omega
  | none =>
      cases event with
      | cycle byte =>
          have hrequest : u.tick.request? = none := hasks
          refine ⟨p, ?_, rfl, rfl, ?_⟩
          · simp only [follow, hrequest]
          · simp only [SoundUnit.serve, hrequest]
            rw [SoundUnit.request?, SoundUnit.delta_tick] at hrequest
            rw [SoundUnit.delta_tick]
            exact due_clockTimer h.timed h.inRange (UInt16.lt_iff_toNat_lt.2 hmore) hrequest
      | write address value =>
          have hgoes (henable : address = 0x4015) : hasBits value 0x10 = true :=
            (Bool.not_eq_false _).mp fun hbit => hgoes ⟨henable, hbit⟩
          refine ⟨p, ?_, rfl, rfl, ?_⟩
          · unfold follow
            simp only []
            split
            · rename_i henable
              rw [hgoes henable, if_pos rfl, Option.getD_some]
            · rfl
          · show (u.write address value).delta.due + 0 ≤ u.delta.due
            rw [SoundUnit.delta_write, due_access hmore hgoes]
            exact Nat.le_refl _

end Consistent

/-! ## Histories -/

section History

open Playback

variable (rate : UInt32) (events : Nat → SampleEvent)

/-- The sound unit in front of an event of its history, which begins at power-on. -/
def soundBefore : Nat → SoundUnit
  | 0 => .powerOn rate
  | n + 1 => (soundBefore n).serve (events n)

/-- The playback in front of an event. -/
def playback : Nat → Option Playback
  | 0 => none
  | n + 1 => follow (soundBefore rate events n) (playback n) (events n)

/-- The address that is asked for in an event. -/
def asked (n : Nat) : Option UInt16 := (soundBefore rate events n).asks (events n)

/-- The bytes that were delivered in front of an event. -/
def delivered (n : Nat) : List UInt8 :=
  (List.range n).flatMap fun k => (soundBefore rate events k).accepts (events k)

/-- The bytes that the shift register took in front of an event. -/
def loaded (n : Nat) : List UInt8 :=
  (List.range n).flatMap fun k => (soundBefore rate events k).loads (events k)

/-- The cycles in a number of events, from one on. -/
def cyclesFrom : Nat → Nat → Nat
  | _, 0 => 0
  | n, count + 1 => (events n).cycles + cyclesFrom (n + 1) count

theorem consistent (n : Nat) :
    Consistent (soundBefore rate events n).delta (playback rate events n) := by
  induction n with
  | zero => exact Consistent.powerOn
  | succ n ih => exact ih.serve (events n)

/-- What was delivered was taken, but for the byte that waits. -/
theorem delivered_eq (n : Nat) :
    delivered rate events n =
      loaded rate events n ++ (soundBefore rate events n).delta.waiting := by
  induction n with
  | zero => rfl
  | succ n ih =>
      have hserve := (consistent rate events n).waiting_serve (events n)
      unfold delivered loaded at ih ⊢
      rw [List.range_succ, List.flatMap_append, List.flatMap_append, ih, List.flatMap_singleton,
        List.flatMap_singleton, List.append_assoc, hserve, List.append_assoc]
      rfl

/-- A playback that is not stopped comes to its end when it is due. -/
theorem exists_last_of_due {count n : Nat} {p : Playback}
    (hplaying : playback rate events n = some p)
    (hgoes : ∀ k < count, ¬ (events (n + k)).Stops)
    (hdue : (soundBefore rate events n).delta.due ≤ cyclesFrom events n count) :
    ∃ k < count, (asked rate events (n + k)).isSome ∧
      ∃ q, playback rate events (n + k) = some q ∧ q.first = p.first ∧ q.length = p.length ∧
        q.AtLast := by
  induction count generalizing n p with
  | zero => exact absurd hdue (Nat.not_le_of_lt (Nat.zero_lt_of_lt (Delta.lt_due _)))
  | succ count ih =>
      by_cases hend : p.AtLast ∧ (asked rate events n).isSome
      · exact ⟨0, Nat.zero_lt_succ _, hend.2, p, hplaying, rfl, rfl, hend.1⟩
      have hconsistent := consistent rate events n
      rw [hplaying] at hconsistent
      obtain ⟨q, hfollow, hfirst, hlength, hless⟩ :=
        hconsistent.due_serve (hgoes 0 (Nat.zero_lt_succ _))
          fun hlast => Option.not_isSome_iff_eq_none.1 fun hasks => hend ⟨hlast, hasks⟩
      have hnext : playback rate events (n + 1) = some q := by
        rw [playback, hplaying]
        exact hfollow
      have hgoes' (k : Nat) (hk : k < count) : ¬ (events (n + 1 + k)).Stops := by
        rw [Nat.add_assoc, Nat.add_comm 1]
        exact hgoes (k + 1) (Nat.succ_lt_succ hk)
      have hdue' : (soundBefore rate events (n + 1)).delta.due ≤
          cyclesFrom events (n + 1) count := by
        have hsum : cyclesFrom events n (count + 1) =
          (events n).cycles + cyclesFrom events (n + 1) count := rfl
        have hless : (soundBefore rate events (n + 1)).delta.due + (events n).cycles ≤
          (soundBefore rate events n).delta.due := hless
        omega
      obtain ⟨k, hk, hasked, r, hr, hrfirst, hrlength, hlast⟩ := ih hnext hgoes' hdue'
      rw [Nat.add_assoc, Nat.add_comm 1] at hasked hr
      exact ⟨k + 1, Nat.succ_lt_succ hk, hasked, r, hr, hrfirst.trans hfirst,
        hrlength.trans hlength, hlast⟩

/-- No byte of a sample is lost, or played twice, in front of an event and in it. -/
structure Lossless (n : Nat) : Prop where
  /-- A byte is wanted only while no other one waits. -/
  wanted : (soundBefore rate events n).request?.isSome →
    (soundBefore rate events n).delta.bufferEmpty = true
  /-- So it is when a byte is asked for. -/
  empty : (asked rate events n).isSome → (soundBefore rate events n).tick.delta.bufferEmpty = true
  /-- The shift register takes the bytes that are delivered, in order and once each. -/
  bytes : delivered rate events n =
    loaded rate events n ++ (soundBefore rate events n).delta.waiting
  /-- It changes in no other way than by giving away a bit. -/
  shift : (soundBefore rate events n).loads (events n) = [] →
    (soundBefore rate events (n + 1)).delta.shift = (soundBefore rate events n).delta.shift ∨
      (soundBefore rate events (n + 1)).delta.shift = (soundBefore rate events n).delta.shift >>> 1
  /-- The status shows whether there is a playback. -/
  active : (soundBefore rate events n).delta.active = (playback rate events n).isSome
  /-- What is asked for is the next byte of the playback, and one that it has. -/
  requests : ∀ address, asked rate events n = some address →
    ∃ p, playback rate events n = some p ∧ p.fetched.length < p.length.toNat ∧
      (p.fetched ++ [address]).map UInt16.toNat =
        (List.range (p.fetched.length + 1)).map (place p.first)
  /-- The last byte starts the playback over, or ends it and sets the flag if that is
  enabled. -/
  ends : ∀ p, playback rate events n = some p → p.AtLast → (asked rate events n).isSome →
    if (soundBefore rate events n).delta.looping then
      playback rate events (n + 1) = some (start (soundBefore rate events n).delta) ∧
        (soundBefore rate events (n + 1)).delta.irqFlag = (soundBefore rate events n).delta.irqFlag
    else
      playback rate events (n + 1) = none ∧
        (soundBefore rate events (n + 1)).delta.irqFlag =
          (soundBefore rate events n).delta.irqEnabled
  /-- Nothing else sets the flag. -/
  flag : (soundBefore rate events n).delta.irqFlag = false →
    (soundBefore rate events (n + 1)).delta.irqFlag = true →
      (asked rate events n).isSome ∧ ∃ p, playback rate events n = some p ∧ p.AtLast ∧
        (soundBefore rate events n).delta.looping = false
  /-- A playback that is not stopped asks for all its bytes, the last one within 3432
  cycles for each byte that is missing. -/
  progress : ∀ p count, playback rate events n = some p →
    (∀ k < count, ¬ (events (n + k)).Stops) →
      3432 * (p.length.toNat - p.fetched.length) ≤ cyclesFrom events n count →
        ∃ k < count, (asked rate events (n + k)).isSome ∧
          ∃ q, playback rate events (n + k) = some q ∧ q.first = p.first ∧ q.length = p.length ∧
            q.AtLast

/-- In every history of a sound unit, the delta channel plays its samples without a
loss. -/
theorem samples_lossless (n : Nat) : Lossless rate events n := by
  have hconsistent := consistent rate events n
  refine ⟨hconsistent.bufferEmpty, ?_, delivered_eq rate events n, hconsistent.shift_serve,
    ?_, ?_, ?_, fun hclear hset => hconsistent.irqFlag_serve hset hclear, ?_⟩
  · intro hasked
    obtain ⟨address, hasks⟩ := Option.isSome_iff_exists.1 hasked
    have hrequest := (Consistent.asks_eq_some none hasks).1
    exact hconsistent.tick.bufferEmpty (hrequest ▸ rfl)
  · cases hplaying : playback rate events n with
    | none =>
        rw [Delta.active, hconsistent.idle hplaying]
        rfl
    | some p =>
        have hmore := (hconsistent.underway p hplaying).more
        exact decide_eq_true (UInt16.lt_iff_toNat_lt.2 hmore)
  · intro address hasks
    obtain ⟨p, hplaying, hunderway, rfl⟩ := hconsistent.asks hasks
    have hsum := hunderway.remaining
    have hmore := hunderway.more
    exact ⟨p, hplaying, by omega, hunderway.fetched_append⟩
  · intro p hplaying hlast hasked
    obtain ⟨address, hasks⟩ := Option.isSome_iff_exists.1 hasked
    rw [hplaying] at hconsistent
    rw [playback, hplaying]
    exact hconsistent.serve_last hasks hlast
  · intro p count hplaying hgoes hcycles
    have hremaining := (hconsistent.underway p hplaying).remaining
    have hmore := (hconsistent.underway p hplaying).more
    have hdry := hconsistent.timed.untilDry_lt hconsistent.inRange
    refine exists_last_of_due rate events hplaying hgoes (Nat.le_trans ?_ hcycles)
    unfold Delta.due
    split <;> omega

end History

end Famicom.Audio
