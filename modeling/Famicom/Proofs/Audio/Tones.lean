import Famicom.Proofs.Audio.Rates
import Famicom.Proofs.Audio.Sweeps

/-!
# Tones

The pulses and the triangle make their tones alike. A timer counts down, is loaded with the
period when it is empty, and then the wave takes a step, if the channel is one that sounds:

* **tones** — by a list of clocks, each of which finds the channel sounding or silent, the
  countdown goes on in any case, and the wave takes a step in those clocks that find it empty
  and the channel sounding (`Tone.timer_clockAll`, `Tone.step_clockAll`);
* **pulses** — a pulse steps whatever its length and its envelope do, and its timer is clocked
  in every other cycle (`Pulse.tone_afterAll`, `PulseVoice.count_timer`);
* **the triangle** — is clocked in every cycle, and steps while both its counters have
  something left (`SoundUnit.tone_afterAll`).

`tones_closed_form` puts this together for every state that the sound unit can get into.
-/

namespace Famicom.Audio

/-! ## Tones -/

/-- What makes the tone of a channel: its period, the countdown of its timer, and the step of
its wave. -/
@[ext]
structure Tone where
  period : Nat
  timer : Nat
  step : Nat

namespace Tone

variable (steps : Nat) (t : Tone)

/-- A clock of the timer of a channel that sounds or is silent. -/
def clock (sounding : Bool) : Tone :=
  { t with
    timer := reload (t.period + 1) t.timer
    step := if sounding && t.timer = 0 then (t.step + 1) % steps else t.step }

/-- A clock for each member of a list, which says whether it finds the channel sounding. -/
def clockAll (soundings : List Bool) : Tone := soundings.foldl (clock steps) t

/-- The steps that the wave takes: the clocks that find the countdown empty and the channel
sounding. -/
def stepsTaken (soundings : List Bool) : Nat :=
  soundings.zipIdx.countP fun (sounding, clock) =>
    sounding && (reload (t.period + 1))^[clock] t.timer = 0

theorem clockAll_append (soundings later : List Bool) :
    t.clockAll steps (soundings ++ later) =
      (t.clockAll steps soundings).clockAll steps later :=
  List.foldl_append

theorem period_clockAll (soundings : List Bool) :
    (t.clockAll steps soundings).period = t.period := by
  induction soundings generalizing t with
  | nil => rfl
  | cons sounding rest ih => exact ih (t.clock steps sounding)

/-- The countdown goes on whether the channel sounds or not. -/
theorem timer_clockAll (soundings : List Bool) :
    (t.clockAll steps soundings).timer =
      (reload (t.period + 1))^[soundings.length] t.timer := by
  induction soundings generalizing t with
  | nil => rfl
  | cons sounding rest ih => exact ih (t.clock steps sounding)

variable {steps t}

/-- The steps that have been taken come round. -/
theorem step_clockAll (h : t.step < steps) (soundings : List Bool) :
    (t.clockAll steps soundings).step = (t.step + t.stepsTaken soundings) % steps := by
  -- on the last clock, since the clocks are numbered from the first one on
  induction soundings using List.reverseRecOn with
  | nil => exact (Nat.mod_eq_of_lt h).symm
  | append_singleton soundings sounding ih =>
      have htaken : t.stepsTaken (soundings ++ [sounding]) = t.stepsTaken soundings +
          if sounding && (t.clockAll steps soundings).timer = 0 then 1 else 0 := by
        rw [timer_clockAll, stepsTaken, List.zipIdx_append, List.countP_append]
        simp only [List.zipIdx_singleton, List.countP_singleton, Nat.zero_add]
        rfl
      have hstep : (t.clockAll steps (soundings ++ [sounding])).step =
          if sounding && (t.clockAll steps soundings).timer = 0 then
            ((t.clockAll steps soundings).step + 1) % steps
          else (t.clockAll steps soundings).step := by
        rw [clockAll_append]
        rfl
      rw [hstep, htaken, ih]
      split
      · rw [Nat.mod_add_mod, Nat.add_assoc]
      · rw [Nat.add_zero]

/-- The tone behind some clocks. -/
theorem clockAll_eq (h : t.step < steps) (soundings : List Bool) :
    t.clockAll steps soundings =
      { period := t.period
        timer := if soundings.length ≤ t.timer then t.timer - soundings.length
          else t.period - (soundings.length - t.timer - 1) % (t.period + 1)
        step := (t.step + t.stepsTaken soundings) % steps } := by
  have hspan : 0 < t.period + 1 := Nat.succ_pos t.period
  have htimer := timer_clockAll steps t soundings
  rw [iterate_reload hspan, Nat.add_sub_cancel] at htimer
  exact Tone.ext (period_clockAll steps t soundings) htimer (step_clockAll h soundings)

/-- In clocks that find the channel now sounding and now silent. -/
theorem stepsTaken_eq (soundings : List Bool) :
    t.stepsTaken soundings = soundings.zipIdx.countP fun (sounding, clock) =>
      decide (sounding ∧ t.timer ≤ clock ∧ t.period + 1 ∣ clock - t.timer) := by
  unfold stepsTaken
  congr 1
  funext ⟨sounding, clock⟩
  simp only [iterate_reload_eq_zero (Nat.succ_pos t.period), Bool.decide_and, Bool.decide_eq_true]

/-- A channel that sounds all the time takes a step whenever the countdown is loaded. -/
theorem stepsTaken_sounding {soundings : List Bool} (h : ∀ sounding ∈ soundings, sounding = true) :
    t.stepsTaken soundings = loads (t.period + 1) t.timer soundings.length := by
  have hgate : ∀ clocked ∈ soundings.zipIdx,
      (clocked.1 && (reload (t.period + 1))^[clocked.2] t.timer = 0) = true ↔
        decide ((reload (t.period + 1))^[clocked.2] t.timer = 0) = true := by
    intro clocked hclocked
    rw [h clocked.1 (List.fst_mem_of_mem_zipIdx hclocked), Bool.true_and]
  calc t.stepsTaken soundings
      = soundings.zipIdx.countP
          ((fun clock => decide ((reload (t.period + 1))^[clock] t.timer = 0)) ∘ Prod.snd) :=
        List.countP_congr hgate
    _ = (List.range soundings.length).countP
          (fun clock => decide ((reload (t.period + 1))^[clock] t.timer = 0)) := by
        rw [← List.countP_map, List.zipIdx_map_snd, List.range_eq_range']
    _ = loads (t.period + 1) t.timer soundings.length :=
        countP_reload (Nat.succ_pos t.period) _ _

/-- A channel that is silent all the time takes none. -/
theorem stepsTaken_silent {soundings : List Bool} (h : ∀ sounding ∈ soundings, sounding = false) :
    t.stepsTaken soundings = 0 := by
  apply List.countP_eq_zero.2
  rintro ⟨sounding, clock⟩ hclocked
  rw [h sounding (List.fst_mem_of_mem_zipIdx hclocked)]
  exact Bool.false_ne_true

variable {sounding : Bool}

theorem clock_empty (h : t.timer = 0) :
    t.clock steps sounding =
      ⟨t.period, t.period, if sounding then (t.step + 1) % steps else t.step⟩ := by
  rw [clock, reload, if_pos h, decide_eq_true h, Bool.and_true]
  rfl

theorem clock_waiting (h : t.timer ≠ 0) :
    t.clock steps sounding = ⟨t.period, t.timer - 1, t.step⟩ := by
  rw [clock, reload, if_neg h, decide_eq_false h, Bool.and_false]
  rfl

end Tone

/-- Steps come round in a byte as they do in numbers, when their number divides 256. -/
theorem toNat_step_mod (step steps : UInt8) (h : steps.toNat ∣ 2 ^ 8) :
    ((step + 1) % steps).toNat = (step.toNat + 1) % steps.toNat := by
  rw [UInt8.toNat_mod, UInt8.toNat_add, Nat.mod_mod_of_dvd _ h]
  rfl

/-! ## Pulses -/

namespace Pulse

variable {c : Pulse}

/-- The tone of a pulse. -/
def tone (c : Pulse) : Tone := ⟨c.period.toNat, c.timer.toNat, c.step.toNat⟩

/-- A pulse counts as one that sounds in every clock. -/
theorem tone_clockTimer (c : Pulse) : c.clockTimer.tone = c.tone.clock 8 true := by
  unfold clockTimer
  by_cases hempty : c.timer = 0
  · have hstep := toNat_step_mod c.step 8 (by decide)
    rw [if_pos (beq_iff_eq.2 hempty), Tone.clock_empty (congrArg UInt16.toNat hempty)]
    exact congrArg (Tone.mk _ _) hstep
  · obtain ⟨hne, hpred⟩ := Word.toNat_pred hempty
    rw [if_neg (mt beq_iff_eq.1 hempty), Tone.clock_waiting hne]
    exact congrArg (Tone.mk _ · _) hpred

/-- The sweep is switched off, or moves nothing. -/
def Still (c : Pulse) : Prop := c.sweep.enabled = false ∨ c.sweep.shift = 0

theorem Still.not_moves (h : c.Still) : c.sweep.moves c.period = false := by
  apply Bool.eq_false_iff.2
  intro hmoves
  obtain ⟨-, henabled, hshift, -⟩ := Sweep.moves_iff.1 hmoves
  rcases h with hoff | hzero
  · exact Bool.false_ne_true (hoff.symm.trans henabled)
  · exact absurd hshift (hzero ▸ UInt8.lt_irrefl 0)

theorem Still.after (h : c.Still) {event : PulseEvent} (hclock : ¬ event.IsWrite) :
    (c.after event).Still := by
  have hcontrols := c.sameControls_after hclock
  exact h.imp hcontrols.enabled.trans hcontrols.shift.trans

/-- One event. Length and envelope have no part in it. -/
theorem tone_after (h : c.Still) {event : PulseEvent} (hclock : ¬ event.IsWrite) :
    (c.after event).tone = c.tone.clockAll 8 (List.replicate ([event].count .timer) true) := by
  cases event with
  | write register value => exact absurd trivial hclock
  | enable enabled => rfl
  | timer => exact c.tone_clockTimer
  | quarterFrame => rfl
  | halfFrame =>
      have hperiod := period_after hclock h.not_moves
      show Tone.mk (c.after .halfFrame).period.toNat _ _ = _
      rw [hperiod]
      rfl

theorem tone_afterAll (h : c.Still) {events : List PulseEvent}
    (hclocks : ∀ event ∈ events, ¬ event.IsWrite) :
    (c.afterAll events).tone = c.tone.clockAll 8 (List.replicate (events.count .timer) true) := by
  induction events generalizing c with
  | nil => rfl
  | cons event rest ih =>
      obtain ⟨hclock, hrest⟩ := List.forall_mem_cons.1 hclocks
      show ((c.after event).afterAll rest).tone = _
      rw [ih (h.after hclock) hrest, tone_after h hclock, ← Tone.clockAll_append,
        List.replicate_append_replicate, ← List.count_append]
      rfl

end Pulse

/-! ## Cycles -/

/-- No register is written in a history. -/
def Unwritten (events : List SoundEvent) : Prop := ∀ register, Spares register events

theorem unwritten_cyclesAlone (n : Nat) : Unwritten (cyclesAlone n) :=
  fun register => spares_cyclesAlone register n

theorem Unwritten.cons {event : SoundEvent} {rest : List SoundEvent}
    (h : Unwritten (event :: rest)) :
    (∀ register value, event ≠ .write register value) ∧ Unwritten rest :=
  ⟨fun register value heq => h register value (heq ▸ List.mem_cons_self),
    fun register value hmem => h register value (List.mem_cons_of_mem event hmem)⟩

namespace FrameEvent

theorem not_isWrite_heard (event : FrameEvent) : ∀ heard ∈ event.heard, ¬ heard.IsWrite := by
  cases event <;> simp [FrameEvent.heard, PulseEvent.IsWrite]

theorem count_heard (event : FrameEvent) : event.heard.count .timer = 0 := by
  cases event <;> rfl

end FrameEvent

namespace PulseVoice

variable (v : PulseVoice) {u : SoundUnit}

theorem not_isWrite_heard {event : SoundEvent}
    (h : ∀ register value, event ≠ .write register value) :
    ∀ heard ∈ v.heard u event, ¬ heard.IsWrite := by
  cases event with
  | read address => exact List.forall_mem_nil _
  | write register value => exact absurd rfl (h register value)
  | cycle =>
      refine List.forall_mem_append.2 ⟨?_, FrameEvent.not_isWrite_heard _⟩
      cases u.oddCycle <;> simp [PulseEvent.IsWrite]
  | deliver byte => exact List.forall_mem_nil _

/-- A channel hears of no write when there is none. -/
theorem not_isWrite_heardAll {events : List SoundEvent} (h : Unwritten events) :
    ∀ heard ∈ v.heardAll u events, ¬ heard.IsWrite := by
  induction events generalizing u with
  | nil => exact List.forall_mem_nil _
  | cons event rest ih =>
      obtain ⟨hevent, hrest⟩ := h.cons
      exact List.forall_mem_append.2 ⟨v.not_isWrite_heard hevent, ih hrest⟩

theorem count_heardWrite (address : UInt16) (value : UInt8) :
    (v.heardWrite address value).count .timer = 0 := by
  unfold heardWrite
  split
  · rfl
  split
  · rfl
  split
  · exact FrameEvent.count_heard _
  · rfl

/-- One event: an odd cycle clocks the timer, and an even one makes the next one odd. -/
theorem timers_after (u : SoundUnit) (event : SoundEvent) :
    2 * (v.heard u event).count .timer + (u.after event).oddCycle.toNat =
      event.cycles + u.oddCycle.toNat := by
  cases event with
  | read address =>
      show 2 * 0 + (u.read address).2.oddCycle.toNat = 0 + _
      rw [(u.noise_read address).2]
  | write address value =>
      show 2 * (v.heardWrite address value).count .timer + (u.write address value).oddCycle.toNat =
        0 + _
      rw [count_heardWrite, u.oddCycle_write]
  | cycle =>
      show 2 * (v.heard u .cycle).count .timer + u.tick.oddCycle.toNat = 1 + _
      rw [heard, List.count_append, FrameEvent.count_heard, u.oddCycle_tick]
      cases u.oddCycle <;> rfl
  | deliver byte => rfl

theorem timers_afterAll (u : SoundUnit) (events : List SoundEvent) :
    2 * (v.heardAll u events).count .timer + (u.afterAll events).oddCycle.toNat =
      cyclesIn events + u.oddCycle.toNat := by
  induction events generalizing u with
  | nil => rfl
  | cons event rest ih =>
      have hevent := v.timers_after u event
      have hrest := ih (u.after event)
      have hcycles : cyclesIn (event :: rest) = event.cycles + cyclesIn rest := rfl
      have hbehind : u.afterAll (event :: rest) = (u.after event).afterAll rest := rfl
      rw [heardAll, List.count_append, hcycles, hbehind]
      omega

/-- The timer of a pulse is clocked in every other cycle, whatever else happens. -/
theorem count_timer (u : SoundUnit) (events : List SoundEvent) :
    (v.heardAll u events).count .timer = (cyclesIn events + u.oddCycle.toNat) / 2 := by
  have htimers := v.timers_afterAll u events
  have hphase := (u.afterAll events).oddCycle.toNat_lt
  omega

theorem inRange_channel (h : u.InRange) : (v.channel u).InRange := by
  cases v with
  | first => exact h.pulse1
  | second => exact h.pulse2

/-- Without a write to a register, and with a sweep that moves nothing, a pulse is clocked once
in two cycles, and sounds as far as its tone is concerned. -/
theorem tone_afterAll (h : (v.channel u).Still) {events : List SoundEvent}
    (hunwritten : Unwritten events) :
    (v.channel (u.afterAll events)).tone = (v.channel u).tone.clockAll 8
      (List.replicate ((cyclesIn events + u.oddCycle.toNat) / 2) true) := by
  rw [channel_afterAll, Pulse.tone_afterAll h (v.not_isWrite_heardAll hunwritten), count_timer]

end PulseVoice

/-! ## The triangle -/

namespace Triangle

/-- The tone of the triangle. -/
def tone (c : Triangle) : Tone := ⟨c.period.toNat, c.timer.toNat, c.step.toNat⟩

/-- Both counters have something left. -/
def sounding (c : Triangle) : Bool := c.length.active && c.linear > 0

variable {c : Triangle}

theorem sounding_iff : c.sounding = true ↔ 0 < c.length.counter ∧ 0 < c.linear := by
  unfold sounding LengthCounter.active
  rw [Bool.and_eq_true, decide_eq_true_eq, decide_eq_true_eq]

theorem not_sounding (h : c.length.counter = 0 ∨ c.linear = 0) : c.sounding = false := by
  apply Bool.eq_false_iff.2
  intro hsounding
  obtain ⟨hlength, hlinear⟩ := sounding_iff.1 hsounding
  rcases h with hzero | hzero
  · exact absurd hlength (hzero ▸ UInt8.lt_irrefl 0)
  · exact absurd hlinear (hzero ▸ UInt8.lt_irrefl 0)

theorem tone_clockTimer (c : Triangle) : c.clockTimer.tone = c.tone.clock 32 c.sounding := by
  unfold clockTimer
  by_cases hempty : c.timer = 0
  · have hstep := toNat_step_mod c.step 32 (by decide)
    rw [if_pos (beq_iff_eq.2 hempty), Tone.clock_empty (congrArg UInt16.toNat hempty)]
    refine congrArg (Tone.mk _ _) ?_
    show (if c.sounding then (c.step + 1) % 32 else c.step).toNat = _
    rw [apply_ite UInt8.toNat, hstep]
    rfl
  · obtain ⟨hne, hpred⟩ := Word.toNat_pred hempty
    rw [if_neg (mt beq_iff_eq.1 hempty), Tone.clock_waiting hne]
    exact congrArg (Tone.mk _ · _) hpred

end Triangle

namespace SoundUnit

variable {u : SoundUnit}

/-- The units that the cycles of a history find. -/
def found (u : SoundUnit) : List SoundEvent → List SoundUnit
  | [] => []
  | event :: rest => List.replicate event.cycles u ++ found (u.after event) rest

theorem length_found (u : SoundUnit) (events : List SoundEvent) :
    (u.found events).length = cyclesIn events := by
  induction events generalizing u with
  | nil => rfl
  | cons event rest ih =>
      rw [found, List.length_append, List.length_replicate, ih]
      rfl

/-- The frames clock the counters of the triangle, and not its tone. -/
theorem tone_clockFrame (u : SoundUnit) (event : FrameEvent) :
    (u.clockFrame event).triangle.tone = u.triangle.tone := by
  cases event <;> rfl

theorem tone_tick (u : SoundUnit) :
    u.tick.triangle.tone = u.triangle.tone.clock 32 u.triangle.sounding := by
  have htimers : u.clockTimers.triangle = u.triangle.clockTimer := by
    unfold clockTimers
    split <;> rfl
  obtain ⟨resampler, samples, htick⟩ := u.exists_tick
  rw [htick, ← Triangle.tone_clockTimer, ← htimers]
  exact tone_clockFrame _ _

/-- One event. -/
theorem tone_after {event : SoundEvent} (h : ∀ register value, event ≠ .write register value) :
    (u.after event).triangle.tone =
      u.triangle.tone.clockAll 32 (List.replicate event.cycles u.triangle.sounding) := by
  cases event with
  | read address =>
      obtain ⟨sequencer, hread⟩ := u.exists_read address
      show (u.read address).2.triangle.tone = _
      rw [hread]
      rfl
  | write register value => exact absurd rfl (h register value)
  | cycle => exact u.tone_tick
  | deliver byte => rfl

/-- The triangle is clocked in every cycle, and sounds in those that find something left in
both its counters. -/
theorem tone_afterAll {events : List SoundEvent} (h : Unwritten events) :
    (u.afterAll events).triangle.tone =
      u.triangle.tone.clockAll 32 ((u.found events).map (·.triangle.sounding)) := by
  induction events generalizing u with
  | nil => rfl
  | cons event rest ih =>
      obtain ⟨hevent, hrest⟩ := h.cons
      show ((u.after event).afterAll rest).triangle.tone = _
      rw [ih hrest, tone_after hevent, ← Tone.clockAll_append, found, List.map_append,
        List.map_replicate]

/-! ## The closed form -/

/-- The states that a sound unit gets into: by power-on, by all that happens to it, when its
samples are taken, and when a saved state is loaded, whatever that is. -/
inductive Attainable : SoundUnit → Prop where
  | powerOn (rate : UInt32) : Attainable (.powerOn rate)
  | after {u : SoundUnit} (h : Attainable u) (event : SoundEvent) : Attainable (u.after event)
  | takeSamples {u : SoundUnit} (h : Attainable u) : Attainable u.takeSamples.2
  | restore {u : SoundUnit} (h : Attainable u) (saved : SoundState) : Attainable (u.restore saved)

theorem Attainable.inRange (h : u.Attainable) : u.InRange := by
  induction h with
  | powerOn rate => exact inRange_powerOn rate
  | after _ event ih => exact ih.after event
  | takeSamples _ ih => exact ih.takeSamples
  | restore _ saved _ => exact inRange_restore saved _

theorem Attainable.afterAll (h : u.Attainable) (events : List SoundEvent) :
    (u.afterAll events).Attainable := by
  induction events generalizing u with
  | nil => exact h
  | cons event rest ih => exact ih (h.after event)

/-- **Tones.** Take any state of a sound unit, and then any number `n` of cycles without a write
to a register.

* A pulse whose sweep is switched off or moves nothing keeps its period `p`. Its timer is
  clocked `k` times, in every other cycle; it takes a step when the countdown has run from `T`
  down to nothing, and then in every clock that is `p + 1` further.
* The countdown of the triangle runs likewise, with a clock in every cycle. It takes those
  steps, of 32, for which it has something left in both its counters: all of them, if neither
  counter runs out, and none, if one of them is empty all the time. -/
theorem tones_closed_form (hu : u.Attainable) {events : List SoundEvent}
    (hunwritten : Unwritten events) :
    let n := cyclesIn events
    let behind := u.afterAll events
    (∀ v : PulseVoice,
      let c := v.channel u
      let d := v.channel behind
      let p := c.period.toNat
      let T := c.timer.toNat
      let k := if u.oddCycle then (n + 1) / 2 else n / 2
      c.sweep.enabled = false ∨ c.sweep.shift = 0 →
        d.period = c.period ∧
        d.timer.toNat = (if k ≤ T then T - k else p - (k - T - 1) % (p + 1)) ∧
        d.step.toNat = (c.step.toNat + if k ≤ T then 0 else 1 + (k - T - 1) / (p + 1)) % 8) ∧
    (let c := u.triangle
      let d := behind.triangle
      let p := c.period.toNat
      let T := c.timer.toNat
      let soundings : List Bool := (u.found events).map (·.triangle.sounding)
      soundings.length = n ∧
      d.period = c.period ∧
      d.timer.toNat = (if n ≤ T then T - n else p - (n - T - 1) % (p + 1)) ∧
      d.step.toNat = (c.step.toNat + soundings.zipIdx.countP fun (sounding, cycle) =>
        decide (sounding ∧ T ≤ cycle ∧ p + 1 ∣ cycle - T)) % 32 ∧
      ((∀ w ∈ u.found events, 0 < w.triangle.length.counter ∧ 0 < w.triangle.linear) →
        d.step.toNat = (c.step.toNat + if n ≤ T then 0 else 1 + (n - T - 1) / (p + 1)) % 32) ∧
      ((∀ w ∈ u.found events, w.triangle.length.counter = 0 ∨ w.triangle.linear = 0) →
        d.step = c.step)) := by
  intro n behind
  have hrange := hu.inRange
  constructor
  · intro v c d p T k hstill
    have hlt : c.tone.step < 8 := UInt8.lt_iff_toNat_lt.1 (v.inRange_channel hrange).step
    have hclocks : (n + u.oddCycle.toNat) / 2 = k := by
      show _ = if u.oddCycle then _ else _
      cases u.oddCycle <;> rfl
    have htone : d.tone = c.tone.clockAll 8 (List.replicate k true) := by
      rw [← hclocks]
      exact v.tone_afterAll hstill hunwritten
    rw [Tone.clockAll_eq hlt, List.length_replicate,
      Tone.stepsTaken_sounding fun _ hmem => List.eq_of_mem_replicate hmem,
      List.length_replicate] at htone
    obtain ⟨hperiod, htimer, hstep⟩ := Tone.mk.inj htone
    exact ⟨UInt16.toNat_inj.1 hperiod, htimer, hstep⟩
  · intro c d p T soundings
    have hlt : c.tone.step < 32 := UInt8.lt_iff_toNat_lt.1 hrange.triangle.step
    have hlength : soundings.length = n := by
      rw [List.length_map, length_found]
    have htone : d.tone = c.tone.clockAll 32 soundings := tone_afterAll hunwritten
    rw [Tone.clockAll_eq hlt, hlength] at htone
    obtain ⟨hperiod, htimer, hstep⟩ := Tone.mk.inj htone
    refine ⟨hlength, UInt16.toNat_inj.1 hperiod, htimer, ?_, ?_, ?_⟩
    · rw [Tone.stepsTaken_eq] at hstep
      exact hstep
    · intro hsounds
      have hsounding : ∀ sounding ∈ soundings, sounding = true :=
        List.forall_mem_map.2 fun w hw => Triangle.sounding_iff.2 (hsounds w hw)
      rw [Tone.stepsTaken_sounding hsounding, hlength] at hstep
      exact hstep
    · intro hsilent
      have hsounding : ∀ sounding ∈ soundings, sounding = false :=
        List.forall_mem_map.2 fun w hw => Triangle.not_sounding (hsilent w hw)
      rw [Tone.stepsTaken_silent hsounding, Nat.add_zero, Nat.mod_eq_of_lt hlt] at hstep
      exact UInt8.toNat_inj.1 hstep

/-- Six cycles clock a pulse three times and a triangle that sounds six times: both take two
steps. The triangle of a unit that has just been switched on takes none. -/
theorem tones_closed_form_six :
    let u := (powerOn 48000).afterAll
      [.write 0x4015 0x04, .write 0x4002 0x01, .write 0x4008 0x7F, .write 0x400A 0x02,
        .write 0x400B 0x00, .write 0x4017 0x80]
    let cycles := cyclesAlone 6
    (u.Attainable ∧ Unwritten cycles) ∧
    ((u.pulse1.sweep.enabled = false ∨ u.pulse1.sweep.shift = 0) ∧
      (u.afterAll cycles).pulse1.step.toNat = 2) ∧
    ((∀ w ∈ u.found cycles, 0 < w.triangle.length.counter ∧ 0 < w.triangle.linear) ∧
      (u.afterAll cycles).triangle.step.toNat = 2) ∧
    ((∀ w ∈ (powerOn 48000).found cycles,
        w.triangle.length.counter = 0 ∨ w.triangle.linear = 0) ∧
      ((powerOn 48000).afterAll cycles).triangle.step = (powerOn 48000).triangle.step) := by
  intro u cycles
  have hattained : u.Attainable := (Attainable.powerOn 48000).afterAll _
  have hcycles : Unwritten cycles := unwritten_cyclesAlone 6
  obtain ⟨hpulses, -, -, -, -, hsounds, -⟩ := tones_closed_form hattained hcycles
  obtain ⟨-, -, -, -, -, -, hsilent⟩ := tones_closed_form (Attainable.powerOn 48000) hcycles
  have hstill : u.pulse1.sweep.enabled = false ∨ u.pulse1.sweep.shift = 0 := by decide
  have hsounding : ∀ w ∈ u.found cycles, 0 < w.triangle.length.counter ∧ 0 < w.triangle.linear := by
    decide
  have hempty : ∀ w ∈ (powerOn 48000).found cycles,
      w.triangle.length.counter = 0 ∨ w.triangle.linear = 0 := by
    decide
  obtain ⟨-, -, hpulse⟩ := hpulses .first hstill
  exact ⟨⟨hattained, hcycles⟩, ⟨hstill, hpulse.trans (by decide)⟩,
    ⟨hsounding, (hsounds hsounding).trans (by decide)⟩, ⟨hempty, hsilent hempty⟩⟩

end SoundUnit

end Famicom.Audio
