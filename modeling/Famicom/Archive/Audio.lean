import Famicom.Archive.Basic
import Famicom.Audio.SoundUnit

/-!
# Archives of the sound unit
-/

namespace Famicom.Archive

open Json Audio

instance : Archive Envelope where
  encode e :=
    .object [("start", encode e.start), ("divider", encode e.divider), ("decay", encode e.decay),
      ("volume", encode e.volume), ("constant_volume", encode e.constant),
      ("looping", encode e.looping)]
  decode? d := do
    let f ← fields? ["start", "divider", "decay", "volume", "constant_volume", "looping"] d
    return { start := ← field? f "start", divider := ← field? f "divider"
             decay := ← field? f "decay", volume := ← field? f "volume"
             constant := ← field? f "constant_volume", looping := ← field? f "looping" }

instance : Archive LengthCounter where
  encode l :=
    .object [("counter", encode l.counter), ("halt", encode l.halt),
      ("enabled", encode l.enabled)]
  decode? d := do
    let f ← fields? ["counter", "halt", "enabled"] d
    return { counter := ← field? f "counter", halt := ← field? f "halt"
             enabled := ← field? f "enabled" }

instance : Archive Sweep where
  encode s :=
    .object [("enabled", encode s.enabled), ("negate", encode s.negate),
      ("shift", encode s.shift), ("period", encode s.period), ("divider", encode s.divider),
      ("reload", encode s.reload), ("extra_decrement", encode s.extraDecrement)]
  decode? d := do
    let f ←
      fields? ["enabled", "negate", "shift", "period", "divider", "reload", "extra_decrement"] d
    return { enabled := ← field? f "enabled", negate := ← field? f "negate"
             shift := ← field? f "shift", period := ← field? f "period"
             divider := ← field? f "divider", reload := ← field? f "reload"
             extraDecrement := ← field? f "extra_decrement" }

instance : Archive Pulse where
  encode c :=
    .object [("timer_period", encode c.period), ("timer", encode c.timer),
      ("duty_pos", encode c.step), ("duty", encode c.duty), ("envelope", encode c.envelope),
      ("length", encode c.length), ("sweep", encode c.sweep)]
  decode? d := do
    let f ←
      fields? ["timer_period", "timer", "duty_pos", "duty", "envelope", "length", "sweep"] d
    return { period := ← field? f "timer_period", timer := ← field? f "timer"
             step := ← field? f "duty_pos", duty := ← field? f "duty"
             envelope := ← field? f "envelope", length := ← field? f "length"
             sweep := ← field? f "sweep" }

instance : Archive Triangle where
  encode c :=
    .object [("timer_period", encode c.period), ("timer", encode c.timer),
      ("sequence_pos", encode c.step), ("length", encode c.length),
      ("linear_counter", encode c.linear), ("linear_reload_value", encode c.linearReload),
      ("linear_reload", encode c.reload), ("control", encode c.control)]
  decode? d := do
    let f ← fields? ["timer_period", "timer", "sequence_pos", "length", "linear_counter",
      "linear_reload_value", "linear_reload", "control"] d
    return { period := ← field? f "timer_period", timer := ← field? f "timer"
             step := ← field? f "sequence_pos", length := ← field? f "length"
             linear := ← field? f "linear_counter"
             linearReload := ← field? f "linear_reload_value"
             reload := ← field? f "linear_reload", control := ← field? f "control" }

instance : Archive Noise where
  encode c :=
    .object [("timer_period", encode c.period), ("timer", encode c.timer),
      ("shift_register", encode c.bits), ("mode", encode c.short),
      ("envelope", encode c.envelope), ("length", encode c.length)]
  decode? d := do
    let f ← fields? ["timer_period", "timer", "shift_register", "mode", "envelope", "length"] d
    return { period := ← field? f "timer_period", timer := ← field? f "timer"
             bits := ← field? f "shift_register", short := ← field? f "mode"
             envelope := ← field? f "envelope", length := ← field? f "length" }

instance : Archive Delta where
  encode c :=
    .object [("output_level", encode c.level), ("irq_enabled", encode c.irqEnabled),
      ("irq_flag", encode c.irqFlag), ("looping", encode c.looping), ("timer", encode c.timer),
      ("timer_period", encode c.period), ("sample_address", encode c.sampleAddress),
      ("sample_length", encode c.sampleLength), ("current_address", encode c.address),
      ("bytes_remaining", encode c.remaining), ("sample_buffer", encode c.buffer),
      ("sample_buffer_empty", encode c.bufferEmpty), ("shift_register", encode c.shift),
      ("bits_remaining", encode c.bitsLeft), ("silence", encode c.silent),
      ("dma_pending", encode c.wanted)]
  decode? d := do
    let f ← fields? ["output_level", "irq_enabled", "irq_flag", "looping", "timer",
      "timer_period", "sample_address", "sample_length", "current_address", "bytes_remaining",
      "sample_buffer", "sample_buffer_empty", "shift_register", "bits_remaining", "silence",
      "dma_pending"] d
    return { level := ← field? f "output_level", irqEnabled := ← field? f "irq_enabled"
             irqFlag := ← field? f "irq_flag", looping := ← field? f "looping"
             timer := ← field? f "timer", period := ← field? f "timer_period"
             sampleAddress := ← field? f "sample_address"
             sampleLength := ← field? f "sample_length"
             address := ← field? f "current_address", remaining := ← field? f "bytes_remaining"
             buffer := ← field? f "sample_buffer", bufferEmpty := ← field? f "sample_buffer_empty"
             shift := ← field? f "shift_register", bitsLeft := ← field? f "bits_remaining"
             silent := ← field? f "silence", wanted := ← field? f "dma_pending" }

instance : Archive SequencerMode where
  encode
    | .four => .text "FourStep"
    | .five => .text "FiveStep"
  decode? := choice? [("FourStep", .four), ("FiveStep", .five)]

instance : Archive Filter where
  encode s :=
    .object [("b0", encode s.b0), ("b1", encode s.b1), ("a1", encode s.a1),
      ("prev_x", encode s.previousIn), ("prev_y", encode s.previousOut)]
  decode? d := do
    let f ← fields? ["b0", "b1", "a1", "prev_x", "prev_y"] d
    return { b0 := ← field? f "b0", b1 := ← field? f "b1", a1 := ← field? f "a1"
             previousIn := ← field? f "prev_x", previousOut := ← field? f "prev_y" }

instance : Archive FilterChain where
  encode c := .object [("stages", encode #v[c.first, c.second, c.third])]
  decode? d := do
    let f ← fields? ["stages"] d
    let stages : Vector Filter 3 ← field? f "stages"
    return { first := stages[0], second := stages[1], third := stages[2] }

instance : Archive SoundState where
  encode u :=
    .object [("pulse1", encode u.pulse1), ("pulse2", encode u.pulse2),
      ("triangle", encode u.triangle), ("noise", encode u.noise), ("dmc", encode u.delta),
      ("frame_mode", encode u.sequencer.mode), ("frame_counter", encode u.sequencer.counter),
      ("frame_step", encode u.sequencer.step), ("frame_irq_inhibit", encode u.sequencer.inhibit),
      ("frame_irq_flag", encode u.sequencer.irq), ("odd_cycle", encode u.oddCycle),
      ("accumulator", encode u.resampler.sum), ("sample_count", encode u.resampler.count),
      ("sample_clock", encode u.resampler.clock), ("filters", encode u.resampler.filters)]
  decode? d := do
    let f ← fields? ["pulse1", "pulse2", "triangle", "noise", "dmc", "frame_mode",
      "frame_counter", "frame_step", "frame_irq_inhibit", "frame_irq_flag", "odd_cycle",
      "accumulator", "sample_count", "sample_clock", "filters"] d
    let sequencer : Sequencer :=
      { mode := ← field? f "frame_mode", counter := ← field? f "frame_counter"
        step := ← field? f "frame_step", inhibit := ← field? f "frame_irq_inhibit"
        irq := ← field? f "frame_irq_flag" }
    let resampler : Resampler :=
      { sum := ← field? f "accumulator", count := ← field? f "sample_count"
        clock := ← field? f "sample_clock", filters := ← field? f "filters" }
    return { pulse1 := ← field? f "pulse1", pulse2 := ← field? f "pulse2"
             triangle := ← field? f "triangle", noise := ← field? f "noise"
             delta := ← field? f "dmc", sequencer, oddCycle := ← field? f "odd_cycle"
             resampler }

end Famicom.Archive
