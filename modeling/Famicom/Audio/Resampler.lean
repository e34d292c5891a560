import Famicom.Audio.Filter

/-!
# The resampler

The channels have an output in every cycle of the processor. The outputs of one
sample's time are averaged and filtered. The time of a sample is no whole number
of cycles, so what is left of a cycle goes over to the next sample.
-/

namespace Famicom.Audio

/-- Cycles of the processor in a second. -/
def cpuFrequency : UInt32 := 1789773

structure Resampler where
  sum : Float32
  count : UInt32
  /-- The time since the last sample, in cycles. -/
  clock : Float32
  filters : FilterChain

namespace Resampler

/-- Cycles of the processor in a sample. -/
@[inline] def interval (rate : UInt32) : Float32 := cpuFrequency.toFloat32 / rate.toFloat32

def ofRate (rate : UInt32) : Resampler :=
  { sum := 0.0, count := 0, clock := 0.0, filters := .ofRate rate }

@[inline] def collect (output : Float32) (r : Resampler) : Resampler :=
  { r with sum := r.sum + output, count := r.count + 1, clock := r.clock + 1.0 }

@[inline] def complete (rate : UInt32) (r : Resampler) : Bool := r.clock >= interval rate

def emit (rate : UInt32) (r : Resampler) : Float32 × Resampler :=
  let average := r.sum / r.count.toFloat32
  let (sample, filters) := r.filters.step average
  (sample, { sum := 0.0, count := 0, clock := r.clock - interval rate, filters })

/-- The value, or zero instead of an infinite one or none at all. -/
def finiteOrZero (x : Float32) : Float32 := if x.isFinite then x else 0.0

def clamp (low high x : Float32) : Float32 :=
  let x := if x < low then low else x
  if x > high then high else x

/-- The least whole number that is not below a value, up to the greatest count. -/
def ceiling (x : Float32) : UInt32 :=
  let n := x.toUInt32
  if n.toFloat32 < x then max n (n + 1) else n

/-- The resampler that continues from a saved one, within one sample's time. -/
def restore (rate : UInt32) (saved : Resampler) : Resampler :=
  { saved with
    sum := finiteOrZero saved.sum
    count := min saved.count (ceiling (interval rate))
    clock := clamp 0.0 (interval rate) (finiteOrZero saved.clock) }

end Resampler

end Famicom.Audio
