/-!
# The mixer

The channels are mixed by two resistor networks, one for the pulses and one for
the rest. Their outputs are not proportional to the levels, so they are looked
up. All arithmetic is single precision.
-/

namespace Famicom.Audio

/-- The network of the pulse channels, by the sum of their levels. -/
def pulseNetwork : Vector Float32 31 :=
  .ofFn fun i => if i = 0 then 0.0 else 95.52 / (8128.0 / i.val.toUInt32.toFloat32 + 100.0)

/-- The network of the other channels, by a weighted sum of their levels. -/
def otherNetwork : Vector Float32 203 :=
  .ofFn fun i => if i = 0 then 0.0 else 163.67 / (24329.0 / i.val.toUInt32.toFloat32 + 100.0)

@[inline] def mix (pulse1 pulse2 triangle noise delta : UInt8) : Float32 :=
  let pulses := pulse1.toNat + pulse2.toNat
  let others := 3 * triangle.toNat + 2 * noise.toNat + delta.toNat
  have : pulses % 31 < 31 := Nat.mod_lt _ (by decide)
  have : others % 203 < 203 := Nat.mod_lt _ (by decide)
  pulseNetwork[pulses % 31] + otherNetwork[others % 203]

end Famicom.Audio
