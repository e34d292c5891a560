/-!
# Filters

First-order filters in single precision. The output of the machine passes two
high-pass filters and a low-pass filter.
-/

namespace Famicom.Audio

def pi : Float32 := 3.14159265

/-- A first-order filter: `y = b0 * x + b1 * x' - a1 * y'`, where a prime means
the value before. -/
structure Filter where
  b0 : Float32
  b1 : Float32
  a1 : Float32
  previousIn : Float32
  previousOut : Float32

namespace Filter

def ratio (rate cutoff : Float32) : Float32 := rate / pi / cutoff

def lowPass (rate cutoff : Float32) : Filter :=
  let c := ratio rate cutoff
  let scale := 1.0 / (1.0 + c)
  { b0 := scale, b1 := scale, a1 := (1.0 - c) * scale, previousIn := 0.0, previousOut := 0.0 }

def highPass (rate cutoff : Float32) : Filter :=
  let c := ratio rate cutoff
  let scale := 1.0 / (1.0 + c)
  { b0 := c * scale, b1 := -c * scale, a1 := (1.0 - c) * scale
    previousIn := 0.0, previousOut := 0.0 }

def step (x : Float32) (f : Filter) : Float32 × Filter :=
  let y := f.b0 * x + f.b1 * f.previousIn - f.a1 * f.previousOut
  (y, { f with previousIn := x, previousOut := y })

end Filter

structure FilterChain where
  first : Filter
  second : Filter
  third : Filter

namespace FilterChain

/-- The filters of the machine for an output rate: high-pass at 90 and at 440
hertz, low-pass at 14 kilohertz. -/
def ofRate (rate : UInt32) : FilterChain :=
  let r := rate.toFloat32
  { first := .highPass r 90.0, second := .highPass r 440.0, third := .lowPass r 14000.0 }

def step (x : Float32) (c : FilterChain) : Float32 × FilterChain :=
  let (x, first) := c.first.step x
  let (x, second) := c.second.step x
  let (x, third) := c.third.step x
  (x, { first, second, third })

end FilterChain

end Famicom.Audio
