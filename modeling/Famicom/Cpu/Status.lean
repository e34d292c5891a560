import Famicom.Word

/-!
# The processor status register

Eight bits, high to low `N V U B D I Z C`. Only six of them are latches: `B`
exists in the copies of the register that are pushed to the stack, and `U` is
set at power-on and again whenever the register is pulled.
-/

namespace Famicom.Cpu

structure Status where
  bits : UInt8
deriving DecidableEq, Repr

namespace Status

/-- Carry, or no borrow. -/
def carry : UInt8 := 0x01
def zero : UInt8 := 0x02
/-- Interrupt requests are ignored while this is set. -/
def interruptDisable : UInt8 := 0x04
/-- Decimal mode: stored and pushed, but without effect on arithmetic. -/
def decimal : UInt8 := 0x08
/-- Present in pushed copies only. -/
def breakCopy : UInt8 := 0x10
/-- The bit without a latch, which reads as one. -/
def unused : UInt8 := 0x20
def overflow : UInt8 := 0x40
def negative : UInt8 := 0x80

def powerOn : Status := ⟨interruptDisable ||| unused⟩

/-- Whether any bit of `mask` is set. -/
@[inline] def has (p : Status) (mask : UInt8) : Bool := hasBits p.bits mask

@[inline] def set (p : Status) (mask : UInt8) : Status := ⟨p.bits ||| mask⟩

@[inline] def clear (p : Status) (mask : UInt8) : Status := ⟨p.bits &&& ~~~mask⟩

@[inline] def assign (p : Status) (mask : UInt8) (condition : Bool) : Status :=
  if condition then p.set mask else p.clear mask

@[inline] def withResult (p : Status) (value : UInt8) : Status :=
  (p.assign negative (hasBits value 0x80)).assign zero (value == 0)

/-- The copy that goes to the stack, with both phantom bits set. -/
@[inline] def pushed (p : Status) : UInt8 := p.bits ||| breakCopy ||| unused

/-- The register after a byte was pulled into it: `B` is dropped and `U` set. -/
@[inline] def pulled (value : UInt8) : Status := ⟨value &&& ~~~breakCopy ||| unused⟩

/-- Pulling a pushed copy gives the register back, up to the two bits that are
no latches. -/
theorem pulled_pushed (p : Status) : pulled p.pushed = (p.set unused).clear breakCopy := by
  rcases p with ⟨bits⟩
  simp only [pulled, pushed, set, clear, unused, breakCopy, mk.injEq]
  apply UInt8.eq_of_toBitVec_eq
  ext i hi
  rcases i with _ | _ | _ | _ | _ | _ | _ | _ | i
  all_goals first | omega | simp

end Status

end Famicom.Cpu
