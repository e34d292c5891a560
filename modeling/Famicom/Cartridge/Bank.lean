/-!
# Banks

A board shows the processor and the picture unit windows onto a larger memory.
What stands in a window is a bank, chosen by a number. Numbers wrap around the
banks that exist, in both directions, so -1 is the last bank.
-/

namespace Famicom.Cartridge

/-- Where the bank of that number begins, in a memory of `size` bytes that is
divided into banks of `bank` bytes. -/
def bankStart (size bank : Nat) (number : Int) : Nat :=
  let count := max (size / bank) 1
  (number % (count : Int)).toNat * bank

/-- A bank lies inside a memory that has room for one. -/
theorem bankStart_add_le {size bank : Nat} (number : Int) (h : bank ≤ size) :
    bankStart size bank number + bank ≤ size := by
  rcases Nat.eq_zero_or_pos bank with rfl | hb
  · simp [bankStart]
  have hc : 1 ≤ size / bank := (Nat.one_le_div_iff hb).2 h
  have hn : (number % ((size / bank : Nat) : Int)).toNat < size / bank := by
    have pos : (0 : Int) < (size / bank : Nat) := by omega
    have := Int.emod_lt_of_pos number pos
    have := Int.emod_nonneg number (Int.ne_of_gt pos)
    omega
  show (number % ((max (size / bank) 1 : Nat) : Int)).toNat * bank + bank ≤ size
  rw [Nat.max_eq_left hc]
  calc _ = ((number % ((size / bank : Nat) : Int)).toNat + 1) * bank := (Nat.succ_mul _ _).symm
    _ ≤ size / bank * bank := Nat.mul_le_mul_right bank hn
    _ ≤ size := Nat.div_mul_le_self size bank

end Famicom.Cartridge
