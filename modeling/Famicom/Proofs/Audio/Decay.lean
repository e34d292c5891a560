import Famicom.Audio.Envelope
import Famicom.Proofs.Audio.Countdowns
import Famicom.Proofs.Word

/-!
# The decay of an envelope

An envelope has two counters, one inside the other. The divider counts quarter frames down,
and each time it is loaded again the decaying volume makes a step: down to silence, where it
stays or from where it starts over.

* **steps** — the volume that a step leaves follows from the one it finds
  (`levelAfter_succ`);
* **invariant** — behind the clock that starts the decay the divider is a countdown from the
  volume register, and the volume has made a step for each of its loads (`Decayed`); every
  clock keeps that (`Decayed.clock`).

`decay_closed_form` gives the volume by the number of clocks.
-/

namespace Famicom.Audio.Envelope

/-! ## Steps -/

/-- The decaying volume so many steps behind the start. -/
def levelAfter (looping : Bool) (steps : Nat) : Int :=
  if looping then (15 - (steps : Int)) % 16 else 15 - min 15 (steps : Int)

theorem levelAfter_zero (looping : Bool) : levelAfter looping 0 = 15 := by
  cases looping <;> rfl

/-- A step goes one down, unless there is silence. -/
theorem levelAfter_succ (looping : Bool) (steps : Nat) :
    levelAfter looping (steps + 1) =
      if 0 < levelAfter looping steps then levelAfter looping steps - 1
      else if looping then 15 else 0 := by
  cases looping with
  | true =>
      simp only [levelAfter, if_true]
      split <;> omega
  | false =>
      simp only [levelAfter, Bool.false_eq_true, if_false]
      split <;> omega

/-! ## Clocks -/

/-- An envelope so many clocks behind the one that started its decay. -/
structure Decayed (e : Envelope) (clocks : Nat) (behind : Envelope) : Prop where
  started : behind.start = false
  divider : behind.divider.toNat = (reload (e.volume.toNat + 1))^[clocks] e.volume.toNat
  decay : (behind.decay.toNat : Int) =
    levelAfter e.looping (loads (e.volume.toNat + 1) e.volume.toNat clocks)
  volume : behind.volume = e.volume
  constant : behind.constant = e.constant
  looping : behind.looping = e.looping

variable {e behind : Envelope} {clocks : Nat}

/-- The clock that starts the decay loads both counters. -/
theorem decayed_start (h : e.start = true) : e.Decayed 0 e.clock := by
  unfold Envelope.clock
  rw [if_pos h]
  refine ⟨rfl, rfl, ?_, rfl, rfl, rfl⟩
  show (15 : Int) = levelAfter e.looping (loads _ _ 0)
  rw [loads, if_pos (Nat.zero_le _), levelAfter_zero]

/-- A step of the volume. -/
theorem toNat_step {decay : UInt8} {looping : Bool} {steps : Nat}
    (h : (decay.toNat : Int) = levelAfter looping steps) :
    ((if decay > 0 then decay - 1 else if looping then 15 else 0 : UInt8).toNat : Int) =
      levelAfter looping (steps + 1) := by
  rw [levelAfter_succ, ← h]
  by_cases hsilent : decay = 0
  · subst hsilent
    cases looping <;> rfl
  · have hle : 1 ≤ decay := Byte.one_le hsilent
    have hpos : 1 ≤ decay.toNat := UInt8.le_iff_toNat_le.1 hle
    have hpred : (decay - 1).toNat = decay.toNat - 1 := UInt8.toNat_sub_of_le _ _ hle
    rw [if_pos (UInt8.pos_iff_ne_zero.2 hsilent), hpred, if_pos (by omega)]
    omega

/-- A clock that finds the divider empty loads it and makes a step, and any other counts the
divider down. -/
theorem Decayed.clock (h : e.Decayed clocks behind) : e.Decayed (clocks + 1) behind.clock := by
  have hdivider := h.divider
  have hspan : 0 < e.volume.toNat + 1 := Nat.succ_pos _
  unfold Envelope.clock
  rw [h.started, if_neg Bool.false_ne_true]
  by_cases hempty : behind.divider = 0
  · have hwait : (reload (e.volume.toNat + 1))^[clocks] e.volume.toNat = 0 := by
      rw [← hdivider, hempty]
      rfl
    rw [if_pos (beq_iff_eq.2 hempty)]
    refine ⟨rfl, ?_, ?_, h.volume, h.constant, h.looping⟩
    · rw [Function.iterate_succ_apply', hwait]
      exact congrArg UInt8.toNat h.volume
    · rw [loads_succ hspan, if_pos hwait]
      show ((if behind.decay > 0 then behind.decay - 1
        else if behind.looping then 15 else 0 : UInt8).toNat : Int) = _
      rw [h.looping]
      exact toNat_step h.decay
  · have hwait : (reload (e.volume.toNat + 1))^[clocks] e.volume.toNat ≠ 0 := by
      rw [← hdivider]
      exact fun hzero => hempty (UInt8.toNat_inj.1 hzero)
    rw [if_neg (mt beq_iff_eq.1 hempty)]
    refine ⟨rfl, ?_, ?_, h.volume, h.constant, h.looping⟩
    · rw [Function.iterate_succ_apply', reload, if_neg hwait, ← hdivider]
      exact UInt8.toNat_sub_of_le _ _ (Byte.one_le hempty)
    · rw [loads_succ hspan, if_neg hwait]
      exact h.decay

theorem decayed_iterate (h : e.start = true) (clocks : Nat) :
    e.Decayed clocks (Envelope.clock^[clocks + 1] e) := by
  induction clocks with
  | zero => exact decayed_start h
  | succ clocks ih =>
      rw [Function.iterate_succ_apply']
      exact ih.clock

/-! ## The closed form -/

/-- **The decay.** Take any envelope whose decay is to start, and clock it. It makes a step
whenever one clock more than the number in its volume register has gone by since the start:
from 15 down to 0, where it stays, or over and over. This is what it puts out, unless its
volume is constant. -/
theorem decay_closed_form (hstart : e.start = true) {n : Nat} (hn : 1 ≤ n) :
    let v := e.volume.toNat
    let steps := (n - 1) / (v + 1)
    let level : Int := if e.looping then (15 - (steps : Int)) % 16 else 15 - min 15 (steps : Int)
    let behind := Envelope.clock^[n] e
    (behind.decay.toNat : Int) = level ∧
      (behind.output.toNat : Int) = if e.constant then (v : Int) else level := by
  intro v steps level behind
  have hdecayed : e.Decayed (n - 1) behind := by
    have hiterate := decayed_iterate hstart (n - 1)
    rwa [Nat.sub_add_cancel hn] at hiterate
  have hlevel : (behind.decay.toNat : Int) = level := by
    rw [hdecayed.decay, loads_full]
    rfl
  refine ⟨hlevel, ?_⟩
  rw [output, hdecayed.constant, hdecayed.volume]
  cases e.constant with
  | true => rfl
  | false => exact hlevel

/-- An envelope that makes a step in every third clock, and starts over: in 52 clocks it has
made 17 steps, one more than there are volumes. -/
theorem decay_closed_form_looping :
    let e : Envelope :=
      { start := true, divider := 0xFF, decay := 0x80, volume := 2, constant := false
        looping := true }
    e.start = true ∧ 1 ≤ 52 ∧ ((Envelope.clock^[52] e).decay.toNat : Int) = 14 ∧
      ((Envelope.clock^[52] e).output.toNat : Int) = 14 := by
  intro e
  have hstart : e.start = true := rfl
  obtain ⟨hdecay, houtput⟩ := decay_closed_form (n := 52) hstart (by decide)
  exact ⟨hstart, by decide, hdecay.trans (by decide), houtput.trans (by decide)⟩

end Famicom.Audio.Envelope
