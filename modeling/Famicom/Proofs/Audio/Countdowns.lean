import Mathlib.Data.Nat.ModEq
import Mathlib.Logic.Function.Iterate

/-!
# Countdowns

Timers and dividers count down, and are loaded again in the clock that finds them empty:

* **value** — what is left after some clocks (`iterate_reload`), and in which of them the
  countdown is empty (`iterate_reload_eq_zero`);
* **loads** — how often it has been loaded by then (`loads_succ`).
-/

namespace Famicom.Audio

/-- One cycle of a countdown that is loaded again when it is empty. -/
def reload (span wait : Nat) : Nat := if wait = 0 then span - 1 else wait - 1

/-- Once what is left has been counted down, the countdown is empty at every multiple of its
span. -/
theorem iterate_reload_eq_zero {span : Nat} (hspan : 0 < span) (cycles wait : Nat) :
    (reload span)^[cycles] wait = 0 ↔ wait ≤ cycles ∧ span ∣ cycles - wait := by
  induction cycles generalizing wait with
  | zero =>
      show wait = 0 ↔ wait ≤ 0 ∧ span ∣ 0 - wait
      rw [Nat.zero_sub, Nat.le_zero]
      exact (and_iff_left (Nat.dvd_zero span)).symm
  | succ cycles ih =>
      rw [Function.iterate_succ_apply, ih, reload]
      by_cases hwait : wait = 0
      · rw [if_pos hwait, hwait, Nat.sub_zero, and_iff_right (Nat.zero_le _)]
        constructor
        · rintro ⟨hle, hdvd⟩
          have hsplit : cycles + 1 = span + (cycles - (span - 1)) := by omega
          rw [hsplit]
          exact (Nat.dvd_add_right (Nat.dvd_refl span)).2 hdvd
        · intro hdvd
          have hle : span ≤ cycles + 1 := Nat.le_of_dvd (Nat.succ_pos cycles) hdvd
          have hsplit : cycles + 1 = span + (cycles - (span - 1)) := by omega
          rw [hsplit] at hdvd
          exact ⟨by omega, (Nat.dvd_add_right (Nat.dvd_refl span)).1 hdvd⟩
      · rw [if_neg hwait]
        have hle : wait - 1 ≤ cycles ↔ wait ≤ cycles + 1 := by omega
        have hsub : cycles - (wait - 1) = cycles + 1 - wait := by omega
        rw [hle, hsub]

/-- What is left after some cycles: the countdown runs down once, and then from its full
span over and over. -/
theorem iterate_reload {span : Nat} (hspan : 0 < span) (cycles wait : Nat) :
    (reload span)^[cycles] wait =
      if cycles ≤ wait then wait - cycles else span - 1 - (cycles - wait - 1) % span := by
  induction cycles with
  | zero => exact (if_pos (Nat.zero_le wait)).symm
  | succ cycles ih =>
      rw [Function.iterate_succ_apply', ih]
      rcases Nat.lt_trichotomy cycles wait with hmore | rfl | hover
      · have hne : wait - cycles ≠ 0 := by omega
        rw [if_pos hmore.le, reload, if_neg hne, if_pos (Nat.succ_le_of_lt hmore)]
        exact (Nat.sub_add_eq wait cycles 1).symm
      · -- it is empty for the first time
        have hzero : cycles + 1 - cycles - 1 = 0 := by omega
        rw [if_pos (Nat.le_refl cycles), Nat.sub_self, reload, if_pos rfl, if_neg (by omega),
          hzero, Nat.zero_mod, Nat.sub_zero]
      · have hnext : cycles + 1 - wait - 1 = cycles - wait - 1 + 1 := by omega
        have hrest := Nat.mod_lt (cycles - wait - 1) hspan
        rw [if_neg (Nat.not_le.2 hover), if_neg (Nat.not_le.2 (Nat.lt_succ_of_lt hover)), hnext,
          ← Nat.mod_add_mod (cycles - wait - 1), reload]
        by_cases hlast : (cycles - wait - 1) % span + 1 = span
        · rw [if_pos (by omega), hlast, Nat.mod_self, Nat.sub_zero]
        · have hless : (cycles - wait - 1) % span + 1 < span := by omega
          rw [if_neg (by omega), Nat.mod_eq_of_lt hless]
          omega

/-- How often a countdown has been loaded after some cycles: for the first time when what is
left has been counted down, and then once in every span. -/
def loads (span wait cycles : Nat) : Nat :=
  if cycles ≤ wait then 0 else 1 + (cycles - wait - 1) / span

/-- A cycle loads the countdown that it finds empty. -/
theorem loads_succ {span : Nat} (hspan : 0 < span) (cycles wait : Nat) :
    loads span wait (cycles + 1) =
      loads span wait cycles + if (reload span)^[cycles] wait = 0 then 1 else 0 := by
  simp only [iterate_reload_eq_zero hspan, loads]
  rcases Nat.lt_trichotomy cycles wait with hmore | rfl | hover
  · rw [if_pos (Nat.succ_le_of_lt hmore), if_pos hmore.le,
      if_neg fun hempty => Nat.not_le.2 hmore hempty.1]
  · have hzero : cycles + 1 - cycles - 1 = 0 := by omega
    rw [if_neg (by omega), if_pos (Nat.le_refl cycles), Nat.sub_self,
      if_pos ⟨Nat.le_refl cycles, Nat.dvd_zero span⟩, hzero, Nat.zero_div]
  · have hnext : cycles + 1 - wait - 1 = cycles - wait - 1 + 1 := by omega
    have hsub : cycles - wait = cycles - wait - 1 + 1 := by omega
    have hempty : wait ≤ cycles ∧ span ∣ cycles - wait ↔ span ∣ cycles - wait - 1 + 1 := by
      rw [← hsub]
      exact and_iff_right hover.le
    rw [if_neg (Nat.not_le.2 hover), if_neg (Nat.not_le.2 (Nat.lt_succ_of_lt hover)), hnext,
      Nat.succ_div, if_congr hempty rfl rfl, Nat.add_assoc]

/-- From a full span on, the countdown is loaded once in every span. -/
theorem loads_full (rest cycles : Nat) : loads (rest + 1) rest cycles = cycles / (rest + 1) := by
  unfold loads
  split
  · exact (Nat.div_eq_of_lt (by omega)).symm
  · have hsplit : cycles = cycles - rest - 1 + (rest + 1) := by omega
    conv_rhs => rw [hsplit]
    rw [Nat.add_div_right _ (Nat.succ_pos rest), Nat.add_comm]

/-- The loads are the cycles that find the countdown empty. -/
theorem countP_reload {span : Nat} (hspan : 0 < span) (cycles wait : Nat) :
    (List.range cycles).countP (fun cycle => (reload span)^[cycle] wait = 0) =
      loads span wait cycles := by
  induction cycles with
  | zero => exact (if_pos (Nat.zero_le wait)).symm
  | succ cycles ih =>
      rw [List.range_succ, List.countP_append, ih, loads_succ hspan, List.countP_singleton]
      simp only [decide_eq_true_eq]

end Famicom.Audio
