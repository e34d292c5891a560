import Famicom.Numeral
import Mathlib.Data.List.Induction

/-!
# Numbers of one digit and their numerals

A numeral may have zeros in front, and a plus sign in front of those, so that every number
has infinitely many. This file says which ones a number of one digit has:

* **digits** — below ten they are the same figures in every radix (`digit?_eq_some_iff`);
* **lists** — if a list of digits writes a number below the radix, all but the last are zeros
  (`ofDigits?_eq_some_iff`);
* **numerals** — so the numerals are zeros and a figure, with the sign or without it
  (`ofChars?_eq_some_iff`).
-/

namespace Famicom.Numeral

variable {radix bound n : Nat}

/-! ## Digits -/

theorem digit?_eq_some_iff {c : Char} (hn : n < 10) :
    digit? radix c = some n ↔ n < radix ∧ c = Nat.digitChar n := by
  have hfigure : c = Nat.digitChar n ↔ c.toNat = 48 + n := by
    rw [← Char.toNat_inj, Nat.toNat_digitChar_of_lt_ten hn]
  have hle (a b : Char) : a ≤ b ↔ a.toNat ≤ b.toNat := Iff.rfl
  have h0 : '0'.toNat = 48 := rfl
  have h9 : '9'.toNat = 57 := rfl
  simp only [hfigure, digit?, hle, Option.filter_eq_some_iff, decide_eq_true_eq]
  -- letters have values from ten on
  split
  · simp only [Option.some.injEq]
    omega
  · split
    · simp only [Option.some.injEq]
      omega
    · split
      · simp only [Option.some.injEq]
        omega
      · simp only [reduceCtorEq, false_and, false_iff]
        omega

theorem digit?_eq_zero_iff {c : Char} (hradix : 0 < radix) : digit? radix c = some 0 ↔ c = '0' :=
  (digit?_eq_some_iff (by decide)).trans (and_iff_right hradix)

/-! ## Lists of digits -/

/-- The last digit counts once, and what is in front of it as often as the radix says. -/
theorem ofDigits?_append_singleton (digits : List Char) (c : Char) :
    ofDigits? radix (digits ++ [c]) =
      (ofDigits? radix digits).bind fun m => (digit? radix c).map (m * radix + ·) := by
  unfold ofDigits?
  rw [List.foldlM_append]
  simp only [List.foldlM_cons, List.foldlM_nil, bind_pure, Option.bind_eq_bind]

theorem ofDigits?_append_eq_some_iff {digits : List Char} {c : Char} :
    ofDigits? radix (digits ++ [c]) = some n ↔
      ∃ m d, ofDigits? radix digits = some m ∧ digit? radix c = some d ∧ m * radix + d = n := by
  simp only [ofDigits?_append_singleton, Option.bind_eq_some_iff, Option.map_eq_some_iff]
  constructor
  · rintro ⟨m, hm, d, hd, h⟩
    exact ⟨m, d, hm, hd, h⟩
  · rintro ⟨m, d, hm, hd, h⟩
    exact ⟨m, hm, d, hd, h⟩

/-- Zeros are the only digits that write zero. -/
theorem ofDigits?_eq_zero_iff (hradix : 0 < radix) {digits : List Char} :
    ofDigits? radix digits = some 0 ↔ digits = List.replicate digits.length '0' := by
  rw [List.eq_replicate_iff, and_iff_right rfl]
  induction digits using List.reverseRecOn with
  | nil => simp [ofDigits?]
  | append_singleton digits c ih =>
    have hzeros : (∀ b ∈ digits ++ [c], b = '0') ↔ (∀ b ∈ digits, b = '0') ∧ c = '0' := by
      simp only [List.mem_append, List.mem_singleton, or_imp, forall_and, forall_eq]
    rw [ofDigits?_append_eq_some_iff, hzeros, ← ih, ← digit?_eq_zero_iff hradix]
    constructor
    · rintro ⟨m, d, hm, hd, h⟩
      obtain ⟨hfront, rfl⟩ := Nat.add_eq_zero_iff.1 h
      obtain rfl : m = 0 := (Nat.mul_eq_zero.1 hfront).resolve_right (Nat.ne_of_gt hradix)
      exact ⟨hm, hd⟩
    · rintro ⟨hm, hd⟩
      exact ⟨0, 0, hm, hd, Nat.zero_mul radix⟩

theorem ofDigits?_eq_some_iff (hn : n < radix) {digits : List Char} (hsome : digits ≠ []) :
    ofDigits? radix digits = some n ↔
      ∃ zeros c, digits = List.replicate zeros '0' ++ [c] ∧ digit? radix c = some n := by
  obtain ⟨front, last, rfl⟩ := (List.eq_nil_or_concat digits).resolve_left hsome
  rw [List.concat_eq_append, ofDigits?_append_eq_some_iff]
  have hradix : 0 < radix := Nat.zero_lt_of_lt hn
  constructor
  · rintro ⟨m, d, hm, hd, rfl⟩
    -- a digit in front of the last one counts at least as much as the radix
    have hzero : m = 0 := by
      have hlt : m * radix < 1 * radix := by omega
      exact Nat.lt_one_iff.1 (Nat.lt_of_mul_lt_mul_right hlt)
    subst hzero
    rw [Nat.zero_mul, Nat.zero_add]
    exact ⟨front.length, last, congrArg (· ++ [last]) ((ofDigits?_eq_zero_iff hradix).1 hm), hd⟩
  · rintro ⟨zeros, c, h, hc⟩
    obtain ⟨rfl, hlast⟩ := List.append_inj' h rfl
    obtain rfl : last = c := List.singleton_inj.1 hlast
    refine ⟨0, n, (ofDigits?_eq_zero_iff hradix).2 ?_, hc, ?_⟩
    · rw [List.length_replicate]
    · rw [Nat.zero_mul, Nat.zero_add]

/-! ## Numerals -/

/-- A digit behind any number of zeros, and a plus sign in front of them if there is one. -/
def padded (signed : Bool) (zeros : Nat) (digit : Char) : List Char :=
  (if signed then ['+'] else []) ++ (List.replicate zeros '0' ++ [digit])

theorem length_padded (signed : Bool) (zeros : Nat) (digit : Char) :
    (padded signed zeros digit).length = signed.toNat + zeros + 1 := by
  unfold padded
  rw [List.length_append, List.length_append, List.length_replicate, List.length_singleton]
  cases signed with
  | false => exact (Nat.add_assoc 0 zeros 1).symm
  | true => exact (Nat.add_assoc 1 zeros 1).symm

/-- A plus sign is no digit. -/
theorem ofDigits?_plus (digits : List Char) : ofDigits? radix ('+' :: digits) = none := rfl

/-- The sign is taken off, and then there have to be digits. -/
theorem ofChars?_eq_some_iff_digits {cs : List Char} :
    ofChars? radix bound cs = some n ↔
      n < bound ∧ ∃ digits, digits ≠ [] ∧ (cs = digits ∨ cs = '+' :: digits) ∧
        ofDigits? radix digits = some n := by
  have hdigits (digits : List Char) :
      (if digits.isEmpty then none else (ofDigits? radix digits).filter (· < bound)) = some n ↔
        n < bound ∧ digits ≠ [] ∧ ofDigits? radix digits = some n := by
    cases digits with
    | nil => simp
    | cons c rest => simp [Option.filter_eq_some_iff, and_comm]
  unfold ofChars?
  split
  case h_1 rest =>
    rw [hdigits]
    constructor
    · rintro ⟨hn, hsome, h⟩
      exact ⟨hn, rest, hsome, .inr rfl, h⟩
    · rintro ⟨hn, digits, hsome, rfl | hsigned, h⟩
      · rw [ofDigits?_plus] at h
        contradiction
      · obtain rfl : rest = digits := List.tail_eq_of_cons_eq hsigned
        exact ⟨hn, hsome, h⟩
  case h_2 hunsigned =>
    rw [hdigits]
    constructor
    · rintro ⟨hn, hsome, h⟩
      exact ⟨hn, cs, hsome, .inl rfl, h⟩
    · rintro ⟨hn, digits, hsome, rfl | hsigned, h⟩
      · exact ⟨hn, hsome, h⟩
      · exact absurd hsigned (hunsigned digits)

/-- The numerals of a number that is a figure. -/
theorem ofChars?_eq_some_iff (hradix : bound ≤ radix) (hten : bound ≤ 10) {cs : List Char} :
    ofChars? radix bound cs = some n ↔
      n < bound ∧ ∃ signed zeros, cs = padded signed zeros (Nat.digitChar n) := by
  rw [ofChars?_eq_some_iff_digits]
  refine and_congr_right fun hn => ?_
  have hlt : n < radix := Nat.lt_of_lt_of_le hn hradix
  have hfigure : n < 10 := Nat.lt_of_lt_of_le hn hten
  constructor
  · rintro ⟨digits, hsome, hcs, h⟩
    obtain ⟨zeros, c, rfl, hc⟩ := (ofDigits?_eq_some_iff hlt hsome).1 h
    obtain ⟨-, rfl⟩ := (digit?_eq_some_iff hfigure).1 hc
    obtain rfl | rfl := hcs
    · exact ⟨false, zeros, rfl⟩
    · exact ⟨true, zeros, rfl⟩
  · rintro ⟨signed, zeros, rfl⟩
    have hsome : List.replicate zeros '0' ++ [Nat.digitChar n] ≠ [] :=
      List.append_ne_nil_of_right_ne_nil _ nofun
    have hlast : digit? radix (Nat.digitChar n) = some n :=
      (digit?_eq_some_iff hfigure).2 ⟨hlt, rfl⟩
    refine ⟨_, hsome, ?_, (ofDigits?_eq_some_iff hlt hsome).2 ⟨zeros, _, rfl, hlast⟩⟩
    cases signed with
    | false => exact .inl rfl
    | true => exact .inr rfl

end Famicom.Numeral
