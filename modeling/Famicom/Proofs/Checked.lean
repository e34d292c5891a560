import Famicom.Memory
import Famicom.Word
import Mathlib.Algebra.Group.Int.Defs
import Mathlib.Algebra.Group.Nat.Defs

/-!
# Checked operations

The operations of the machine are total: an index selects some cell whatever it
is, and sums and differences wrap around. Here they are once more for a machine
that stops instead. An index outside its table and a sum or a difference outside
its word are faults. A counter that runs for ever comes to its end some time; this
is a fault of its own. A function whose name begins with `checked` does what the
plain one without that word does.

* **operations** — each of them gives the plain result if its condition holds
  (`plus_byte`, `minus_word`, `Memory.readAt_ok`, ...);
* **agreement** — a computation agrees with a plain one if it gives the same
  result, or stops at a counter that does come to its end (`Agrees`).
-/

namespace Famicom

/-- Why a checked machine stops. -/
inductive Fault where
  /-- An index is outside its table. -/
  | index
  /-- A sum or a difference does not fit. -/
  | overflow
  /-- A counter of cycles or frames is at its greatest value. -/
  | exhausted
deriving DecidableEq, Repr

/-- A result, unless there was a fault. -/
abbrev Checked (α : Type) : Type := Except Fault α

namespace Checked

variable {α β : Type}

@[simp] theorem ok_bind (a : α) (f : α → Checked β) : (Except.ok a >>= f : Checked β) = f a := rfl

@[simp] theorem pure_eq (a : α) : (pure a : Checked α) = .ok a := rfl

@[simp] theorem error_bind (fault : Fault) (f : α → Checked β) :
    ((.error fault : Checked α) >>= f) = .error fault := rfl

/-! ## Words -/

/-- Words of a width. -/
class FixedWidth (α : Type) extends Add α, Sub α where
  toNat : α → Nat
  /-- One more than the greatest value. -/
  bound : Nat

instance : FixedWidth UInt8 := { toNat := UInt8.toNat, bound := 2 ^ 8 }
instance : FixedWidth UInt16 := { toNat := UInt16.toNat, bound := 2 ^ 16 }
instance : FixedWidth UInt32 := { toNat := UInt32.toNat, bound := 2 ^ 32 }
instance : FixedWidth UInt64 := { toNat := UInt64.toNat, bound := 2 ^ 64 }

/-- The sum of two words, if it is a word. -/
def plus [FixedWidth α] (a b : α) : Checked α :=
  if FixedWidth.toNat a + FixedWidth.toNat b < FixedWidth.bound α then .ok (a + b)
  else .error .overflow

/-- The difference of two words, if it is a word. -/
def minus [FixedWidth α] (a b : α) : Checked α :=
  if FixedWidth.toNat b ≤ FixedWidth.toNat a then .ok (a - b) else .error .overflow

theorem plus_byte {a b : UInt8} (h : a.toNat + b.toNat < 2 ^ 8) : plus a b = .ok (a + b) :=
  if_pos h

theorem minus_byte {a b : UInt8} (h : b ≤ a) : minus a b = .ok (a - b) := if_pos h

theorem plus_word {a b : UInt16} (h : a.toNat + b.toNat < 2 ^ 16) : plus a b = .ok (a + b) :=
  if_pos h

theorem minus_word {a b : UInt16} (h : b ≤ a) : minus a b = .ok (a - b) := if_pos h

theorem plus_long {a b : UInt32} (h : a.toNat + b.toNat < 2 ^ 32) : plus a b = .ok (a + b) :=
  if_pos h

theorem minus_long {a b : UInt32} (h : b ≤ a) : minus a b = .ok (a - b) := if_pos h

theorem minus_wide {a b : UInt64} (h : b ≤ a) : minus a b = .ok (a - b) := if_pos h

/-- A number, if it is a signed one of so many bits. -/
def signed (bits : Nat) (n : Int) : Checked Int :=
  if -2 ^ (bits - 1) ≤ n ∧ n < 2 ^ (bits - 1) then .ok n else .error .overflow

theorem signed_ok {bits : Nat} {n : Int} (h : -2 ^ (bits - 1) ≤ n ∧ n < 2 ^ (bits - 1)) :
    signed bits n = .ok n :=
  if_pos h

/-- A counter after `n` more. -/
def count (counter n : UInt64) : Checked UInt64 :=
  if counter.toNat + n.toNat < 2 ^ 64 then .ok (counter + n) else .error .exhausted

theorem count_cases (counter n : UInt64) :
    (counter.toNat + n.toNat < 2 ^ 64 ∧ count counter n = .ok (counter + n)) ∨
      2 ^ 64 ≤ counter.toNat + n.toNat ∧ count counter n = .error .exhausted := by
  unfold count
  split
  · exact .inl ⟨by assumption, rfl⟩
  · exact .inr ⟨by omega, rfl⟩

/-! ## Tables -/

/-- An index, if it is below the size. -/
def index (i size : Nat) : Checked Nat := if i < size then .ok i else .error .index

theorem index_ok {i size : Nat} (h : i < size) : index i size = .ok i := if_pos h

/-- The entry of a table. -/
def lookup {n : Nat} (table : Vector α n) (i : Nat) : Checked α :=
  if h : i < n then .ok table[i] else .error .index

theorem lookup_ok {n : Nat} (table : Vector α n) {i : Nat} (h : i < n) :
    lookup table i = .ok table[i] :=
  dif_pos h

/-! ## Lists -/

/-- The elements with a property. -/
def filter (p : α → Checked Bool) : List α → Checked (List α)
  | [] => return []
  | a :: rest => do
    let keep ← p a
    let kept ← filter p rest
    return if keep then a :: kept else kept

theorem filter_ok {p : α → Checked Bool} {q : α → Bool} {l : List α}
    (h : ∀ a ∈ l, p a = .ok (q a)) : filter p l = .ok (l.filter q) := by
  induction l with
  | nil => rfl
  | cons a rest ih =>
      rw [filter, h a (.head _), ok_bind, ih fun a ha => h a (.tail _ ha), List.filter_cons]
      rfl

/-- The results for all elements. -/
def map (f : α → Checked β) : List α → Checked (List β)
  | [] => return []
  | a :: rest => do
    let result ← f a
    let results ← map f rest
    return result :: results

theorem map_ok {f : α → Checked β} {g : α → β} {l : List α} (h : ∀ a ∈ l, f a = .ok (g a)) :
    map f l = .ok (l.map g) := by
  induction l with
  | nil => rfl
  | cons a rest ih =>
      rw [map, h a (.head _), ok_bind, ih fun a ha => h a (.tail _ ha), List.map_cons]
      rfl

/-! ## Agreement -/

/-- The checked computation gives this result. Only if `ends` holds, which says that
a counter comes to its end, it may stop there. -/
def Agrees (x : Checked α) (a : α) (ends : Prop) : Prop :=
  x = .ok a ∨ x = .error .exhausted ∧ ends

variable {x : Checked α} {a : α} {ends ends' : Prop}

theorem Agrees.of_eq (h : x = .ok a) : Agrees x a ends := .inl h

theorem Agrees.mono (h : Agrees x a ends) (himp : ends → ends') : Agrees x a ends' :=
  h.imp_right fun ⟨hstop, hends⟩ => ⟨hstop, himp hends⟩

theorem Agrees.bind {f : α → Checked β} {b : β} (hx : Agrees x a ends)
    (hf : Agrees (f a) b ends) : Agrees (x >>= f) b ends := by
  obtain rfl | ⟨rfl, hends⟩ := hx
  · exact hf
  · exact .inr ⟨rfl, hends⟩

theorem count_agrees (counter n : UInt64) :
    Agrees (count counter n) (counter + n) (2 ^ 64 ≤ counter.toNat + n.toNat) := by
  obtain ⟨_, hok⟩ | ⟨hends, hstop⟩ := count_cases counter n
  · exact .inl hok
  · exact .inr ⟨hstop, hends⟩

end Checked

/-! ## Memory -/

namespace Memory

variable {α : Type} {n : Nat} [ChipSize n]

/-- The cell at an address inside the chip. -/
def readAt (m : Memory α n) (i : Nat) : Checked α :=
  if i < n then .ok (m.read i) else .error .index

/-- The chip after a write to an address inside it. -/
def writeAt (m : Memory α n) (i : Nat) (value : α) : Checked (Memory α n) :=
  if i < n then .ok (m.write i value) else .error .index

theorem readAt_ok (m : Memory α n) {i : Nat} (h : i < n) : m.readAt i = .ok (m.read i) := if_pos h

theorem writeAt_ok (m : Memory α n) {i : Nat} (h : i < n) (value : α) :
    m.writeAt i value = .ok (m.write i value) :=
  if_pos h

/-- The chip after consecutive values were written inside it. -/
def writeAllAt (m : Memory α n) (i : Nat) : List α → Checked (Memory α n)
  | [] => return m
  | value :: rest => do
    let m ← m.writeAt i value
    m.writeAllAt (i + 1) rest

theorem writeAllAt_ok (m : Memory α n) {i : Nat} {values : List α} (h : i + values.length ≤ n) :
    m.writeAllAt i values = .ok (m.writeAll i values) := by
  induction values generalizing m i with
  | nil => rfl
  | cons value rest ih =>
      rw [List.length_cons] at h
      rw [writeAllAt, m.writeAt_ok (by omega), Checked.ok_bind, ih _ (by omega), writeAll]

/-- Addresses count from the start again behind the end of the chip. -/
theorem read_mod (m : Memory α n) (i : Nat) : m.read (i % n) = m.read i := by
  simp only [read, Nat.mod_mod]

theorem write_mod (m : Memory α n) (i : Nat) (value : α) :
    m.write (i % n) value = m.write i value := by
  simp only [write, Nat.mod_mod]

end Memory

end Famicom
