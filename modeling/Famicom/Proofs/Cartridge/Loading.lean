import Famicom.Cartridge.Board

/-!
# Loading boards

What `Board.load` accepts, said without running it, and what it leaves behind:

* **layout** — the saved memory has to have the sizes of the memory that is there
  (`SameLayout`), and the saved windows have to lie inside it (`Circuit.Accepts`);
* **acceptance** — an accepted board is replaced as a whole (`Board.load_accepted`);
* **refusal** — a refused one is not touched, although the memory is overwritten in
  two goes and before the registers (`Board.load_refused`).
-/

namespace Famicom.Cartridge

/-- The least cartridge with a board of that kind: one byte of program, and
patterns that can be written. -/
def minimal (kind : BoardKind) : Cartridge :=
  { program := ⟨#[0xEA], by decide⟩, patterns := .ram (.filled 0), work := .filled 0
    kind, wiring := .horizontal, battery := false }

/-! ## Memory -/

/-- Saved memory has the sizes of the memory of a cartridge. Patterns are saved
if and only if they can be written. -/
def SameLayout (c : Cartridge) (saved : SavedMemory) : Prop :=
  saved.work.size = workSize ∧
    match c.patterns, saved.patterns with
    | .rom _, none => True
    | .ram _, some image => image.size = patternRamSize
    | _, _ => False

/-- The cartridge with its writable memory taken from a saved one. -/
def loaded (c : Cartridge) (saved : SavedMemory) : Cartridge :=
  { c with
    work := .ofImage 0 saved.work
    patterns := match saved.patterns with
      | none => c.patterns
      | some image => .ram (.ofImage 0 image) }

theorem load_accepted {c : Cartridge} {saved : SavedMemory} (h : c.SameLayout saved) :
    load saved c = (.ok (), c.loaded saved) := by
  obtain ⟨hwork, hpatterns⟩ := h
  rcases c with ⟨program, patterns, work, kind, wiring, battery⟩
  rcases saved with ⟨image, saved⟩
  cases patterns <;> cases saved
  case rom.none => simp_all [load, loaded]
  case ram.some => simp_all [load, loaded]
  all_goals exact absurd hpatterns id

/-- Both memories are checked before the first of them is overwritten. -/
theorem load_refused {c : Cartridge} {saved : SavedMemory} (h : ¬ c.SameLayout saved) :
    load saved c = (.error .stateMismatch, c) := by
  rcases c with ⟨program, patterns, work, kind, wiring, battery⟩
  rcases saved with ⟨image, saved⟩
  by_cases hwork : image.size = workSize
  · -- then it is the patterns that do not fit
    cases patterns <;> cases saved <;> simp_all [SameLayout, load]
  · simp [load, hwork]

/-! ## Circuits -/

namespace Circuit

/-- A saved circuit is one of the same kind whose windows lie inside the memory
of the cartridge. The other registers may hold anything. -/
def Accepts (c : Cartridge) : (current saved : Circuit) → Prop
  | .linear, .linear => True
  | .serial _, .serial s => s.fits c = true
  | .counting _, .counting s => s.fits c = true
  | _, _ => False

/-- The circuit that continues from a saved one. -/
def loaded : (saved : Circuit) → Circuit
  | .linear => .linear
  | .serial s => .serial s.restore
  | .counting s => .counting s.restore

end Circuit

/-! ## Boards -/

namespace Board

/-- A saved board has the circuit and the layout of memory of the board that it
is loaded into. -/
def Accepts (b : Board) (saved : SavedBoard) : Prop :=
  b.circuit.Accepts b.cartridge saved.circuit ∧ b.cartridge.SameLayout saved.memory

/-- The board with its registers and its writable memory taken from a saved
one. -/
def loaded (b : Board) (saved : SavedBoard) : Board :=
  { cartridge := b.cartridge.loaded saved.memory, circuit := saved.circuit.loaded }

theorem load_accepted {b : Board} {saved : SavedBoard} (h : b.Accepts saved) :
    load saved b = (.ok (), b.loaded saved) := by
  obtain ⟨hcircuit, hmemory⟩ := h
  have memory := Cartridge.load_accepted hmemory
  rcases b with ⟨c, circuit⟩
  rcases saved with ⟨image, saved⟩
  cases circuit <;> cases saved
  case linear.linear => simp [load, Loading.within, memory, loaded, Circuit.loaded]
  case serial.serial current s =>
    have hfits : s.fits c = true := hcircuit
    simp [load, Loading.within, memory, hfits, loaded, Circuit.loaded]
  case counting.counting current s =>
    have hfits : s.fits c = true := hcircuit
    simp [load, Loading.within, memory, hfits, loaded, Circuit.loaded]
  all_goals exact absurd hcircuit id

/-- The circuit is checked before the memory is looked at, and the memory before
the registers are overwritten. -/
theorem load_refused {b : Board} {saved : SavedBoard} (h : ¬ b.Accepts saved) :
    load saved b = (.error .stateMismatch, b) := by
  rcases b with ⟨c, circuit⟩
  rcases saved with ⟨image, saved⟩
  -- an accepted circuit leaves the memory as the only reason
  have memory (hc : Circuit.Accepts c circuit saved) :
      Cartridge.load image c = (.error .stateMismatch, c) :=
    Cartridge.load_refused fun hm => h ⟨hc, hm⟩
  cases circuit <;> cases saved
  case linear.linear => simp [load, Loading.within, memory trivial]
  case serial.serial current s =>
    by_cases hfits : s.fits c = true
    · simp [load, Loading.within, hfits, memory hfits]
    · simp [load, hfits]
  case counting.counting current s =>
    by_cases hfits : s.fits c = true
    · simp [load, Loading.within, hfits, memory hfits]
    · simp [load, hfits]
  all_goals simp [load]

/-- A board is loaded as a whole or left as it is. -/
theorem load_cases (saved : SavedBoard) (b : Board) :
    (b.Accepts saved ∧ load saved b = (.ok (), b.loaded saved)) ∨
      (¬ b.Accepts saved ∧ load saved b = (.error .stateMismatch, b)) := by
  by_cases h : b.Accepts saved
  · exact .inl ⟨h, load_accepted h⟩
  · exact .inr ⟨h, load_refused h⟩

end Board

end Famicom.Cartridge
