import Famicom.Proofs.Cartridge.Loading
import Famicom.Proofs.Word

/-!
# The windows of a board stay inside its memory

The invariant of a circuit: its windows begin inside the memory of the cartridge,
and its selections keep their widths. A bank of any number begins inside a memory
that is not empty (`bankStart_lt`), so whatever a program writes to the circuit,
the windows do not get out (`Board.InRange.write`).

* **loading** — a board accepts its own state, and the state of any board of the
  same make (`Board.InRange.accepts_save`);
* **restoring** — what is loaded has the invariant (`Board.inRange_loaded`), and
  is what was saved (`Board.InRange.loaded_save`).
-/

namespace Famicom.Cartridge

/-- Also a memory with less than a bank shows its beginning. -/
theorem bankStart_lt {size bank : Nat} (number : Int) (hsize : 0 < size) (hbank : 0 < bank) :
    bankStart size bank number < size := by
  by_cases h : bank ≤ size
  · have := bankStart_add_le number h
    omega
  · -- less than one bank counts as one, so every number is that of the first
    have hcount : size / bank = 0 := Nat.div_eq_of_lt (Nat.lt_of_not_le h)
    have hone : number % ((1 : Nat) : Int) = 0 := Int.emod_one number
    show (number % ((max (size / bank) 1 : Nat) : Int)).toNat * bank < size
    rw [hcount, Nat.max_eq_right (Nat.zero_le 1), hone]
    simpa using hsize

theorem Patterns.size_pos (p : Patterns) : 0 < p.size := by
  cases p with
  | rom chip => exact chip.nonempty
  | ram _ => exact (by decide : 0 < patternRamSize)

theorem Patterns.size_write (p : Patterns) (offset : Nat) (value : UInt8) :
    (p.write offset value).size = p.size := by
  cases p <;> rfl

/-- Windows that begin where banks begin are inside. -/
theorem all_bankStart_lt {n size bank : Nat} (numbers : Vector Int n) (hsize : 0 < size)
    (hbank : 0 < bank) : (numbers.map (bankStart size bank)).all (· < size) = true := by
  rw [Vector.all_eq_true]
  intro i hi
  rw [Vector.getElem_map, decide_eq_true_eq]
  exact bankStart_lt _ hsize hbank

/-! ## Circuits -/

namespace SerialCircuit

/-- The windows are inside the memory and the control register has five bits. -/
structure InRange (c : Cartridge) (s : SerialCircuit) : Prop where
  windows : s.fits c = true
  control : s.control < 32

theorem fits_locate (c : Cartridge) (s : SerialCircuit) : (s.locate c).fits c = true := by
  simp only [fits, locate, Bool.and_eq_true]
  exact ⟨all_bankStart_lt _ c.program.nonempty (by decide),
    all_bankStart_lt _ c.patterns.size_pos (by decide)⟩

theorem inRange_powerOn (c : Cartridge) : InRange c (powerOn c) :=
  ⟨fits_locate c _, show (0x0C : UInt8) < 32 by decide⟩

theorem setRegister_control {s : SerialCircuit} (h : s.control < 32) (address : UInt16)
    (bits : UInt8) : (setRegister address bits s).control < 32 := by
  unfold setRegister
  split
  · exact Byte.and_low_lt bits 5 rfl rfl
  · exact h
  · exact h
  · exact h

theorem InRange.write {c : Cartridge} {s : SerialCircuit} (h : InRange c s) (address : UInt16)
    (value : UInt8) : InRange c (s.write c address value) := by
  unfold SerialCircuit.write
  split
  · exact ⟨fits_locate c _, Byte.and_low_lt _ 5 rfl rfl⟩
  simp only []
  split
  · exact ⟨fits_locate c _, setRegister_control h.control _ _⟩
  · exact ⟨h.windows, h.control⟩

theorem inRange_restore {c : Cartridge} {saved : SerialCircuit} (h : saved.fits c = true) :
    InRange c saved.restore :=
  ⟨h, Byte.and_low_lt _ 5 rfl rfl⟩

theorem InRange.restored {c : Cartridge} {s : SerialCircuit} (h : InRange c s) : s.restore = s := by
  have hcontrol : s.control &&& 0x1F = s.control := Byte.and_low_eq 5 rfl rfl h.control
  simp only [restore, hcontrol]

end SerialCircuit

namespace CountingCircuit

/-- The windows are inside the memory, the selection has three bits and each
mode is a single one. -/
structure InRange (c : Cartridge) (s : CountingCircuit) : Prop where
  windows : s.fits c = true
  selected : s.selected < 8
  programMode : s.programMode < 2
  patternMode : s.patternMode < 2

theorem fits_locate (c : Cartridge) (s : CountingCircuit) : (s.locate c).fits c = true := by
  simp only [fits, locate, Bool.and_eq_true]
  exact ⟨all_bankStart_lt _ c.program.nonempty (by decide),
    all_bankStart_lt _ c.patterns.size_pos (by decide)⟩

theorem inRange_powerOn (c : Cartridge) : InRange c (powerOn c) := by
  refine ⟨?_, show (0 : UInt8) < 8 by decide, show (0 : UInt8) < 2 by decide,
    show (0 : UInt8) < 2 by decide⟩
  simp only [fits, powerOn, Bool.and_eq_true]
  refine ⟨all_bankStart_lt _ c.program.nonempty (by decide), ?_⟩
  rw [Vector.all_eq_true]
  intro i hi
  rw [Vector.getElem_replicate, decide_eq_true_eq]
  exact c.patterns.size_pos

theorem InRange.locate {c : Cartridge} {s : CountingCircuit} (hselected : s.selected < 8)
    (hprogram : s.programMode < 2) (hpattern : s.patternMode < 2) : InRange c (s.locate c) :=
  ⟨fits_locate c s, hselected, hprogram, hpattern⟩

theorem InRange.write {c : Cartridge} {s : CountingCircuit} (h : InRange c s) (address : UInt16)
    (value : UInt8) : InRange c (s.write c address value) := by
  obtain ⟨hwindows, hselected, hprogram, hpattern⟩ := h
  unfold CountingCircuit.write
  split
  · exact InRange.locate (Byte.and_low_lt _ 3 rfl rfl) (Byte.and_low_lt _ 1 rfl rfl)
      (Byte.and_low_lt _ 1 rfl rfl)
  · exact InRange.locate hselected hprogram hpattern
  · split
    · exact ⟨hwindows, hselected, hprogram, hpattern⟩
    · exact ⟨hwindows, hselected, hprogram, hpattern⟩
  all_goals exact ⟨hwindows, hselected, hprogram, hpattern⟩

theorem InRange.countLine {c : Cartridge} {s : CountingCircuit} (h : InRange c s) :
    InRange c s.countLine := by
  unfold CountingCircuit.countLine
  split
  · exact ⟨h.windows, h.selected, h.programMode, h.patternMode⟩
  · exact ⟨h.windows, h.selected, h.programMode, h.patternMode⟩

theorem inRange_restore {c : Cartridge} {saved : CountingCircuit} (h : saved.fits c = true) :
    InRange c saved.restore :=
  ⟨h, Byte.and_low_lt _ 3 rfl rfl, Byte.and_low_lt _ 1 rfl rfl, Byte.and_low_lt _ 1 rfl rfl⟩

theorem InRange.restored {c : Cartridge} {s : CountingCircuit} (h : InRange c s) :
    s.restore = s := by
  have hselected : s.selected &&& 0x07 = s.selected := Byte.and_low_eq 3 rfl rfl h.selected
  have hprogram : s.programMode &&& 0x01 = s.programMode := Byte.and_low_eq 1 rfl rfl h.programMode
  have hpattern : s.patternMode &&& 0x01 = s.patternMode := Byte.and_low_eq 1 rfl rfl h.patternMode
  simp only [restore, hselected, hprogram, hpattern]

end CountingCircuit

namespace Circuit

/-- What the circuit of a cartridge keeps to. -/
def InRange (c : Cartridge) : Circuit → Prop
  | linear => True
  | serial s => s.InRange c
  | counting s => s.InRange c

theorem inRange_powerOn (c : Cartridge) : InRange c (powerOn c) := by
  unfold powerOn
  split
  · exact trivial
  · exact SerialCircuit.inRange_powerOn c
  · exact CountingCircuit.inRange_powerOn c

theorem InRange.write {c : Cartridge} {circuit : Circuit} (h : InRange c circuit)
    (address : UInt16) (value : UInt8) : InRange c (circuit.write c address value) := by
  cases circuit with
  | linear => exact trivial
  | serial s => exact SerialCircuit.InRange.write h address value
  | counting s => exact CountingCircuit.InRange.write h address value

/-- The invariant depends on the sizes of the memory, not on what is in it. -/
theorem InRange.of_size {c c' : Cartridge} {circuit : Circuit} (h : InRange c circuit)
    (hprogram : c'.program.size = c.program.size) (hpatterns : c'.patterns.size = c.patterns.size) :
    InRange c' circuit := by
  cases circuit with
  | linear => exact trivial
  | serial s =>
      refine ⟨?_, h.control⟩
      rw [SerialCircuit.fits, hprogram, hpatterns]
      exact h.windows
  | counting s =>
      refine ⟨?_, h.selected, h.programMode, h.patternMode⟩
      rw [CountingCircuit.fits, hprogram, hpatterns]
      exact h.windows

theorem InRange.loaded_self {c : Cartridge} {circuit : Circuit} (h : InRange c circuit) :
    circuit.loaded = circuit := by
  cases circuit with
  | linear => rfl
  | serial s => exact congrArg Circuit.serial (SerialCircuit.InRange.restored h)
  | counting s => exact congrArg Circuit.counting (CountingCircuit.InRange.restored h)

theorem inRange_loaded {c : Cartridge} {current saved : Circuit} (h : Accepts c current saved) :
    InRange c saved.loaded := by
  cases current <;> cases saved
  case linear.linear => exact trivial
  case serial.serial current s => exact SerialCircuit.inRange_restore h
  case counting.counting current s => exact CountingCircuit.inRange_restore h
  all_goals exact absurd h id

/-- A write does not make another circuit of it. -/
theorem kind_write (c : Cartridge) (address : UInt16) (value : UInt8) (circuit : Circuit) :
    (circuit.write c address value).kind = circuit.kind := by
  cases circuit <;> rfl

end Circuit

/-! ## Boards -/

namespace Board

/-- The circuit keeps to the memory of its own board. -/
def InRange (b : Board) : Prop := b.circuit.InRange b.cartridge

/-- What is soldered: nothing that a board does changes it. -/
structure Make where
  program : Rom
  patterns : Option Rom
  kind : BoardKind
  wiring : Mirroring
  battery : Bool
  circuit : BoardKind

/-- The read-only parts of a board. -/
def make (b : Board) : Make :=
  { program := b.cartridge.program
    patterns := match b.cartridge.patterns with
      | .rom chip => some chip
      | .ram _ => none
    kind := b.cartridge.kind
    wiring := b.cartridge.wiring
    battery := b.cartridge.battery
    circuit := b.circuit.kind }

theorem inRange_ofCartridge (c : Cartridge) : (ofCartridge c).InRange := Circuit.inRange_powerOn c

theorem InRange.write {b : Board} (h : b.InRange) (address : UInt16) (value : UInt8) :
    (b.write address value).InRange := by
  unfold Board.write
  simp only []
  split
  · exact Circuit.InRange.write h address value
  split
  · exact Circuit.InRange.of_size h rfl rfl
  · exact h

theorem make_write (b : Board) (address : UInt16) (value : UInt8) :
    (b.write address value).make = b.make := by
  unfold Board.write
  simp only []
  split
  · simp only [make, Circuit.kind_write]
  split <;> rfl

theorem InRange.writePattern {b : Board} (h : b.InRange) (address : UInt16) (value : UInt8) :
    (b.writePattern address value).InRange :=
  Circuit.InRange.of_size h rfl (Patterns.size_write _ _ _)

theorem make_writePattern (b : Board) (address : UInt16) (value : UInt8) :
    (b.writePattern address value).make = b.make := by
  rcases b with ⟨⟨program, patterns, work, kind, wiring, battery⟩, circuit⟩
  cases patterns <;> rfl

theorem InRange.step {b : Board} (h : b.InRange) (line dot : UInt16) (rendering : Bool) :
    (b.step line dot rendering).InRange := by
  rcases b with ⟨c, circuit⟩
  unfold Board.step
  split
  · -- counting a line moves no window
    cases circuit with
    | linear => exact h
    | serial s => exact h
    | counting s => exact CountingCircuit.InRange.countLine h
  · exact h

theorem make_step (b : Board) (line dot : UInt16) (rendering : Bool) :
    (b.step line dot rendering).make = b.make := by
  rcases b with ⟨c, circuit⟩
  unfold Board.step
  split
  · cases circuit <;> rfl
  · rfl

theorem InRange.setWork {b : Board} (h : b.InRange) (data : Array UInt8) :
    (b.setWork data).InRange :=
  Circuit.InRange.of_size h rfl rfl

/-! ### Saved boards -/

theorem size_loaded {c : Cartridge} {saved : SavedMemory} (h : c.SameLayout saved) :
    (c.loaded saved).patterns.size = c.patterns.size := by
  obtain ⟨hwork, hpatterns⟩ := h
  rcases c with ⟨program, patterns, work, kind, wiring, battery⟩
  rcases saved with ⟨image, saved⟩
  cases patterns <;> cases saved
  case rom.none => simp only [Cartridge.loaded]
  case ram.some => simp only [Cartridge.loaded, Patterns.size]
  all_goals exact absurd hpatterns id

theorem inRange_loaded {b : Board} {saved : SavedBoard} (h : b.Accepts saved) :
    (b.loaded saved).InRange := by
  have hloaded := Circuit.inRange_loaded h.1
  exact Circuit.InRange.of_size hloaded rfl (size_loaded h.2)

/-- Boards of one make have patterns of one size. -/
theorem patterns_size_eq {a b : Board} (h : a.make = b.make) :
    a.cartridge.patterns.size = b.cartridge.patterns.size := by
  have hpatterns := congrArg Make.patterns h
  simp only [make] at hpatterns
  cases ha : a.cartridge.patterns <;> cases hb : b.cartridge.patterns <;>
    simp_all [Patterns.size]

/-- A board accepts the state of a board of the same make. -/
theorem InRange.accepts_save {a b : Board} (h : a.InRange) (hmake : a.make = b.make) :
    b.Accepts a.save := by
  have hprogram : b.cartridge.program.size = a.cartridge.program.size :=
    congrArg (fun make => make.program.size) hmake.symm
  have hrange : Circuit.InRange b.cartridge a.circuit :=
    Circuit.InRange.of_size h hprogram (patterns_size_eq hmake).symm
  have hkind : a.circuit.kind = b.circuit.kind := congrArg Make.circuit hmake
  have hpatterns := congrArg Make.patterns hmake
  refine ⟨?_, ?_⟩
  · -- the circuits are of one kind, and the windows fit memories of the same sizes
    show Circuit.Accepts b.cartridge b.circuit a.circuit
    cases ha : a.circuit <;> cases hb : b.circuit <;> rw [ha] at hrange hkind <;>
      rw [hb] at hkind
    case linear.linear => exact trivial
    case serial.serial s current => exact hrange.windows
    case counting.counting s current => exact hrange.windows
    all_goals exact BoardKind.noConfusion hkind
  · -- pattern memory is saved by both or by neither
    simp only [make] at hpatterns
    simp only [Cartridge.SameLayout, save, Cartridge.save]
    refine ⟨Memory.size_image _, ?_⟩
    cases ha : a.cartridge.patterns <;> cases hb : b.cartridge.patterns <;>
      simp_all [patternRamSize]

/-- A board that is loaded from a board of the same make is that board. -/
theorem InRange.loaded_save {a b : Board} (h : a.InRange) (hmake : a.make = b.make) :
    b.loaded a.save = a := by
  have hcircuit : a.circuit.loaded = a.circuit := Circuit.InRange.loaded_self h
  rcases a with ⟨⟨program, patterns, work, kind, wiring, battery⟩, circuit⟩
  rcases b with ⟨⟨program', patterns', work', kind', wiring', battery'⟩, circuit'⟩
  simp only [make, Make.mk.injEq] at hmake
  obtain ⟨rfl, hpatterns, rfl, rfl, rfl, -⟩ := hmake
  cases patterns <;> cases patterns' <;> simp_all [loaded, save, Cartridge.loaded, Cartridge.save]

end Board

end Famicom.Cartridge
