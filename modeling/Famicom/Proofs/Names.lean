import Famicom.Audio.SoundUnit
import Famicom.Cartridge.Board
import Famicom.Cpu.Processor
import Famicom.Proofs.Cartridge.Filling
import Famicom.Proofs.Numeral
import Famicom.Video.PictureUnit

/-!
# Names and what they show

Each part lists the names of its values, and a value is asked for by any text whatsoever. This
file says which texts show one:

* **panels** — a panel shows what it lists (`Panel.isSome_read?_iff`), and the lists are the
  same in every state (`Processor.names`, `PictureUnit.names`, `SoundUnit.names`,
  `BoardKind.names`);
* **numbers** — the counting board reads the number of a bank register out of the text, so that
  it knows the register by every numeral (`CountingCircuit.registerNamed?_eq_some_iff`) and
  shows the same for all of them (`Board.read?_spelling`);
* **surplus** — the numerals with zeros or a plus sign in front are not listed
  (`CountingCircuit.Respelled.not_mem_names`), and they are all that a board shows and does not
  list (`Board.isSome_read?_iff`).

`shown_iff_named` says all this of the processor, the picture unit, the sound unit and the
boards.
-/

namespace Famicom

/-! ## Panels -/

namespace Panel

/-- A panel shows what it lists, and nothing else. -/
theorem isSome_read?_iff {p : Panel} {name : String} : (p.read? name).isSome ↔ name ∈ p.names := by
  rw [read?, List.lookup_isSome_iff, names, List.mem_map]
  simp only [beq_iff_eq, @eq_comm _ name]

end Panel

/-- The names of the registers, flags and counters of a processor. -/
def Cpu.Processor.names : List String :=
  ["pc", "a", "x", "y", "sp", "p", "flags.c", "flags.z", "flags.i", "flags.d", "flags.v",
    "flags.n", "cycles", "stall", "pending"]

theorem Cpu.Processor.names_panel (c : Processor) : c.panel.names = names := rfl

/-- The names of the registers and counters of a picture unit. -/
def Video.PictureUnit.names : List String :=
  ["scanline", "dot", "frame", "ctrl", "mask", "status", "oam_addr", "v", "t", "fine_x", "w",
    "sprite_count"]

theorem Video.PictureUnit.names_panel (p : PictureUnit) : p.panel.names = names := rfl

/-- The names of the registers and counters of a sound unit. -/
def Audio.SoundUnit.names : List String :=
  ["pulse1.period", "pulse1.length", "pulse1.envelope", "pulse1.duty",
    "pulse2.period", "pulse2.length", "pulse2.envelope", "pulse2.duty",
    "triangle.period", "triangle.length", "triangle.linear",
    "noise.period", "noise.length", "noise.envelope",
    "dmc.level", "dmc.address", "dmc.remaining",
    "frame_counter.mode", "frame_counter.step", "status"]

theorem Audio.SoundUnit.names_panel (u : SoundUnit) : u.panel.names = names := rfl

end Famicom

namespace Famicom.Cartridge

/-- The names of the registers of a board. -/
def BoardKind.names : BoardKind → List String
  | linear => ["id", "mirroring", "irq"]
  | serial =>
    ["id", "mirroring", "irq", "shift", "control", "chr_bank_0", "chr_bank_1", "prg_bank"]
  | counting =>
    ["id", "mirroring", "irq", "bank_select", "r0", "r1", "r2", "r3", "r4", "r5", "r6", "r7",
      "irq.counter", "irq.reload", "irq.enabled"]

theorem Board.names_panel (b : Board) : b.panel.names = b.circuit.kind.names := by
  obtain ⟨c, circuit⟩ := b
  cases circuit <;> rfl

/-! ## Numbers of bank registers -/

namespace CountingCircuit

/-- The number of a bank register behind its letter, with zeros in front and a plus sign in
front of those if there is one. -/
def spelling (signed : Bool) (zeros : Nat) (i : Fin 8) : String :=
  String.ofList ('r' :: Numeral.padded signed zeros (Nat.digitChar i))

/-- A spelling with something in front of the digit. -/
def Respelled (name : String) : Prop :=
  ∃ signed zeros i, (signed = true ∨ 0 < zeros) ∧ name = spelling signed zeros i

theorem toList_spelling (signed : Bool) (zeros : Nat) (i : Fin 8) :
    (spelling signed zeros i).toList = 'r' :: Numeral.padded signed zeros (Nat.digitChar i) :=
  String.toList_ofList

theorem registerNamed?_eq_some_iff {s : CountingCircuit} {name : String} {v : Reading} :
    s.registerNamed? name = some v ↔
      ∃ signed zeros i, name = spelling signed zeros i ∧ .byte (s.bank i) = v := by
  unfold registerNamed?
  split
  case h_1 digits hname =>
    have hspelling (signed : Bool) (zeros : Nat) (i : Fin 8) :
        name = spelling signed zeros i ↔
          digits = Numeral.padded signed zeros (Nat.digitChar i) := by
      rw [← String.toList_inj, hname, toList_spelling, List.cons_inj_right]
    simp only [hspelling, Option.map_eq_some_iff,
      Numeral.ofChars?_eq_some_iff (by decide : 8 ≤ 10) (by decide)]
    constructor
    · rintro ⟨n, ⟨hn, signed, zeros, rfl⟩, rfl⟩
      exact ⟨signed, zeros, ⟨n, hn⟩, rfl, rfl⟩
    · rintro ⟨signed, zeros, i, rfl, rfl⟩
      exact ⟨i, ⟨i.isLt, signed, zeros, rfl⟩, rfl⟩
  case h_2 hother =>
    simp only [reduceCtorEq, false_iff, not_exists, not_and]
    rintro signed zeros i rfl
    exact absurd (toList_spelling signed zeros i) (hother _)

theorem registerNamed?_spelling (s : CountingCircuit) (signed : Bool) (zeros : Nat) (i : Fin 8) :
    s.registerNamed? (spelling signed zeros i) = some (.byte (s.bank i)) :=
  registerNamed?_eq_some_iff.2 ⟨signed, zeros, i, rfl, rfl⟩

theorem isSome_registerNamed?_iff {s : CountingCircuit} {name : String} :
    (s.registerNamed? name).isSome ↔ ∃ signed zeros i, name = spelling signed zeros i := by
  rw [Option.isSome_iff_exists]
  constructor
  · rintro ⟨v, h⟩
    obtain ⟨signed, zeros, i, hname, -⟩ := registerNamed?_eq_some_iff.1 h
    exact ⟨signed, zeros, i, hname⟩
  · rintro ⟨signed, zeros, i, rfl⟩
    exact ⟨_, registerNamed?_spelling s signed zeros i⟩

/-! ## Listed spellings -/

/-- The only listed names with the letter of the bank registers have one character behind it. -/
theorem length_of_mem_names {kind : BoardKind} {name : String} (h : name ∈ kind.names)
    (hletter : name.toList.head? = some 'r') : name.toList.length = 2 := by
  revert name
  cases kind <;> decide

theorem plain_mem_names (i : Fin 8) : spelling false 0 i ∈ BoardKind.counting.names := by
  revert i
  decide

theorem Respelled.not_mem_names {name : String} (h : Respelled name) (kind : BoardKind) :
    name ∉ kind.names := by
  obtain ⟨signed, zeros, i, hmore, rfl⟩ := h
  intro hmem
  have hlength := length_of_mem_names hmem (by rw [toList_spelling]; rfl)
  rw [toList_spelling, List.length_cons, Numeral.length_padded] at hlength
  obtain rfl | hzeros := hmore
  · simp only [Bool.toNat_true] at hlength
    omega
  · omega

theorem plain_or_respelled (signed : Bool) (zeros : Nat) (i : Fin 8) :
    signed = false ∧ zeros = 0 ∨ Respelled (spelling signed zeros i) := by
  by_cases hmore : signed = true ∨ 0 < zeros
  · exact .inr ⟨signed, zeros, i, hmore, rfl⟩
  · rw [not_or, Bool.not_eq_true, Nat.not_lt, Nat.le_zero] at hmore
    exact .inl hmore

end CountingCircuit

/-! ## Boards -/

namespace Board

open CountingCircuit

theorem read?_counting (c : Cartridge) (s : CountingCircuit) (name : String) :
    (Board.mk c (.counting s)).read? name =
      ((Board.mk c (.counting s)).panel.read? name).or (s.registerNamed? name) :=
  Option.orElse_eq_or

/-- Whether a register is found on the list or by its number makes no difference. -/
theorem read?_spelling (c : Cartridge) (s : CountingCircuit) (signed : Bool) (zeros : Nat)
    (i : Fin 8) :
    (Board.mk c (.counting s)).read? (spelling signed zeros i) = some (.byte (s.bank i)) := by
  obtain ⟨rfl, rfl⟩ | hrespelled := plain_or_respelled signed zeros i
  · match i with
    | 0 | 1 | 2 | 3 | 4 | 5 | 6 | 7 => rfl
  · have hunlisted : (Board.mk c (.counting s)).panel.read? (spelling signed zeros i) = none := by
      rw [← Option.not_isSome_iff_eq_none, Panel.isSome_read?_iff, names_panel]
      exact hrespelled.not_mem_names _
    rw [read?_counting, hunlisted, Option.none_or, registerNamed?_spelling]

/-- What a board shows and does not list. -/
theorem isSome_read?_iff {b : Board} {name : String} :
    (b.read? name).isSome ↔
      name ∈ b.panel.names ∨ b.circuit.kind = .counting ∧ Respelled name := by
  rw [← Panel.isSome_read?_iff]
  obtain ⟨c, circuit⟩ := b
  cases circuit with
  | linear => simp [read?, Circuit.kind]
  | serial s => simp [read?, Circuit.kind]
  | counting s =>
    have hkind : (Board.mk c (.counting s)).circuit.kind = .counting := rfl
    rw [read?_counting, Option.isSome_or, Bool.or_eq_true, and_iff_right hkind,
      isSome_registerNamed?_iff]
    constructor
    · rintro (hlisted | ⟨signed, zeros, i, rfl⟩)
      · exact .inl hlisted
      · obtain ⟨rfl, rfl⟩ | hrespelled := plain_or_respelled signed zeros i
        · rw [Panel.isSome_read?_iff, names_panel]
          exact .inl (plain_mem_names i)
        · exact .inr hrespelled
    · rintro (hlisted | ⟨signed, zeros, i, -, rfl⟩)
      · exact .inl hlisted
      · exact .inr ⟨signed, zeros, i, rfl⟩

end Board

end Famicom.Cartridge

namespace Famicom

open Audio Cartridge Cpu CountingCircuit Video

/-! ## What is shown -/

/-- **What is shown is what is listed, and the bank registers by other numerals.** Processor,
picture unit, sound unit and boards have the same names in every state, and the first three
show a value for a text if and only if it is one of them. So do the linear and the serial
board. The counting board also shows a value for the number of a bank register with zeros or a
plus sign in front; no board lists such a text. What it shows for a numeral, listed or not, is
the register of that number. -/
theorem shown_iff_named (name : String) :
    (∀ c : Processor, c.panel.names = Processor.names ∧
      ((c.panel.read? name).isSome ↔ name ∈ c.panel.names)) ∧
    (∀ p : PictureUnit, p.panel.names = PictureUnit.names ∧
      ((p.panel.read? name).isSome ↔ name ∈ p.panel.names)) ∧
    (∀ u : SoundUnit, u.panel.names = SoundUnit.names ∧
      ((u.panel.read? name).isSome ↔ name ∈ u.panel.names)) ∧
    (∀ b : Board, b.panel.names = b.circuit.kind.names ∧
      ((b.read? name).isSome ↔
        name ∈ b.panel.names ∨ b.circuit.kind = .counting ∧ Respelled name) ∧
      ¬ (name ∈ b.panel.names ∧ Respelled name)) ∧
    ∀ (c : Cartridge) (s : CountingCircuit) (signed : Bool) (zeros : Nat) (i : Fin 8),
      (Board.mk c (.counting s)).read? (spelling signed zeros i) = some (.byte (s.bank i)) := by
  refine ⟨?_, ?_, ?_, ?_, ?_⟩
  · intro c
    exact ⟨c.names_panel, Panel.isSome_read?_iff⟩
  · intro p
    exact ⟨p.names_panel, Panel.isSome_read?_iff⟩
  · intro u
    exact ⟨u.names_panel, Panel.isSome_read?_iff⟩
  · intro b
    refine ⟨b.names_panel, Board.isSome_read?_iff, ?_⟩
    rintro ⟨hlisted, hrespelled⟩
    rw [b.names_panel] at hlisted
    exact hrespelled.not_mem_names _ hlisted
  · exact Board.read?_spelling

/-- A counting board at power-on shows its first bank register as number 00, which is not on
its list. -/
theorem respelling_shown :
    ∃ c, build #[0xEA] #[] 4 .horizontal false = .ok c ∧
      let b := Board.ofCartridge c
      b.read? "r00" = some (.byte 0) ∧ "r00" ∉ b.panel.names := by
  have hcounting : BoardKind.ofNumber? 4 = some .counting := rfl
  obtain ⟨c, hc⟩ := exists_build (by decide : 0 < (#[0xEA] : Array UInt8).size) hcounting #[]
    .horizontal false
  obtain ⟨-, hkind, -⟩ := build_eq_ok hc
  have hboard : Board.ofCartridge c = ⟨c, .counting (.powerOn c)⟩ := by
    rw [Board.ofCartridge, Circuit.powerOn, Option.some.inj (hkind.symm.trans hcounting)]
  have hspelling : "r00" = spelling false 1 0 := rfl
  refine ⟨c, hc, ?_, ?_⟩
  · rw [hboard, hspelling, Board.read?_spelling]
    exact congrArg (some ∘ Reading.byte) (Memory.read_filled 0 0)
  · rw [Board.names_panel, hboard]
    exact (by decide : "r00" ∉ BoardKind.counting.names)

end Famicom
