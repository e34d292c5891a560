import Famicom.Machine.Machine
import Famicom.Proofs.Cartridge.Loading

/-!
# Loading machines

A machine is overwritten part by part, beginning with the board, and only the
board can be refused:

* **acceptance** — which saved machines are loaded is a matter of the board alone
  (`Machine.load_cases`);
* **refusal** — after an error the machine is the one that was there before, and
  so is a board that is loaded on its own (`load_error_unchanged`).
-/

namespace Famicom

open Cartridge

namespace Machine

/-- The machine with everything taken from a saved one but the program, the
read-only patterns and the rate of the sound. -/
def loaded (m : Machine) (saved : SavedMachine) : Machine :=
  { cpu := saved.cpu.restore
    bus :=
      { memory := .ofImage 0 saved.bus.memory
        picture := .restore saved.picture
        sound := m.bus.sound.restore saved.sound
        board := m.bus.board.loaded saved.board
        joypad1 := saved.bus.joypad1
        joypad2 := saved.bus.joypad2
        transferPage := none } }

theorem load_accepted {m : Machine} {saved : SavedMachine}
    (h : m.bus.board.Accepts saved.board) : load saved m = (.ok (), m.loaded saved) := by
  have board := Board.load_accepted h
  simp [load, Loading.within, Loading.mapError_apply, board, Bus.restore, loaded]

/-- Nothing is overwritten before the board. -/
theorem load_refused {m : Machine} {saved : SavedMachine}
    (h : ¬ m.bus.board.Accepts saved.board) :
    load saved m = (.error (.cartridge .stateMismatch), m) := by
  have board := Board.load_refused h
  simp [load, Loading.within, Loading.mapError_apply, board]

/-- A machine is loaded as a whole or left as it is. -/
theorem load_cases (saved : SavedMachine) (m : Machine) :
    (m.bus.board.Accepts saved.board ∧ load saved m = (.ok (), m.loaded saved)) ∨
      (¬ m.bus.board.Accepts saved.board ∧
        load saved m = (.error (.cartridge .stateMismatch), m)) := by
  by_cases h : m.bus.board.Accepts saved.board
  · exact .inl ⟨h, load_accepted h⟩
  · exact .inr ⟨h, load_refused h⟩

theorem load_ok_iff {m m' : Machine} {saved : SavedMachine} :
    load saved m = (.ok (), m') ↔ m.bus.board.Accepts saved.board ∧ m' = m.loaded saved := by
  obtain ⟨h, hload⟩ | ⟨h, hload⟩ := load_cases saved m
  · rw [hload]
    refine ⟨fun heq => ⟨h, (congrArg Prod.snd heq).symm⟩, ?_⟩
    rintro ⟨-, rfl⟩
    rfl
  · rw [hload]
    exact ⟨fun heq => (nomatch congrArg Prod.fst heq), fun haccepted => absurd haccepted.1 h⟩

/-- **A refused state changes nothing.** Whatever the saved state is like, and
wherever in it the error is found, a loading that ends in an error leaves the
machine exactly as it was, although the loading itself overwrites the machine
piece by piece and takes nothing back. The same holds for a board on its own. -/
theorem load_error_unchanged :
    (∀ (saved : SavedMachine) (m m' : Machine) (e : MachineError),
      load saved m = (.error e, m') → m' = m) ∧
    (∀ (saved : SavedBoard) (b b' : Board) (e : CartridgeError),
      Board.load saved b = (.error e, b') → b' = b) := by
  constructor
  · intro saved m m' e h
    obtain ⟨_, hload⟩ | ⟨_, hload⟩ := load_cases saved m
    · -- an accepted state gives no error
      rw [hload] at h
      cases congrArg Prod.fst h
    · rw [hload] at h
      exact (congrArg Prod.snd h).symm
  · intro saved b b' e h
    obtain ⟨_, hload⟩ | ⟨_, hload⟩ := Board.load_cases saved b
    · rw [hload] at h
      cases congrArg Prod.fst h
    · rw [hload] at h
      exact (congrArg Prod.snd h).symm

/-- A state without its pattern memory is refused behind the check of the
registers, which it passes. -/
theorem load_error_unchanged_without_patterns :
    let m := ofCartridge (.minimal .counting) defaultRate
    let b := m.bus.board
    let saved : SavedBoard :=
      { memory := { work := b.cartridge.work.image, patterns := none }, circuit := b.circuit }
    b.circuit.Accepts b.cartridge saved.circuit ∧
      (∃ m' e, load { m.save with board := saved } m = (.error e, m') ∧ m' = m) ∧
      (∃ b' e, Board.load saved b = (.error e, b') ∧ b' = b) := by
  intro m b saved
  -- the patterns of the cartridge can be written, and the state has none
  have hmemory : ¬ b.cartridge.SameLayout saved.memory := fun h => h.2
  have hload : Board.load saved b = (.error .stateMismatch, b) :=
    Board.load_refused fun h => hmemory h.2
  have hmachine : load { m.save with board := saved } m = (.error (.cartridge .stateMismatch), m) :=
    load_refused fun h => hmemory h.2
  refine ⟨?_, ⟨m, _, hmachine, ?_⟩, ⟨b, _, hload, ?_⟩⟩
  · show CountingCircuit.fits (.minimal .counting) (.powerOn (.minimal .counting)) = true
    simp [CountingCircuit.fits, CountingCircuit.powerOn, bankStart, Rom.size, Cartridge.minimal,
      CountingCircuit.programBank, Patterns.size, patternRamSize]
  · exact load_error_unchanged.1 _ _ _ _ hmachine
  · exact load_error_unchanged.2 _ _ _ _ hload

end Machine

end Famicom
