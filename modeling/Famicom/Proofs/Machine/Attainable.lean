import Famicom.Proofs.Audio.Resampling
import Famicom.Proofs.Cartridge.Events
import Famicom.Proofs.Machine.Checked
import Famicom.Proofs.Machine.Resume

/-!
# Loading is a normalisation

A state may come from anywhere: somebody may have written it by hand. Loading masks,
bounds and fills up what it takes, and what it has made of a state once it does not
change again.

* **widths** — between two operations, whatever has been loaded before, a machine has
  the widths and the make of its cartridge (`Attainable.intact`);
* **normal form** — so a state that is saved after loading is taken as it is, but for
  the resampler, and that one is restored to itself (`load_idempotent`).
-/

namespace Famicom.Machine

open Audio Cartridge Cpu Video

/-- The machines that can be had with a cartridge at an output rate when states, of
whatever origin, are loaded between the operations. -/
inductive Attainable (c : Cartridge) (rate : UInt32) : Machine → Prop
  | reachable {m : Machine} : Reachable c rate m → Attainable c rate m
  | perform {m : Machine} (op : Operation) :
      Attainable c rate m → Attainable c rate (perform op m).2
  | load {m : Machine} (saved : SavedMachine) :
      Attainable c rate m → Attainable c rate (load saved m).2

/-- Loading keeps what was built into the machine, and sees to the widths. -/
theorem Intact.loaded {make : Make} {m : Machine} {saved : SavedMachine} (h : Intact make m)
    (haccepts : m.bus.board.Accepts saved.board) : Intact make (m.loaded saved) := by
  obtain ⟨_, hcpu, hpicture, hsound, hboard, _, _⟩ := intact_loaded haccepts
  have hsoundMake := (SoundUnit.make_restore saved.sound m.bus.sound).trans h.bus.soundMake
  have hboardMake := (Board.make_loaded haccepts).trans h.bus.boardMake
  exact ⟨hcpu, hpicture, hsound, hboard, hboardMake, hsoundMake⟩

/-- Machines of one make accept each other's states. -/
theorem Intact.accepts_save {make : Make} {a b : Machine} (ha : Intact make a)
    (hb : Intact make b) : b.bus.board.Accepts a.save.board :=
  Board.InRange.accepts_save ha.bus.board (ha.bus.boardMake.trans hb.bus.boardMake.symm)

theorem Attainable.intact {c : Cartridge} {rate : UInt32} {m : Machine}
    (h : Attainable c rate m) : Intact (makeOf c rate) m := by
  induction h with
  | reachable h => exact h.intact
  | perform op _ ih => exact ih.perform op
  | @load m saved _ ih =>
      obtain ⟨haccepts, hload⟩ | ⟨_, hload⟩ := load_cases saved m
      · rw [hload]
        exact ih.loaded haccepts
      · -- a refused state changes nothing
        rw [hload]
        exact ih

/-- **Loading is an idempotent normalisation.** Let a machine accept a state, whatever
it is like, and save the machine again. Every machine with the same cartridge and the
same output rate accepts what was saved and saves it again as it is, every number of it
bit by bit; in fact the second machine is then the first one. -/
theorem load_idempotent {c : Cartridge} {rate : UInt32} {a a' b : Machine}
    {saved : SavedMachine} (ha : Attainable c rate a) (hb : Attainable c rate b)
    (h : load saved a = (.ok (), a')) :
    ∃ b', load a'.save b = (.ok (), b') ∧ b'.save = a'.save ∧ b' = a' := by
  obtain ⟨haccepts, rfl⟩ := load_ok_iff.1 h
  have ha' : Intact (makeOf c rate) (a.loaded saved) := ha.intact.loaded haccepts
  have hsame := ha'.accepts_save hb.intact
  -- everything is within its widths by now, and the transfer latch is empty
  have hwidths := loaded_save ha' hb.intact rfl
  have hresampler : (a.loaded saved).bus.sound.resampler.restore (a.loaded saved).bus.sound.rate =
      (a.loaded saved).bus.sound.resampler :=
    Resampler.restore_restore a.bus.sound.rate saved.sound.resampler
  have hloaded : b.loaded (a.loaded saved).save = a.loaded saved := by
    rw [hwidths, hresampler]
    rfl
  refine ⟨b.loaded (a.loaded saved).save, load_accepted hsame, ?_, hloaded⟩
  rw [hloaded]

/-- A state with indices beyond their tables, short memories, a sample below the program
and a resampler whose numbers are none. -/
theorem load_idempotent_hostile :
    let a := (perform .run (ofCartridge (.minimal .counting) 44100)).2
    let b := ofCartridge (.minimal .counting) 44100
    let saved : SavedMachine :=
      { a.save with
        picture :=
          { a.save.picture with
            scroll := { v := 0xFFFF, t := 0xFFFF, fineX := 0xFF, second := true }
            sprites := #[] }
        sound :=
          { a.save.sound with
            noise := { a.save.sound.noise with bits := 0x8000 }
            delta := { a.save.sound.delta with level := 0xFF, bitsLeft := 0, address := 0x4015 }
            sequencer := { a.save.sound.sequencer with step := 0xFF, counter := 0xFFFF }
            resampler :=
              { a.save.sound.resampler with
                sum := 1.0 / 0.0, count := 0xFFFFFFFF, clock := 0.0 / 0.0 } }
        bus := { memory := #[0xA9], joypad1 := ⟨0xFF, 0xFF, false⟩, joypad2 := .idle } }
    load saved a = (.ok (), a.loaded saved) ∧
      ∃ b', load (a.loaded saved).save b = (.ok (), b') ∧
        b'.save = (a.loaded saved).save ∧ b' = a.loaded saved := by
  intro a b saved
  have ha : Attainable (.minimal .counting) 44100 a := .reachable (.perform _ .cartridge)
  have hb : Attainable (.minimal .counting) 44100 b := .reachable .cartridge
  -- the board of the state is the one that was saved
  have haccepts : a.bus.board.Accepts a.save.board := ha.intact.accepts_save ha.intact
  have hload : load saved a = (.ok (), a.loaded saved) := load_accepted haccepts
  exact ⟨hload, load_idempotent ha hb hload⟩

end Famicom.Machine
