import Famicom.Proofs.Machine.Audible
import Famicom.Proofs.Machine.Loading
import Famicom.Proofs.Machine.Operation

/-!
# Resuming from a saved machine

A machine is saved between two operations of its user and loaded into another
one with the same cartridge. What decides that nothing is lost:

* **widths** — a reachable machine keeps all widths, so that the masks of the
  loading change nothing (`Reachable.intact`);
* **transfers** — the latch of the sprite transfer is not saved, but it is empty
  between operations (`Reachable.transferPage`);
* **output** — what is not taken over exactly, the resampler, is not looked at by
  any operation (`perform_withOutput`).

So the loaded machine and the saved one cannot be told apart, by no sequence of
operations (`load_save_resumes`).
-/

namespace Famicom.Machine

open Audio Cartridge Cpu Video

/-! ## Reachable machines -/

/-- The machines that can be had with a cartridge at an output rate. -/
inductive Reachable (c : Cartridge) (rate : UInt32) : Machine → Prop
  | cartridge : Reachable c rate (ofCartridge c rate)
  | image {data : Array UInt8} {m : Machine} :
      Cartridge.ofImage data = .ok c → ofImage data rate = .ok m → Reachable c rate m
  | perform {m : Machine} (op : Operation) :
      Reachable c rate m → Reachable c rate (perform op m).2

theorem ofImage_eq {data : Array UInt8} {c : Cartridge} {rate : UInt32} {m : Machine}
    (hc : Cartridge.ofImage data = .ok c) (hm : ofImage data rate = .ok m) :
    m = ofCartridge c rate := by
  rw [ofImage, hc] at hm
  exact (Except.ok.inj hm).symm

theorem Reachable.intact {c : Cartridge} {rate : UInt32} {m : Machine} (h : Reachable c rate m) :
    Intact (makeOf c rate) m := by
  induction h with
  | cartridge => exact intact_ofCartridge c rate
  | image hc hm => exact ofImage_eq hc hm ▸ intact_ofCartridge c rate
  | perform op _ ih => exact ih.perform op

/-- Power-on reads the reset vector, which asks for no transfer. -/
theorem transferPage_ofCartridge (c : Cartridge) (rate : UInt32) :
    (ofCartridge c rate).bus.transferPage = none := by
  have hread (b : Bus) (address : UInt16) : (AddressSpace.readWord address b).2.transferPage =
      b.transferPage := by
    show ((b.read address).2.read (address + 1)).2.transferPage = _
    rw [Bus.transferPage_read, Bus.transferPage_read]
  exact hread (Bus.powerOn (.ofCartridge c) rate) Processor.resetVector

theorem Reachable.transferPage {c : Cartridge} {rate : UInt32} {m : Machine}
    (h : Reachable c rate m) : m.bus.transferPage = none := by
  induction h with
  | cartridge => exact transferPage_ofCartridge c rate
  | image hc hm => exact ofImage_eq hc hm ▸ transferPage_ofCartridge c rate
  | perform op _ ih => exact transferPage_perform ih op

/-! ## What is heard is not looked at -/

theorem perform_withOutput (op : Operation) (rate : UInt32) (r : Resampler)
    (s : Array Float32) (m : Machine) :
    ∃ r' s', perform op (m.withOutput rate r s) =
      ((perform op m).1, (perform op m).2.withOutput rate r' s') := by
  cases op with
  | run =>
      obtain ⟨r', s', h⟩ := run_withOutput rate r s m
      exact ⟨r', s', by simp only [perform, h]⟩
  | runFrame =>
      obtain ⟨r', s', h⟩ := runFrame_withOutput rate r s m
      exact ⟨r', s', by simp only [perform, h]⟩
  | reset =>
      have hsound := SoundUnit.write_withOutput rate r s m.bus.sound 0x4015 0
      refine ⟨r, s, ?_⟩
      simp only [perform, reset, withOutput, Bus.withOutput, hsound]
  | hold player buttons =>
      refine ⟨r, s, ?_⟩
      simp only [perform, hold]
      split <;> rfl
  | setWork data => exact ⟨r, s, rfl⟩
  | takeSamples => exact ⟨r, #[], rfl⟩

theorem performAll_withOutput (ops : List Operation) (rate : UInt32) (r : Resampler)
    (s : Array Float32) (m : Machine) :
    ∃ r' s', performAll ops (m.withOutput rate r s) =
      ((performAll ops m).1, (performAll ops m).2.withOutput rate r' s') := by
  -- each operation leaves some other resampler and samples behind
  induction ops generalizing r s m with
  | nil => exact ⟨r, s, rfl⟩
  | cons op ops ih =>
      obtain ⟨r', s', h⟩ := perform_withOutput op rate r s m
      obtain ⟨r'', s'', hrest⟩ := ih r' s' (perform op m).2
      refine ⟨r'', s'', ?_⟩
      simp only [performAll, h, hrest]

/-- No operation changes the rate: a machine is itself with its own output. -/
theorem rate_performAll (ops : List Operation) (m : Machine) :
    (performAll ops m).2.bus.sound.rate = m.bus.sound.rate := by
  obtain ⟨r', s', h⟩ := performAll_withOutput ops m.bus.sound.rate m.bus.sound.resampler
    m.bus.sound.samples m
  exact congrArg (·.2.bus.sound.rate) h

theorem performAll_withAudio (ops : List Operation) (r : Resampler) (s : Array Float32)
    (m : Machine) :
    (performAll ops (m.withAudio r s)).1 = (performAll ops m).1 ∧
      SameButAudio (performAll ops m).2 (performAll ops (m.withAudio r s)).2 := by
  obtain ⟨r', s', h⟩ := performAll_withOutput ops m.bus.sound.rate r s m
  have hown : (performAll ops m).2.withOutput m.bus.sound.rate r' s' =
      (performAll ops m).2.withAudio r' s' := by
    rw [← rate_performAll ops m]
    rfl
  have h : performAll ops (m.withAudio r s) = _ := h
  rw [h, hown]
  exact ⟨rfl, r', s', rfl⟩

/-! ## Resuming -/

/-- A machine that is loaded from another one with the same cartridge is that
one, but for the resampler and the samples. -/
theorem loaded_save {make : Make} {a b : Machine} (ha : Intact make a) (hb : Intact make b)
    (hidle : a.bus.transferPage = none) :
    b.loaded a.save = a.withAudio (a.bus.sound.resampler.restore a.bus.sound.rate) #[] := by
  have hcpu : a.cpu.restore = a.cpu := Processor.restore_settled ha.cpu
  have hpicture : PictureUnit.restore a.bus.picture.save = a.bus.picture :=
    ha.bus.picture.restore_save
  have hsound : SoundUnit.restore a.bus.sound.save b.bus.sound =
      { a.bus.sound with
        resampler := a.bus.sound.resampler.restore a.bus.sound.rate, samples := #[] } :=
    ha.bus.sound.restore_save (hb.bus.soundMake.trans ha.bus.soundMake.symm)
  have hboard : b.bus.board.loaded a.bus.board.save = a.bus.board :=
    Board.InRange.loaded_save ha.bus.board (ha.bus.boardMake.trans hb.bus.boardMake.symm)
  -- the latch is not saved, but it is empty on both sides
  rcases a with ⟨cpu, ⟨memory, picture, sound, board, joypad1, joypad2, transferPage⟩⟩
  subst hidle
  simp only [loaded, save, Bus.save, hcpu, hpicture, hsound, hboard, Memory.ofImage_image]
  rfl

/-- **A saved machine resumes.** Take two machines with one cartridge and one
output rate, whatever was done with them before. The second accepts the state of
the first. From then on, in every sequence of operations, the two report the same
cycles and agree, after each of them, on everything but the resampler and the
samples that nobody has taken. -/
theorem load_save_resumes {c : Cartridge} {rate : UInt32} {a b : Machine}
    (ha : Reachable c rate a) (hb : Reachable c rate b) :
    ∃ b', load a.save b = (.ok (), b') ∧
      ∀ ops : List Operation,
        (performAll ops b').1 = (performAll ops a).1 ∧
          SameButAudio (performAll ops a).2 (performAll ops b').2 := by
  -- both were built from one cartridge, whatever was done with them
  have hmake : a.bus.board.make = b.bus.board.make :=
    ha.intact.bus.boardMake.trans hb.intact.bus.boardMake.symm
  have haccepts : b.bus.board.Accepts a.save.board :=
    Board.InRange.accepts_save ha.intact.bus.board hmake
  refine ⟨b.loaded a.save, load_accepted haccepts, ?_⟩
  intro ops
  rw [loaded_save ha.intact hb.intact ha.transferPage]
  exact performAll_withAudio ops _ _ a

/-- A machine that has run a step and holds a button is resumed by a fresh one. -/
theorem load_save_resumes_minimal :
    let a := (perform (.hold 0 0x08) (perform .run (ofCartridge (.minimal .serial) 48000)).2).2
    let b := ofCartridge (.minimal .serial) 48000
    ∃ b', load a.save b = (.ok (), b') ∧
      ∀ ops : List Operation,
        (performAll ops b').1 = (performAll ops a).1 ∧
          SameButAudio (performAll ops a).2 (performAll ops b').2 :=
  load_save_resumes (.perform _ (.perform _ .cartridge)) .cartridge

end Famicom.Machine
