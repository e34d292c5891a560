import Famicom.Proofs.Machine.Resume

/-!
# The machine does not know its rate

The rate of the output and the moments at which samples are taken decide what is
heard. This file proves that they decide nothing else:

* **power-on** — two machines with one cartridge differ in their output only
  (`ofCartridge_withOutput`);
* **taking** — taking samples is itself an exchange of the output, so that it can
  be left out of a sequence of operations (`performAll_drives`);
* **both** — machines at two rates, from which samples are taken at different
  moments, report the same cycles and go through the same states
  (`rate_unobservable`).
-/

namespace Famicom.Machine

open Audio Cartridge Cpu Video

/-! ## Machines that differ in what is heard -/

/-- Two machines that agree on everything but the output: the rate, the resampler
and the samples that nobody has taken. -/
def SameButOutput (a b : Machine) : Prop := ∃ rate r s, b = a.withOutput rate r s

namespace SameButOutput

theorem refl (m : Machine) : SameButOutput m m :=
  ⟨m.bus.sound.rate, m.bus.sound.resampler, m.bus.sound.samples, rfl⟩

theorem symm {a b : Machine} : SameButOutput a b → SameButOutput b a := by
  rintro ⟨rate, r, s, rfl⟩
  exact ⟨a.bus.sound.rate, a.bus.sound.resampler, a.bus.sound.samples, rfl⟩

theorem trans {a b c : Machine} : SameButOutput a b → SameButOutput b c → SameButOutput a c := by
  rintro ⟨rate, r, s, rfl⟩ ⟨rate', r', s', rfl⟩
  exact ⟨rate', r', s', rfl⟩

/-- The status register shows nothing of the output. -/
theorem status {a b : Machine} : SameButOutput a b → b.bus.sound.status = a.bus.sound.status := by
  rintro ⟨rate, r, s, rfl⟩
  rfl

end SameButOutput

/-- Switching on at another rate gives another output, and nothing else. -/
theorem ofCartridge_withOutput (c : Cartridge) (rate rate' : UInt32) :
    ofCartridge c rate' =
      (ofCartridge c rate).withOutput (max rate' 1) (Resampler.ofRate (max rate' 1)) #[] := by
  -- reading the reset vector is all that power-on does with the bus
  have hread := (Bus.output_morphism (max rate' 1) (Resampler.ofRate (max rate' 1)) #[]).powerOn
    Processor.powerOff (Bus.powerOn (.ofCartridge c) rate)
  exact congrArg (fun p => (⟨p.1, p.2⟩ : Machine)) hread

/-! ## Leaving out what takes samples -/

/-- The operations that drive the machine: all but taking its samples. -/
def Operation.drives : Operation → Bool
  | .takeSamples => false
  | _ => true

/-- The cycles that a sequence of operations reports, one after another. -/
def report (ops : List Operation) (m : Machine) : List UInt64 :=
  (performAll ops m).1.filterMap id

theorem report_cons (op : Operation) (ops : List Operation) (m : Machine) :
    report (op :: ops) m = (perform op m).1.toList ++ report ops (perform op m).2 := by
  show (((perform op m).1 :: (performAll ops (perform op m).2).1).filterMap id) = _
  cases (perform op m).1 with
  | none => rfl
  | some cycles => rfl

/-- A sequence of operations does the same to machines that differ in their
output. -/
theorem SameButOutput.performAll {a b : Machine} (ops : List Operation) :
    SameButOutput a b →
      report ops b = report ops a ∧
        SameButOutput (performAll ops a).2 (performAll ops b).2 := by
  rintro ⟨rate, r, s, rfl⟩
  obtain ⟨r', s', h⟩ := performAll_withOutput ops rate r s a
  unfold report
  rw [h]
  exact ⟨rfl, rate, r', s', rfl⟩

/-- Operations that take samples can be left out. -/
theorem performAll_drives (ops : List Operation) (m : Machine) :
    report (ops.filter Operation.drives) m = report ops m ∧
      SameButOutput (performAll ops m).2 (performAll (ops.filter Operation.drives) m).2 := by
  -- the two runs share the operations that drive, and a machine whose samples were
  -- taken goes on as if they had not been
  induction ops generalizing m with
  | nil => exact ⟨rfl, .refl m⟩
  | cons op ops ih =>
      cases hdrives : op.drives with
      | true =>
          obtain ⟨hcycles, hstate⟩ := ih (perform op m).2
          rw [List.filter_cons_of_pos hdrives, report_cons, report_cons, hcycles]
          exact ⟨rfl, hstate⟩
      | false =>
          cases op with
          | takeSamples =>
              obtain ⟨hcycles, hstate⟩ := ih m
              have htaken : SameButOutput m.takeSamples.2 m :=
                SameButOutput.symm ⟨m.bus.sound.rate, m.bus.sound.resampler, #[], rfl⟩
              obtain ⟨hsame, hend⟩ := htaken.performAll ops
              rw [List.filter_cons_of_neg (by simp [hdrives]), hcycles, hsame, report_cons]
              exact ⟨rfl, hend.trans hstate⟩
          | _ => cases hdrives

/-! ## Two runs -/

/-- **The rate cannot be observed.** Plug one cartridge into two machines that run
their outputs at any two rates, and carry out the same operations on both, but take
samples from each whenever you like. The two report the same cycles one after
another. In the end, and so at any moment before, they agree on everything but their
outputs; in particular the status register reads the same. -/
theorem rate_unobservable (c : Cartridge) (rate rate' : UInt32) (ops ops' : List Operation)
    (h : ops.filter Operation.drives = ops'.filter Operation.drives) :
    let a := ofCartridge c rate
    let b := ofCartridge c rate'
    report ops a = report ops' b ∧
      SameButOutput (performAll ops a).2 (performAll ops' b).2 ∧
      (performAll ops a).2.bus.sound.status = (performAll ops' b).2.bus.sound.status := by
  intro a b
  have hpower : SameButOutput a b :=
    ⟨max rate' 1, Resampler.ofRate (max rate' 1), #[], ofCartridge_withOutput c rate rate'⟩
  obtain ⟨hcyclesA, hstateA⟩ := performAll_drives ops a
  obtain ⟨hcyclesB, hstateB⟩ := performAll_drives ops' b
  -- what is left of the two sequences is one sequence
  obtain ⟨hcycles, hstate⟩ := hpower.performAll (ops'.filter Operation.drives)
  have hsame : SameButOutput (performAll ops a).2 (performAll ops' b).2 := by
    rw [h] at hstateA
    exact (hstateA.trans hstate).trans hstateB.symm
  refine ⟨?_, hsame, hsame.status.symm⟩
  calc report ops a
      = report (ops'.filter Operation.drives) a := by rw [← hcyclesA, h]
    _ = report (ops'.filter Operation.drives) b := hcycles.symm
    _ = report ops' b := hcyclesB

/-- Samples are taken from one machine between two steps, and from the other before
them. -/
theorem rate_unobservable_minimal :
    let ops : List Operation := [.run, .takeSamples, .hold 0 0x08, .runFrame]
    let ops' : List Operation := [.takeSamples, .run, .hold 0 0x08, .runFrame, .takeSamples]
    ops.filter Operation.drives = ops'.filter Operation.drives ∧
      report ops (ofCartridge (.minimal .counting) 44100) =
        report ops' (ofCartridge (.minimal .counting) 48000) ∧
      SameButOutput (performAll ops (ofCartridge (.minimal .counting) 44100)).2
        (performAll ops' (ofCartridge (.minimal .counting) 48000)).2 ∧
      (performAll ops (ofCartridge (.minimal .counting) 44100)).2.bus.sound.status =
        (performAll ops' (ofCartridge (.minimal .counting) 48000)).2.bus.sound.status :=
  ⟨rfl, rate_unobservable (.minimal .counting) 44100 48000 _ _ rfl⟩

end Famicom.Machine
