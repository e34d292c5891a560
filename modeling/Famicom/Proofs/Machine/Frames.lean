import Famicom.Proofs.Machine.Attainable
import Famicom.Proofs.Machine.Time

/-!
# A frame comes to its end

A machine that runs a frame takes steps until the count of frames is another one, and
the count is moved by the picture unit alone, dot by dot.

* **clock** — one dot at most is left out on the way to the next frame
  (`skippedDots_le_one`);
* **steps** — a step stays in its frame, or it ends close to the beginning of the next one
  (`run_frame_cases`);
* **loop** — the dots left in the frame get fewer by at least three with every step, so
  there is a last step, and it bounds the cycles (`exists_lastStep`).

`runFrame_ends` puts this together for the machines that can be had with a cartridge.
-/

namespace Famicom.Machine

open Audio Cartridge Cpu Video Beam

variable {m : Machine} {t : Nat}

/-! ## Dots left out -/

theorem atTime_tickPicture (h : m.bus.picture.beam.AtTime t) :
    m.tickPicture.bus.picture.beam.AtTime
      (t + 1 + (m.bus.picture.beam.skips m.tickPicture.bus.picture.beam).toNat) := by
  have hdot := h.advance m.bus.picture.rendering
  rwa [← beam_tickPicture] at hdot

/-- A dot is left out next, or none is. -/
theorem skips_cases (h : m.bus.picture.beam.AtTime t) :
    (t % dotsPerFrame = 89340 ∧ m.tickPicture.bus.picture.beam.AtTime (t + 2) ∧
        ∀ dots, skippedDots (dots + 1) m = 1 + skippedDots dots m.tickPicture) ∨
      (m.tickPicture.bus.picture.beam.AtTime (t + 1) ∧
        ∀ dots, skippedDots (dots + 1) m = skippedDots dots m.tickPicture) := by
  have hnext := atTime_tickPicture h
  cases hskips : m.bus.picture.beam.skips m.tickPicture.bus.picture.beam with
  | true =>
      rw [hskips] at hnext
      refine .inl ⟨h.of_skips hskips, hnext, fun dots => ?_⟩
      rw [skippedDots_succ, hskips]
      rfl
  | false =>
      rw [hskips] at hnext
      refine .inr ⟨hnext, fun dots => ?_⟩
      rw [skippedDots_succ, hskips]
      exact Nat.zero_add _

/-- No dot is left out before the end of the frame. -/
theorem skippedDots_eq_zero {dots : Nat} (h : m.bus.picture.beam.AtTime t)
    (hdots : t % dotsPerFrame + dots ≤ 89340) : skippedDots dots m = 0 := by
  induction dots generalizing m t with
  | zero => rfl
  | succ n ih =>
      simp only [dotsPerFrame] at hdots ih
      obtain ⟨hplace, -⟩ | ⟨hnext, hskipped⟩ := skips_cases h
      · simp only [dotsPerFrame] at hplace
        omega
      · rw [hskipped, ih hnext (by omega)]

/-- Less than a frame leaves out one dot at most, and only if it reaches the end of the
frame. -/
theorem skippedDots_le_one {dots : Nat} (h : m.bus.picture.beam.AtTime t) (hdots : dots ≤ 89340) :
    skippedDots dots m ≤ 1 ∧ (skippedDots dots m = 1 → t % dotsPerFrame ≤ 89340) := by
  induction dots generalizing m t with
  | zero => exact ⟨Nat.zero_le 1, nofun⟩
  | succ n ih =>
      obtain ⟨hplace, hnext, hskipped⟩ | ⟨hnext, hskipped⟩ := skips_cases h
      · -- behind the dot that is left out a frame begins
        have hbegins : (t + 2) % dotsPerFrame = 0 := by
          simp only [dotsPerFrame] at hplace ⊢
          omega
        have hrest : skippedDots n m.tickPicture = 0 :=
          skippedDots_eq_zero hnext (by rw [hbegins]; omega)
        rw [hskipped, hrest]
        exact ⟨Nat.le_refl 1, fun _ => hplace.le⟩
      · obtain ⟨hle, hearly⟩ := ih hnext (by omega)
        rw [hskipped]
        refine ⟨hle, fun hone => ?_⟩
        by_contra hlast
        -- from the last dot on, the next one begins a frame, and the rest is too short
        have hbegins : (t + 1) % dotsPerFrame = 0 := by
          simp only [dotsPerFrame] at hlast ⊢
          omega
        have hrest : skippedDots n m.tickPicture = 0 :=
          skippedDots_eq_zero hnext (by rw [hbegins]; omega)
        omega

/-! ## Steps -/

/-- A step stays in its frame and leaves out nothing, or it ends in the next frame, less
than its own dots behind the beginning. -/
theorem run_frame_cases (h : m.bus.picture.beam.AtTime t) :
    (m.run.2.bus.picture.beam.AtTime (t + 3 * m.run.1.toNat) ∧
        t % dotsPerFrame + 3 * m.run.1.toNat < dotsPerFrame) ∨
      ∃ t', m.run.2.bus.picture.beam.AtTime t' ∧ t' / dotsPerFrame = t / dotsPerFrame + 1 ∧
        t' % dotsPerFrame < 3 * m.run.1.toNat ∧
        dotsPerFrame ≤ t % dotsPerFrame + 3 * m.run.1.toNat + 1 := by
  obtain ⟨hlow, hhigh⟩ := run_cost m
  have hbefore : m.beforeDots.bus.picture.beam.AtTime t := m.beam_beforeDots.symm ▸ h
  have hrun := atTime_run h
  have hzero : t % dotsPerFrame + 3 * m.run.1.toNat ≤ 89340 → m.skippedInStep = 0 :=
    skippedDots_eq_zero hbefore
  obtain ⟨hle, hearly⟩ : m.skippedInStep ≤ 1 ∧
      (m.skippedInStep = 1 → t % dotsPerFrame ≤ 89340) :=
    skippedDots_le_one hbefore (by omega)
  simp only [dotsPerFrame] at hzero hearly ⊢
  by_cases hsame : t % 89342 + 3 * m.run.1.toNat + m.skippedInStep < 89342
  · have hnone : m.skippedInStep = 0 := by omega
    rw [hnone] at hrun hsame
    exact .inl ⟨hrun, hsame⟩
  · exact .inr ⟨_, hrun, by omega, by omega, by omega⟩

theorem afterSteps_succ' (steps : Nat) (m : Machine) :
    afterSteps (steps + 1) m = afterSteps steps m.run.2 := by
  induction steps with
  | zero => rfl
  | succ n ih => exact congrArg (fun after => after.run.2) ih

theorem reported_succ' (steps : Nat) (m : Machine) :
    reported (steps + 1) m = m.run.1.toNat + reported steps m.run.2 := by
  induction steps with
  | zero => exact Nat.add_comm _ _
  | succ n ih =>
      rw [reported_succ, ih, afterSteps_succ', reported_succ, Nat.add_assoc]

/-! ## The loop -/

/-- These steps are the ones that it takes to the end of the frame from a machine at time
`t`. The last one ends within 44 dots behind it. -/
structure LastStep (t : Nat) (m : Machine) (steps : Nat) : Prop where
  pos : 0 < steps
  /-- Until then the frame stays the same one. -/
  within : ∀ k < steps, (afterSteps k m).frames = m.frames
  next : ∃ t', (afterSteps steps m).bus.picture.beam.AtTime t' ∧
    t' / dotsPerFrame = t / dotsPerFrame + 1 ∧ t' % dotsPerFrame ≤ 44
  /-- Before its last step, which takes fifteen cycles at most, the machine was in the
  frame. -/
  reported_le : t % dotsPerFrame + 3 * reported steps m < dotsPerFrame + 45
  /-- The dots of the frame have been drawn, but for one that may have been left out. -/
  le_reported : dotsPerFrame ≤ t % dotsPerFrame + 3 * reported steps m + 1

theorem LastStep.one {t' : Nat} (hafter : m.run.2.bus.picture.beam.AtTime t')
    (hnext : t' / dotsPerFrame = t / dotsPerFrame + 1)
    (hplace : t' % dotsPerFrame < 3 * m.run.1.toNat)
    (hreached : dotsPerFrame ≤ t % dotsPerFrame + 3 * m.run.1.toNat + 1) : LastStep t m 1 := by
  have hcost := (run_cost m).2
  have hreported : reported 1 m = m.run.1.toNat := Nat.zero_add _
  refine ⟨Nat.one_pos, fun k hk => ?_, ⟨t', hafter, hnext, by omega⟩, ?_, ?_⟩
  · rw [Nat.lt_one_iff.1 hk]
    rfl
  · have hlt := Nat.mod_lt t (show dotsPerFrame > 0 by decide)
    rw [hreported]
    omega
  · rw [hreported]
    exact hreached

/-- A step within the frame comes before the others. -/
theorem LastStep.succ {steps : Nat} (h : m.bus.picture.beam.AtTime t)
    (hafter : m.run.2.bus.picture.beam.AtTime (t + 3 * m.run.1.toNat))
    (hsame : t % dotsPerFrame + 3 * m.run.1.toNat < dotsPerFrame)
    (hrest : LastStep (t + 3 * m.run.1.toNat) m.run.2 steps) : LastStep t m (steps + 1) := by
  have hquotient : (t + 3 * m.run.1.toNat) / dotsPerFrame = t / dotsPerFrame := by
    simp only [dotsPerFrame] at hsame ⊢
    omega
  have hremainder : (t + 3 * m.run.1.toNat) % dotsPerFrame =
      t % dotsPerFrame + 3 * m.run.1.toNat := by
    simp only [dotsPerFrame] at hsame ⊢
    omega
  have hframes : m.run.2.frames = m.frames := by
    show m.run.2.bus.picture.beam.frame = m.bus.picture.beam.frame
    rw [hafter.frame_place.1, h.frame_place.1, hquotient]
  obtain ⟨-, hwithin, ⟨t', htime, hnext, hplace⟩, hmost, hleast⟩ := hrest
  rw [hremainder] at hmost hleast
  refine ⟨Nat.succ_pos steps, fun k hk => ?_, ⟨t', ?_, ?_, hplace⟩, ?_, ?_⟩
  · cases k with
    | zero => rfl
    | succ k =>
        rw [afterSteps_succ', hwithin k (Nat.lt_of_succ_lt_succ hk), hframes]
  · rw [afterSteps_succ']
    exact htime
  · rw [hnext, hquotient]
  · rw [reported_succ']
    omega
  · rw [reported_succ']
    omega

/-- **Every frame has a last step.** Three dots at least are drawn in each. -/
theorem exists_lastStep {fuel : Nat} (h : m.bus.picture.beam.AtTime t)
    (hfuel : dotsPerFrame ≤ t % dotsPerFrame + 3 * fuel) :
    ∃ steps ≤ fuel, LastStep t m steps := by
  induction fuel generalizing m t with
  | zero =>
      have hlt := Nat.mod_lt t (show dotsPerFrame > 0 by decide)
      omega
  | succ n ih =>
      obtain ⟨hafter, hsame⟩ | ⟨t', hafter, hnext, hplace, hreached⟩ := run_frame_cases h
      · -- the dots left in the frame have become fewer by three at least
        have hleft : dotsPerFrame ≤ (t + 3 * m.run.1.toNat) % dotsPerFrame + 3 * n := by
          have hcost := (run_cost m).1
          simp only [dotsPerFrame] at hsame hfuel ⊢
          omega
        obtain ⟨steps, hsteps, hlast⟩ := ih hafter hleft
        exact ⟨steps + 1, Nat.succ_le_succ hsteps, .succ h hafter hsame hlast⟩
      · exact ⟨1, Nat.succ_le_succ (Nat.zero_le n), .one hafter hnext hplace hreached⟩

/-- A loop that is allowed the steps to another frame ends with the last of them, whatever
else it is allowed. -/
theorem runWhile_of_within {frame : UInt64} {steps : Nat} (hpos : 0 < steps)
    (hwithin : ∀ k < steps, (afterSteps k m).frames = frame)
    (hend : (afterSteps steps m).frames ≠ frame) (more : Nat) (cycles : UInt64) :
    runWhile frame (steps + more) cycles m =
      (cycles + .ofNat (reported steps m), afterSteps steps m) := by
  induction steps generalizing m cycles with
  | zero => exact absurd hpos (Nat.lt_irrefl 0)
  | succ n ih =>
      rw [afterSteps_succ'] at hend
      have hfirst : cycles + m.run.1.toUInt64 + .ofNat (reported n m.run.2) =
          cycles + .ofNat (reported (n + 1) m) := by
        rw [reported_succ', UInt64.add_assoc, UInt64.ofNat_add]
        congr 2
        rw [← UInt64.toNat_inj, UInt32.toNat_toUInt64, UInt64.toNat_ofNat',
          Nat.mod_eq_of_lt (by have := m.run.1.toNat_lt; omega)]
      rw [Nat.succ_add, runWhile_succ, afterSteps_succ']
      cases n with
      | zero =>
          rw [if_neg (by rw [beq_iff_eq]; exact hend)]
          rw [← hfirst]
          exact congrArg (·, m.run.2) (UInt64.add_zero _).symm
      | succ n =>
          have hsame : m.run.2.bus.picture.beam.frame = frame :=
            hwithin 1 (Nat.succ_lt_succ (Nat.succ_pos n))
          rw [if_pos (beq_iff_eq.2 hsame), ih (Nat.succ_pos n) ?_ hend, hfirst]
          intro k hk
          rw [← afterSteps_succ']
          exact hwithin (k + 1) (Nat.succ_lt_succ hk)

theorem LastStep.frames {steps : Nat} (h : m.bus.picture.beam.AtTime t)
    (hlast : LastStep t m steps) : (afterSteps steps m).frames = m.frames + 1 := by
  obtain ⟨t', hafter, hnext, -⟩ := hlast.next
  show (afterSteps steps m).bus.picture.beam.frame = _
  rw [hafter.frame_place.1, hnext]
  exact (frame_succ h.frame_place.1).symm

/-- A frame is run by the steps up to its last one. -/
theorem LastStep.runWhile_eq {steps : Nat} (h : m.bus.picture.beam.AtTime t)
    (hlast : LastStep t m steps) {fuel : Nat} (hfuel : steps ≤ fuel) :
    runWhile m.frames fuel 0 m = (.ofNat (reported steps m), afterSteps steps m) := by
  have hother : (afterSteps steps m).frames ≠ m.frames := by
    rw [hlast.frames h]
    exact fun heq => absurd (UInt64.add_eq_left.1 heq) (by decide)
  obtain ⟨more, rfl⟩ := Nat.exists_eq_add_of_le hfuel
  rw [runWhile_of_within hlast.pos hlast.within hother more 0, UInt64.zero_add]

theorem exists_lastStep_runFrame (h : m.bus.picture.beam.AtTime t) :
    ∃ steps ≤ stepsPerFrame, LastStep t m steps ∧
      m.runFrame = (.ofNat (reported steps m), afterSteps steps m) ∧
      m.runFrame.1.toNat = reported steps m := by
  obtain ⟨steps, hsteps, hlast⟩ : ∃ steps ≤ stepsPerFrame, LastStep t m steps :=
    exists_lastStep h (by simp only [dotsPerFrame, stepsPerFrame]; omega)
  have hresult : m.runFrame = (.ofNat (reported steps m), afterSteps steps m) :=
    hlast.runWhile_eq h hsteps
  have hmost := hlast.reported_le
  refine ⟨steps, hsteps, hlast, hresult, ?_⟩
  rw [hresult]
  refine UInt64.toNat_ofNat_of_lt' ?_
  simp only [dotsPerFrame] at hmost
  simp only [UInt64.size]
  omega

/-- **Running a frame comes to an end, one frame later.** Whatever a machine waits for and
whatever is to be transferred, requested or drawn, there are finitely many steps before
which the frame is the same and behind which it is not; the loop ends with them by itself,
however many it is allowed. The count of frames has gone on by one, the beam is at most 44
dots into the new frame, and the steps have taken at most 29795 cycles. A frame that is run
right after it takes at least 29766. -/
theorem runFrame_ends {c : Cartridge} {rate : UInt32} (h : Attainable c rate m) :
    let after := m.runFrame.2
    (∃ steps, 0 < steps ∧ (∀ k < steps, (afterSteps k m).frames = m.frames) ∧
      (∀ fuel, steps ≤ fuel → runWhile m.frames fuel 0 m = m.runFrame) ∧
      m.runFrame = (.ofNat (reported steps m), afterSteps steps m) ∧
      m.runFrame.1.toNat = reported steps m) ∧
    after.frames = m.frames + 1 ∧
    after.bus.picture.beam.line = 0 ∧ after.bus.picture.beam.dot ≤ 44 ∧
    m.runFrame.1 ≤ 29795 ∧ 29766 ≤ after.runFrame.1 := by
  intro after
  have htime := h.intact.bus.picture.beam.atTime
  obtain ⟨steps, hsteps, hlast, hresult, hcycles⟩ := exists_lastStep_runFrame htime
  have hafter : after = afterSteps steps m := congrArg Prod.snd hresult
  obtain ⟨t', htime', -, hplace'⟩ := hlast.next
  rw [← hafter] at htime'
  -- the frame that follows, from where this one ends
  obtain ⟨steps', -, hlast', -, hcycles'⟩ := exists_lastStep_runFrame htime'
  have hbegins : 341 * after.bus.picture.beam.line.toNat + after.bus.picture.beam.dot.toNat ≤ 44 :=
    htime'.frame_place.2.trans_le hplace'
  refine ⟨⟨steps, hlast.pos, hlast.within, fun fuel hfuel => ?_, hresult, hcycles⟩, ?_, ?_, ?_,
    ?_, ?_⟩
  · rw [hlast.runWhile_eq htime hfuel, hresult]
  · rw [hafter]
    exact hlast.frames htime
  · simp only [← UInt16.toNat_inj, UInt16.reduceToNat]
    omega
  · simp only [UInt16.le_iff_toNat_le, UInt16.reduceToNat]
    omega
  · have hmost := hlast.reported_le
    simp only [UInt64.le_iff_toNat_le, hcycles, UInt64.reduceToNat]
    simp only [dotsPerFrame] at hmost
    omega
  · have hleast := hlast'.le_reported
    simp only [UInt64.le_iff_toNat_le, hcycles', UInt64.reduceToNat]
    simp only [dotsPerFrame] at hleast hplace'
    omega

/-- A machine that has to wait longer than the frame lasts, in the last frame that can be
counted. -/
theorem runFrame_ends_waiting :
    let a := ofCartridge (.minimal .serial) defaultRate
    let saved : SavedMachine :=
      { a.save with
        cpu := { a.save.cpu with stall := 0xFFFFFFFF, pending := some .nmi }
        picture :=
          { a.save.picture with
            beam := { a.save.picture.beam with frame := 0xFFFFFFFFFFFFFFFF } } }
    let m := (load saved a).2
    Attainable (.minimal .serial) defaultRate m ∧
      m.runFrame.2.frames = m.frames + 1 ∧ m.runFrame.2.bus.picture.beam.dot ≤ 44 ∧
      m.runFrame.1 ≤ 29795 ∧ 29766 ≤ m.runFrame.2.runFrame.1 := by
  intro a saved m
  have hm : Attainable (.minimal .serial) defaultRate m := .load saved (.reachable .cartridge)
  obtain ⟨-, hframes, -, hdot, hmost, hleast⟩ := runFrame_ends hm
  exact ⟨hm, hframes, hdot, hmost, hleast⟩

end Famicom.Machine
