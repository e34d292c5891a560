import Famicom.Proofs.Video.Compositing

/-!
# The blanking interrupt follows the edges of its line

The line of the blanking interrupt is moved by the processor and by the beam, and
both may move it at any time. What comes of that is a matter of edges:

* **line** — whatever moves the line starts the count of fifteen where the line
  rises, and nowhere else (`NmiLine.Follows`);
* **history** — so the count tells how long ago the line rose last, as long as it is
  still high (`Tracked`);
* **law** — the interrupt is there behind the fifteenth dot from a rise, if the line
  is high until that dot begins (`takeNmi_iff_rose`). What the dot itself does to the
  line comes too late (`takeNmi_of_late_fall`).
-/

namespace Famicom.Video

open Cartridge

/-! ## The line -/

namespace NmiLine

variable {n n' : NmiLine}

/-- The line remembers the level that it has. -/
def Settled (n : NmiLine) : Prop := n.previous = n.level

/-- A line after it was moved, or left alone. Only a rise starts the count. -/
structure Follows (n n' : NmiLine) : Prop where
  settled : n'.Settled
  delay : n'.delay = if n'.level && !n.level then nmiDelay else n.delay
  pending : n'.pending = n.pending

theorem Settled.follows (h : n.Settled) : n.Follows n :=
  ⟨h, by simp, rfl⟩

theorem Settled.setOccurred (h : n.Settled) (occurred : Bool) :
    n.Follows (n.setOccurred occurred) := by
  refine ⟨rfl, ?_, rfl⟩
  rw [← h]
  rfl

theorem Settled.setOutput (h : n.Settled) (output : Bool) : n.Follows (n.setOutput output) := by
  refine ⟨rfl, ?_, rfl⟩
  rw [← h]
  rfl

/-! A dot takes one from the count, and the interrupt is there when the count ends. -/

theorem fields_advance (n : NmiLine) :
    n.advance.output = n.output ∧ n.advance.occurred = n.occurred := by
  unfold advance
  split <;> exact ⟨rfl, rfl⟩

theorem level_advance (n : NmiLine) : n.advance.level = n.level := by
  rw [level, n.fields_advance.1, n.fields_advance.2, level]

theorem Settled.advance (h : n.Settled) : n.advance.Settled := by
  unfold NmiLine.advance
  split
  · exact h
  · exact h

theorem toNat_delay_advance (n : NmiLine) : n.advance.delay.toNat = n.delay.toNat - 1 := by
  unfold advance
  split
  · rename_i hidle
    simp [beq_iff_eq.1 hidle]
  · rename_i hcounting
    have hpositive : n.delay ≠ 0 := fun h => hcounting (beq_iff_eq.2 h)
    exact UInt8.toNat_sub_of_le _ _ (Byte.one_le hpositive)

theorem pending_advance (h : n.pending = false) :
    n.advance.pending = true ↔ n.delay.toNat = 1 ∧ n.level = true := by
  have hdelay := n.toNat_delay_advance
  unfold advance at hdelay ⊢
  by_cases hidle : (n.delay == 0) = true
  · rw [if_pos hidle]
    simp [beq_iff_eq.1 hidle, h]
  · rw [if_neg hidle] at hdelay ⊢
    have hpositive : n.delay.toNat ≠ 0 := fun heq => hidle (beq_iff_eq.2 (UInt8.toNat_inj.1 heq))
    have hlast : n.delay - 1 = 0 ↔ n.delay.toNat = 1 := by
      rw [← UInt8.toNat_inj, hdelay]
      show n.delay.toNat - 1 = 0 ↔ _
      omega
    simp [h, hlast]

/-- What the beam does to the line when it comes to a place: vertical blanking
begins, or it ends. -/
def atPlace (beam : Beam) (n : NmiLine) : NmiLine :=
  if beam.dot == 1 then
    if beam.line == blankingLine then n.setOccurred true
    else if beam.line == preRenderLine then n.setOccurred false
    else n
  else n

theorem Settled.atPlace (h : n.Settled) (beam : Beam) : n.Follows (n.atPlace beam) := by
  unfold NmiLine.atPlace
  split
  · split
    · exact h.setOccurred true
    split
    · exact h.setOccurred false
    · exact h.follows
  · exact h.follows

end NmiLine

/-! ## What moves the line -/

namespace PictureUnit

variable (p : PictureUnit) (b : Board)

theorem nmi_updateSelection : (p.updateSelection b).nmi = p.nmi := by
  unfold updateSelection
  split
  · split <;> rfl
  · rfl

/-- What a dot draws and fetches leaves the line alone. -/
theorem nmi_render : (p.render b).nmi = p.nmi := by
  obtain ⟨screen, hit, hdraw⟩ := p.drawStep_shape
  obtain ⟨v, tile, hfetch⟩ := Still.fetchStep_shape p.drawStep b
  obtain ⟨v', hmove⟩ := Still.moveScroll_shape (p.drawStep.fetchStep b)
  unfold render
  split
  · show (((p.drawStep.fetchStep b).moveScroll).updateSelection b).nmi = p.nmi
    rw [nmi_updateSelection, hmove, hfetch, hdraw]
  · exact nmi_updateSelection p b

theorem nmi_drawBackdrop : p.drawBackdrop.nmi = p.nmi := by
  unfold drawBackdrop
  split <;> rfl

theorem nmi_updateFlags : p.updateFlags.nmi = p.nmi.atPlace p.beam := by
  unfold updateFlags NmiLine.atPlace
  split
  · split
    · rfl
    split <;> rfl
  · rfl

/-- A tick counts first. Then the beam moves the line. -/
theorem nmi_tick : (p.tick b).nmi = p.nmi.advance.atPlace (p.beam.advance p.rendering) := by
  unfold tick
  simp only [nmi_updateFlags]
  split
  · rw [nmi_render, beam_render]
    rfl
  · rw [nmi_drawBackdrop, beam_drawBackdrop]
    rfl

variable {p}

/-- Of the reads, only that of the status moves the line. -/
theorem follows_readRegister (h : p.nmi.Settled) (register : UInt16) :
    p.nmi.Follows (p.readRegister b register).2.nmi := by
  unfold readRegister
  split
  · exact h.setOccurred false
  · exact h.follows
  · unfold readData
    simp only []
    split <;> exact h.follows
  · exact h.follows

theorem nmi_store (address : UInt16) (value : UInt8) : (p.store b address value).1.nmi = p.nmi := by
  unfold store
  simp only []
  split
  · rfl
  split
  · rfl
  · rfl

/-- Of the writes, only that of the control register moves the line. -/
theorem follows_writeRegister (h : p.nmi.Settled) (register : UInt16) (value : UInt8) :
    p.nmi.Follows (p.writeRegister b register value).1.nmi := by
  unfold writeRegister
  simp only []
  split
  case h_1 => exact h.setOutput (hasBits value 0x80)
  case h_7 =>
    have hstore : (({ p with lastWrite := value }.store b p.scroll.v value).1.skip).nmi = p.nmi :=
      nmi_store (p := { p with lastWrite := value }) b p.scroll.v value
    rw [hstore]
    exact h.follows
  all_goals exact h.follows

end PictureUnit

/-! ## Histories -/

/-- What is done with a picture unit. The board may be another one each time. -/
inductive Action where
  | tick (board : Board)
  | read (board : Board) (register : UInt16)
  | write (board : Board) (register : UInt16) (value : UInt8)
  | reset

/-- The dots that an action takes. -/
def Action.dots : Action → Nat
  | .tick _ => 1
  | _ => 0

namespace PictureUnit

/-- The picture unit behind an action. The interrupt is taken behind every dot. -/
def act (p : PictureUnit) : Action → PictureUnit
  | .tick board => (p.tick board).takeNmi.2
  | .read board register => (p.readRegister board register).2
  | .write board register value => (p.writeRegister board register value).1
  | .reset => p.reset

theorem takeNmi_fst (p : PictureUnit) : p.takeNmi.1 = p.nmi.pending := by
  unfold takeNmi
  split
  · rename_i hpending
    exact hpending.symm
  · rename_i hquiet
    exact (Bool.eq_false_iff.2 hquiet).symm

theorem nmi_takeNmi (p : PictureUnit) : p.takeNmi.2.nmi = { p.nmi with pending := false } := by
  unfold takeNmi
  split
  · rfl
  · rename_i hquiet
    rw [← Bool.eq_false_iff.2 hquiet]

/-- The line behind an action is that of the unit before, with the dots of the action
counted off unless it rises. -/
structure Acted (dots : Nat) (n n' : NmiLine) : Prop where
  settled : n'.Settled
  quiet : n'.pending = false
  delay : n'.delay.toNat = if n'.level && !n.level then 15 else n.delay.toNat - dots

theorem nmi_act {p : PictureUnit} (h : p.nmi.Settled) (hquiet : p.nmi.pending = false)
    (action : Action) : Acted action.dots p.nmi (p.act action).nmi := by
  have haccess {n : NmiLine} (hfollows : p.nmi.Follows n) : Acted 0 p.nmi n := by
    refine ⟨hfollows.settled, hfollows.pending.trans hquiet, ?_⟩
    rw [hfollows.delay]
    split <;> rfl
  cases action with
  | tick board =>
      have hfollows := h.advance.atPlace (p.beam.advance p.rendering)
      rw [← nmi_tick] at hfollows
      show Acted 1 p.nmi (p.tick board).takeNmi.2.nmi
      rw [nmi_takeNmi]
      refine ⟨hfollows.settled, rfl, ?_⟩
      show (p.tick board).nmi.delay.toNat =
        if (p.tick board).nmi.level && !p.nmi.level then 15 else p.nmi.delay.toNat - 1
      rw [hfollows.delay, NmiLine.level_advance, ← NmiLine.toNat_delay_advance]
      split <;> rfl
  | read board register => exact haccess (follows_readRegister board h register)
  | write board register value => exact haccess (follows_writeRegister board h register value)
  | reset => exact haccess (h.setOutput false)

end PictureUnit

section History

variable (actions : Nat → Action)

/-- The picture unit in front of an action, from power-on. -/
def unitBefore : Nat → PictureUnit
  | 0 => .powerOn
  | n + 1 => (unitBefore n).act (actions n)

/-- The dots in front of an action. -/
def dotsBefore : Nat → Nat
  | 0 => 0
  | n + 1 => dotsBefore n + (actions n).dots

/-- The line is high in front of an action. -/
def High (n : Nat) : Prop := (unitBefore actions n).nmi.level = true

/-- An action makes the line rise. -/
def Rises (n : Nat) : Prop := ¬ High actions n ∧ High actions (n + 1)

/-- An action is a dot, and the interrupt is there behind it. -/
def Interrupts (n : Nat) : Prop :=
  ∃ board, actions n = .tick board ∧ ((unitBefore actions n).tick board).takeNmi.1 = true

/-- An action is the fifteenth dot behind a rise, and the line has been high from
then on until this dot. -/
structure Answers (rise n : Nat) : Prop where
  behind : rise < n
  rises : Rises actions rise
  high : ∀ k, rise < k → k ≤ n → High actions k
  dot : ∃ board, actions n = .tick board
  fifteenth : dotsBefore actions (n + 1) = dotsBefore actions (rise + 1) + 15

variable {actions} {n : Nat}

theorem unitBefore_succ (actions : Nat → Action) (n : Nat) :
    unitBefore actions (n + 1) = (unitBefore actions n).act (actions n) :=
  rfl

theorem dotsBefore_succ (actions : Nat → Action) (n : Nat) :
    dotsBefore actions (n + 1) = dotsBefore actions n + (actions n).dots :=
  rfl

theorem dotsBefore_le {m : Nat} (h : m ≤ n) : dotsBefore actions m ≤ dotsBefore actions n := by
  induction h with
  | refl => exact Nat.le_refl _
  | step _ ih => exact Nat.le_add_right_of_le ih

/-- No two rises are the last one. -/
theorem rise_unique {rise rise' : Nat} (h : Rises actions rise) (h' : Rises actions rise')
    (hhigh : ∀ k, rise < k → k ≤ n → High actions k)
    (hhigh' : ∀ k, rise' < k → k ≤ n → High actions k) (hn : rise < n) (hn' : rise' < n) :
    rise = rise' := by
  obtain hlt | heq | hgt := Nat.lt_trichotomy rise rise'
  · exact absurd (hhigh rise' hlt (Nat.le_of_lt hn')) h'.1
  · exact heq
  · exact absurd (hhigh' rise hgt (Nat.le_of_lt hn)) h.1

/-- In front of an action no interrupt is waiting, and if the line is high then the
count is what is left of fifteen dots from the last rise. -/
structure Tracked (actions : Nat → Action) (n : Nat) : Prop where
  settled : (unitBefore actions n).nmi.Settled
  quiet : (unitBefore actions n).nmi.pending = false
  rose : High actions n → ∃ rise < n, Rises actions rise ∧
    (∀ k, rise < k → k ≤ n → High actions k) ∧
    (unitBefore actions n).nmi.delay.toNat =
      15 - (dotsBefore actions n - dotsBefore actions (rise + 1))

theorem Tracked.succ (h : Tracked actions n) : Tracked actions (n + 1) := by
  obtain ⟨hsettled, hquiet, hdelay⟩ :=
    PictureUnit.nmi_act h.settled h.quiet (actions n)
  refine ⟨hsettled, hquiet, ?_⟩
  intro hhigh
  have hlevel : ((unitBefore actions n).act (actions n)).nmi.level = true := hhigh
  rw [hlevel, Bool.true_and] at hdelay
  have hnext := dotsBefore_succ actions n
  by_cases hbefore : High actions n
  · -- the line stays high, and the last rise is the one that it was
    obtain ⟨rise, hbehind, hrises, hsince, hleft⟩ := h.rose hbefore
    refine ⟨rise, Nat.lt_succ_of_lt hbehind, hrises, ?_, ?_⟩
    · intro k hk hkn
      obtain rfl | hlt := Nat.eq_or_lt_of_le hkn
      · exact hhigh
      · exact hsince k hk (Nat.le_of_lt_succ hlt)
    · have hpast : dotsBefore actions (rise + 1) ≤ dotsBefore actions n := dotsBefore_le hbehind
      rw [show (unitBefore actions n).nmi.level = true from hbefore, hleft] at hdelay
      simp only [Bool.not_true, Bool.false_eq_true, if_false] at hdelay
      refine hdelay.trans ?_
      omega
  · -- the line rises here, and the count begins
    refine ⟨n, Nat.lt_succ_self n, ⟨hbefore, hhigh⟩, ?_, ?_⟩
    · intro k hk hkn
      obtain rfl : k = n + 1 := Nat.le_antisymm hkn hk
      exact hhigh
    · have hlow : (unitBefore actions n).nmi.level = false := Bool.eq_false_iff.2 hbefore
      rw [hlow, Bool.not_false, if_pos rfl] at hdelay
      rw [Nat.sub_self]
      exact hdelay

theorem tracked (actions : Nat → Action) (n : Nat) : Tracked actions n := by
  induction n with
  | zero =>
      have hlow : PictureUnit.powerOn.nmi.level = false := rfl
      exact ⟨rfl, rfl, fun hhigh => absurd (hlow.symm.trans hhigh) Bool.false_ne_true⟩
  | succ n ih => exact ih.succ

/-- The interrupt is there behind a dot exactly if the count ends in it. -/
theorem interrupts_iff (actions : Nat → Action) (n : Nat) :
    Interrupts actions n ↔ (∃ board, actions n = .tick board) ∧ High actions n ∧
      (unitBefore actions n).nmi.delay.toNat = 1 := by
  have hdot (board : Board) : ((unitBefore actions n).tick board).takeNmi.1 = true ↔
      (unitBefore actions n).nmi.delay.toNat = 1 ∧ High actions n := by
    have h := tracked actions n
    have hmoved := h.settled.advance.atPlace
      ((unitBefore actions n).beam.advance (unitBefore actions n).rendering)
    rw [PictureUnit.takeNmi_fst, PictureUnit.nmi_tick, hmoved.pending]
    exact NmiLine.pending_advance h.quiet
  constructor
  · rintro ⟨board, haction, htaken⟩
    obtain ⟨hlast, hhigh⟩ := (hdot board).1 htaken
    exact ⟨⟨board, haction⟩, hhigh, hlast⟩
  · rintro ⟨⟨board, haction⟩, hhigh, hlast⟩
    exact ⟨board, haction, (hdot board).2 ⟨hlast, hhigh⟩⟩

theorem dots_of_tick {board : Board} (h : actions n = .tick board) :
    dotsBefore actions (n + 1) = dotsBefore actions n + 1 := by
  rw [dotsBefore_succ, h]
  rfl

/-- The dot of an interrupt answers the last rise. -/
theorem exists_answers (h : Interrupts actions n) : ∃ rise, Answers actions rise n := by
  obtain ⟨⟨board, haction⟩, hhigh, hlast⟩ := (interrupts_iff actions n).1 h
  obtain ⟨rise, hbehind, hrises, hsince, hleft⟩ := (tracked actions n).rose hhigh
  refine ⟨rise, hbehind, hrises, hsince, ⟨board, haction⟩, ?_⟩
  have hpast : dotsBefore actions (rise + 1) ≤ dotsBefore actions n := dotsBefore_le hbehind
  rw [dots_of_tick haction]
  omega

/-- The fifteenth dot behind a rise brings the interrupt. -/
theorem Answers.interrupts {rise : Nat} (h : Answers actions rise n) : Interrupts actions n := by
  have hhigh := h.high n h.behind (Nat.le_refl n)
  obtain ⟨rise', hbehind, hrises, hsince, hleft⟩ := (tracked actions n).rose hhigh
  obtain rfl := rise_unique h.rises hrises h.high hsince h.behind hbehind
  obtain ⟨board, haction⟩ := h.dot
  refine (interrupts_iff actions n).2 ⟨h.dot, hhigh, ?_⟩
  have hfifteenth := h.fifteenth
  rw [dots_of_tick haction] at hfifteenth
  omega

/-- A rise has one fifteenth dot. -/
theorem Answers.unique {rise n' : Nat} (h : Answers actions rise n) (h' : Answers actions rise n') :
    n = n' := by
  have hle {m m' : Nat} (h : Answers actions rise m) (h' : Answers actions rise m') : m' ≤ m := by
    obtain ⟨board, haction⟩ := h'.dot
    have hfirst := h.fifteenth
    have hsecond := h'.fifteenth
    rw [dots_of_tick haction] at hsecond
    refine Nat.le_of_not_lt fun hlt => ?_
    have hpast : dotsBefore actions (m + 1) ≤ dotsBefore actions m' := dotsBefore_le hlt
    omega
  exact Nat.le_antisymm (hle h' h) (hle h h')

/-- **The blanking interrupt follows the edges of its line.** A picture unit is
switched on, and then dots and accesses follow in any order, with any boards.

* The interrupt is there behind a dot exactly if this is the fifteenth dot behind a
  rise of the line, and the line has been high from then on until the dot begins.
* So a rise brings one interrupt at most, and each interrupt belongs to one rise.
* If the line falls before the fifteenth dot begins, the rise brings none. -/
theorem takeNmi_iff_rose (actions : Nat → Action) :
    (∀ n, Interrupts actions n ↔ ∃ rise, Answers actions rise n) ∧
    (∀ rise n n', Answers actions rise n → Answers actions rise n' → n = n') ∧
    (∀ rise rise' n, Answers actions rise n → Answers actions rise' n → rise = rise') ∧
    (∀ rise k, rise < k → ¬ High actions k →
      dotsBefore actions k < dotsBefore actions (rise + 1) + 15 →
        ∀ n, ¬ Answers actions rise n) := by
  refine ⟨?_, ?_, ?_, ?_⟩
  · intro n
    constructor
    · exact exists_answers
    · rintro ⟨rise, h⟩
      exact h.interrupts
  · intro rise n n' h h'
    exact h.unique h'
  · intro rise rise' n h h'
    exact rise_unique h.rises h'.rises h.high h'.high h.behind h'.behind
  · intro rise k hk hfallen hearly n h
    -- the line would be high until the fifteenth dot, which is not over at the fall
    refine hfallen (h.high k hk (Nat.le_of_not_lt fun hlt => ?_))
    have hpast : dotsBefore actions (n + 1) ≤ dotsBefore actions k := dotsBefore_le hlt
    have hfifteenth := h.fifteenth
    omega

end History

/-! ## A fall in the fifteenth dot -/

/-- While nothing is shown, no dot is left out. -/
theorem Beam.not_skips (beam : Beam) : beam.skips (beam.advance false) = false := by
  simp only [skips, Bool.and_eq_false_imp, Bool.and_eq_true, beq_iff_eq]
  rintro ⟨hline, hdot⟩
  simp [Beam.advance, hline, hdot, lastDot, preRenderLine]

/-- In the first frame the time tells the place. -/
theorem Beam.AtTime.place {beam : Beam} {t : Nat} (h : beam.AtTime t) (ht : t < dotsPerFrame) :
    beam.line.toNat = t / 341 ∧ beam.dot.toNat = t % 341 := by
  obtain ⟨⟨-, hdot⟩, frames, -, htime⟩ := h
  rw [UInt16.le_iff_toNat_le] at hdot
  simp only [lastDot, UInt16.reduceToNat] at hdot
  simp only [dotsPerFrame] at htime ht
  omega

/-- A picture unit that shows nothing, at a time of the first frame from its start on,
when nobody has read the status. Blanking has begun at the first dot of its line and
ends at that of the line before the picture. -/
structure Undisturbed (output : Bool) (t : Nat) (p : PictureUnit) : Prop where
  mask : p.mask = 0
  time : p.beam.AtTime t
  output : p.nmi.output = output
  occurred : p.nmi.occurred = decide (82182 ≤ t ∧ t < 89002)

theorem undisturbed_powerOn : Undisturbed false 82180 .powerOn :=
  ⟨rfl, ⟨⟨by decide, by decide⟩, 0, rfl, rfl⟩, rfl, rfl⟩

variable {p : PictureUnit} {output : Bool} {t : Nat}

theorem Undisturbed.tick (h : Undisturbed output t p) (b : Board) (hstart : 82180 ≤ t)
    (ht : t + 1 < Beam.dotsPerFrame) : Undisturbed output (t + 1) (p.tick b).takeNmi.2 := by
  have hblank : p.rendering = false := by
    rw [PictureUnit.rendering, h.mask]
    rfl
  have htick : p.tick b = p.advance.drawBackdrop.updateFlags := by
    have hstill : ¬ p.advance.rendering = true := Bool.eq_false_iff.1 hblank
    unfold PictureUnit.tick
    simp only [if_neg hstill]
  have hbeam : (p.tick b).takeNmi.2.beam = p.beam.advance false := by
    rw [PictureUnit.beam_takeNmi, PictureUnit.beam_tick, hblank]
  have htime : (p.beam.advance false).AtTime (t + 1) := by
    have hnext := h.time.advance false
    rw [p.beam.not_skips] at hnext
    exact hnext
  obtain ⟨hline, hdot⟩ := htime.place ht
  have hnmi : (p.tick b).takeNmi.2.nmi =
      { p.nmi.advance.atPlace (p.beam.advance false) with pending := false } := by
    rw [PictureUnit.nmi_takeNmi, PictureUnit.nmi_tick, hblank]
  refine ⟨?_, hbeam ▸ htime, ?_, ?_⟩
  · have hmask : (p.tick b).takeNmi.2.mask = p.advance.drawBackdrop.mask := by
      rw [htick]
      exact (congrArg View.mask (PictureUnit.view_takeNmi _)).trans
        (congrArg View.mask (PictureUnit.view_updateFlags _))
    rw [hmask, PictureUnit.drawBackdrop]
    split <;> exact h.mask
  · rw [hnmi, ← h.output, ← p.nmi.fields_advance.1]
    unfold NmiLine.atPlace
    split
    · split
      · rfl
      split <;> rfl
    · rfl
  · have hbegin : (p.beam.advance false).line = blankingLine ↔ (t + 1) / 341 = 241 := by
      rw [← hline]
      exact UInt16.toNat_inj.symm
    have hend : (p.beam.advance false).line = preRenderLine ↔ (t + 1) / 341 = 261 := by
      rw [← hline]
      exact UInt16.toNat_inj.symm
    have hfirst : (p.beam.advance false).dot = 1 ↔ (t + 1) % 341 = 1 := by
      rw [← hdot]
      exact UInt16.toNat_inj.symm
    have hoccurred : p.nmi.advance.occurred = decide (82182 ≤ t ∧ t < 89002) :=
      p.nmi.fields_advance.2.trans h.occurred
    rw [hnmi]
    show (p.nmi.advance.atPlace (p.beam.advance false)).occurred = _
    simp only [NmiLine.atPlace, beq_iff_eq, hbegin, hend, hfirst]
    split
    · split
      · exact (decide_eq_true (by omega)).symm
      split
      · exact (decide_eq_false (by omega)).symm
      · exact hoccurred.trans (decide_eq_decide.2 (by omega))
    · exact hoccurred.trans (decide_eq_decide.2 (by omega))

/-- In the control register the interrupt can be asked for at any time. -/
theorem Undisturbed.enable (h : Undisturbed output t p) (b : Board) :
    Undisturbed true t (p.writeRegister b 0 0x80).1 :=
  ⟨h.mask, h.time, rfl, h.occurred⟩

theorem Undisturbed.high_iff (h : Undisturbed true t p) (hstart : 82182 ≤ t) :
    p.nmi.level = true ↔ t < 89002 := by
  rw [NmiLine.level, h.output, h.occurred, Bool.true_and, decide_eq_true_eq]
  exact and_iff_right hstart

/-- Nothing but dots, and one write that asks for the interrupt. The fifteenth dot
behind it is the one in which blanking ends. -/
def lateFall (n : Nat) : Action :=
  let board := Board.ofCartridge (.minimal .linear)
  if n = 6807 then .write board 0 0x80 else .tick board

theorem lateFall_tick {n : Nat} (h : n ≠ 6807) :
    lateFall n = .tick (Board.ofCartridge (.minimal .linear)) := if_neg h

theorem lateFall_waiting {n : Nat} (h : n ≤ 6807) :
    Undisturbed false (82180 + n) (unitBefore lateFall n) ∧ dotsBefore lateFall n = n := by
  induction n with
  | zero => exact ⟨undisturbed_powerOn, rfl⟩
  | succ n ih =>
      obtain ⟨hunit, hdots⟩ := ih (Nat.le_of_succ_le h)
      have haction := lateFall_tick (n := n) (by omega)
      refine ⟨?_, by rw [dots_of_tick haction, hdots]⟩
      rw [unitBefore_succ, haction]
      exact hunit.tick _ (by omega) (by simp only [Beam.dotsPerFrame]; omega)

theorem lateFall_enabled {n : Nat} (h : n ≤ 15) :
    Undisturbed true (88987 + n) (unitBefore lateFall (6808 + n)) ∧
      dotsBefore lateFall (6808 + n) = 6807 + n := by
  induction n with
  | zero =>
      obtain ⟨hunit, hdots⟩ := lateFall_waiting (Nat.le_refl 6807)
      have haction : lateFall 6807 = .write (Board.ofCartridge (.minimal .linear)) 0 0x80 := by
        simp only [lateFall, if_true]
      show Undisturbed true 88987 (unitBefore lateFall (6807 + 1)) ∧
        dotsBefore lateFall (6807 + 1) = 6807
      rw [unitBefore_succ, dotsBefore_succ, haction, hdots]
      exact ⟨hunit.enable _, rfl⟩
  | succ n ih =>
      obtain ⟨hunit, hdots⟩ := ih (Nat.le_of_succ_le h)
      have haction := lateFall_tick (n := 6808 + n) (by omega)
      refine ⟨?_, by rw [← Nat.add_assoc, dots_of_tick haction, hdots, Nat.add_assoc]⟩
      rw [← Nat.add_assoc, ← Nat.add_assoc, unitBefore_succ, haction]
      exact hunit.tick _ (by omega) (by simp only [Beam.dotsPerFrame]; omega)

/-- The line is high from the write until the dot in which blanking ends. -/
theorem high_lateFall {n : Nat} (h : n ≤ 15) : High lateFall (6808 + n) ↔ n < 15 := by
  rw [High, (lateFall_enabled h).1.high_iff (by omega)]
  omega

/-- The interrupt is there behind the fifteenth dot although this dot has taken the
line down. No rise of the line has left it high ever since. -/
theorem takeNmi_of_late_fall :
    Interrupts lateFall 6822 ∧
      ¬ ∃ rise < 6822, Rises lateFall rise ∧
        (∀ k, rise < k → k ≤ 6823 → High lateFall k) ∧
        dotsBefore lateFall 6823 = dotsBefore lateFall (rise + 1) + 15 := by
  constructor
  · have hanswers : Answers lateFall 6807 6822 := by
      refine ⟨by decide, ⟨?_, (high_lateFall (Nat.zero_le 15)).2 (by decide)⟩, ?_,
        ⟨_, lateFall_tick (by decide)⟩, ?_⟩
      · rw [High, NmiLine.level, (lateFall_waiting (Nat.le_refl 6807)).1.output]
        exact Bool.false_ne_true
      · intro k hk hkn
        obtain ⟨n, rfl⟩ := Nat.exists_eq_add_of_le hk
        exact (high_lateFall (by omega)).2 (by omega)
      · exact (lateFall_enabled (Nat.le_refl 15)).2.trans
          (congrArg (· + 15) (lateFall_enabled (Nat.zero_le 15)).2.symm)
    exact hanswers.interrupts
  · rintro ⟨rise, hrise, -, hhigh, -⟩
    exact absurd ((high_lateFall (Nat.le_refl 15)).1 (hhigh 6823 (by omega) (Nat.le_refl _)))
      (by decide)

end Famicom.Video
